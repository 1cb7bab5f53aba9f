import IttyBittyServer.BodyCount
import IttyBittyServer.ClientRequest
import IttyBittyServer.ServerReply

/-! An iteration of the proxy that only passes a request and its response on. -/
namespace IttyBittyServer.Relay
open Sockets Text
open Header (blankLine contentLength getHeaderField bodyLength recvHeader)
open ProxyIteration (World)
open ClientRequest (absolute Word)
open ServerReply (Delimited Framing responseDelimited)

theorem forwards {header body : List UInt8} {client : Sender} {answers : List Answer} {n : Int}
    {rpc : List UInt8 → Forward.Rpc} (whole : n < 0 ∨ body.length ≤ n) (short : header.length + body.length < 2 ^ 31)
    (fresh : client.sent = []) (received : NoError answers) (accepted : NoError client.answers)
    (enough : body.length < answers.length) (room : header.length + body.length ≤ client.answers.length) :
    ∃ f, Forward.recvAllForward ⟨body,answers⟩ client header header.length n false rpc = some f ∧
      ¬ f.returned < 0 ∧ f.client.sent = header ++ body := by
  obtain ⟨f,ran⟩ := @Forward.forwardReturns header n rpc ⟨body,answers⟩ client (by omega) accepted enough room
  obtain ⟨forwarding,_,returned,closed,stops,_⟩ := Forward.forwardsAll received accepted ran
  have order := forwarding.order
  have none : f.upstream.stream = [] := by
    by_cases ended : f.closed = true
    · exact closed ended
    · obtain ⟨_,all⟩ := not_not.mp (mt stops.mpr ended)
      have size := congrArg List.length order
      rw [List.length_append] at size
      exact List.length_eq_zero_iff.mp (by dsimp only at size; omega)
  rw [none,List.append_nil] at order
  dsimp only at order
  refine ⟨f,ran,?_,by rw [forwarding.sent,fresh,← order,List.nil_append]⟩
  rw [returned,← order,intExact (by omega) (by omega)]
  omega

structure Relayed (w : World) (request : List UInt8) : Prop where
  asked : w.request.stream = request
  plain : w.compress = false
  alone : w.shared = none
  memory : w.allocated = true
  reached : w.resolved = true ∧ w.socket = true ∧ w.connect = true
  received : NoError w.request.answers ∧ request.length ≤ w.request.answers.length
  passed : NoError w.server.answers ∧ request.length ≤ w.server.answers.length
  answered : NoError w.upstream.answers ∧ w.upstream.stream.length < w.upstream.answers.length
  accepted : NoError w.client.answers ∧ w.upstream.stream.length ≤ w.client.answers.length
  fresh : w.client.sent = []

def CodeInside (header : List UInt8) : Prop :=
  getHeaderField header contentLength = some none → 2 ≤ (cstring (header.take 100)).count 32

theorem codePossible {header : List UInt8} (short : header.length < 2 ^ 31) :
    (∃ n, bodyLength header = some n) ↔ CodeInside header :=
  BodyCount.lengthPossible (BodyCount.lengthMeasured short)

theorem framingCode {header body : List UInt8} (framing : Framing header body)
    (short : header.length < 2 ^ 31) : CodeInside header := (codePossible short).mp ⟨_,framing.length⟩

theorem absoluteDelimited {host name : List UInt8} {port : Nat} (named : Word host) (listed : Word name) :
    Delimited (absolute host port name).header := by
  have number := Response.decimalPlain port
  have words : Response.Plain (ascii "GET") ∧ Response.Plain (ascii " http://") ∧ Response.Plain (ascii ":") ∧
      Response.Plain (ascii "HTTP/1.0") ∧ Response.Plain (ascii "Host: ") ∧ Response.Plain [32] ∧
      Response.Plain (ascii "/") := by
    unfold Response.Plain
    decide
  have slash : Response.Plain (if name.head? = some 47 then [] else ascii "/") := by
    split
    · simp [Response.Plain]
    · exact words.2.2.2.2.2.2
  have lines : (absolute host port name).header = Lines.header
      [ascii "GET" ++ ascii " http://" ++ (host ++ ascii ":" ++ decimal port) ++
        ((if name.head? = some 47 then [] else ascii "/") ++ name) ++ [32] ++ ascii "HTTP/1.0",
        ascii "Host: " ++ host ++ ascii ":" ++ decimal port] := by
    simp [Rewrite.Request.header,absolute,Lines.header]
  have each : ∀ l ∈ [ascii "GET" ++ ascii " http://" ++ (host ++ ascii ":" ++ decimal port) ++
        ((if name.head? = some 47 then [] else ascii "/") ++ name) ++ [32] ++ ascii "HTTP/1.0",
      ascii "Host: " ++ host ++ ascii ":" ++ decimal port], Lines.IsLine l := by
    obtain ⟨get,http,colon,version,field,blank,_⟩ := words
    intro l mem
    refine Response.plainLine ?_
    rcases List.mem_cons.mp mem with rfl | mem
    · simp only [Response.plainAppend]
      exact ⟨⟨⟨⟨⟨⟨get,http⟩,⟨named.2.2,colon⟩,number⟩,slash,listed.2.2⟩,blank⟩,version⟩,by simp⟩
    · cases List.mem_singleton.mp mem
      simp only [Response.plainAppend]
      exact ⟨⟨⟨⟨field,named.2.2⟩,colon⟩,number⟩,by simp [ascii]⟩
  rw [lines]
  exact ⟨Lines.headerEnds,fun p => Lines.firstBlankLine each⟩

section
variable {w : World} {request : Rewrite.Request}

theorem contactedServer {header tHeader : List UInt8} {sent : Sent} (relay : Relayed w request.header)
    (stripped : ProxyIteration.stripAbsURL header = some (some tHeader))
    (asked : sendAll w.server tHeader tHeader.length = some sent) (ok : sent.returned = 0) :
    ProxyIteration.contactServer w header false = (recvHeader w.upstream).bind fun r =>
      match r.header with
      | none => some (ProxyIteration.internal "The proxy encountered an error.\n")
      | some header => some (.response header r.headerLength r.bodyLength r.socket false) := by
  obtain ⟨_,socket,connect⟩ := relay.reached
  rw [ProxyIteration.contactServer,if_neg (not_not.mpr socket),if_neg (not_not.mpr connect),stripped]
  simp only [bind,Option.bind_some,asked]
  refine (if_neg (by omega)).trans (congrArg _ (funext fun r => ?_))
  cases r.header <;> rfl

theorem contactRelayed (relay : Relayed w request.header) (wf : request.WellFormed)
    (delimited : Delimited request.header) (short : request.header.length < 2 ^ 31) :
    ProxyIteration.contact w = (bodyLength request.header).bind fun _ => (recvHeader w.upstream).bind fun r =>
      match r.header with
      | none => some (ProxyIteration.internal "The proxy encountered an error.\n")
      | some header => some (.response header r.headerLength r.bodyLength r.socket false) := by
  have some_ := Header.endsSome wf.ends
  have read := @Header.recvHeaderEnds request.header [] w.request.answers some_ delimited.ends delimited.first
    relay.received.1
  rw [if_pos relay.received.2,List.append_nil] at read
  have asked : w.request = ⟨request.header,w.request.answers⟩ := by rw [← relay.asked]
  have host := Rewrite.hostValue wf.host (Rewrite.hostNear wf.host short)
  have stripped := Rewrite.strippedFound wf host
  have smaller : request.relative.length ≤ request.header.length := by
    simp only [Rewrite.Request.relative,Rewrite.Request.header,List.length_append]
    have : (ascii " http://").length = 8 := by decide
    simp only [this,List.length_cons,List.length_nil]
    omega
  obtain ⟨u,sent,_⟩ := sendAllReturns w.server (by omega : request.relative.length < 2 ^ 31)
    (Nat.le_trans smaller relay.passed.2)
  have ok := (bufferSent relay.passed.1 sent).1
  obtain ⟨resolved,_⟩ := relay.reached
  unfold ProxyIteration.contact
  rw [asked,read]
  cases bodyLength request.header with
  | none => rfl
  | some n =>
    have named : getHeaderField request.header (ascii "\nHost") = some (some request.authority) := host
    have plain : ProxyIteration.compression w request.header = some false := by
      rw [ProxyIteration.compression,relay.plain]
      rfl
    simp only [Option.map_some,bind,Option.bind_some,named,plain,Option.isNone_some,relay.alone,relay.memory,resolved,
      Bool.false_eq_true,if_false,not_true_eq_false]
    rw [contactedServer relay stripped sent ok]

theorem relayRead {i : ProxyIteration.Iteration} (relay : Relayed w request.header) (wf : request.WellFormed)
    (delimited : Delimited request.header) (short : request.header.length < 2 ^ 31)
    (ran : ProxyIteration.handleClient w = some i) : CodeInside request.header := by
  have reached := contactRelayed relay wf delimited short
  refine (codePossible short).mp ?_
  cases asked : bodyLength request.header with
  | none =>
    rw [asked,Option.bind_none] at reached
    simp [ProxyIteration.handleClient,reached] at ran
  | some n => exact ⟨n,rfl⟩

section
variable {header body : List UInt8}

theorem responseRead (relay : Relayed w request.header) (response : w.upstream.stream = header ++ body)
    (ended : Delimited header) : recvHeader w.upstream = (bodyLength header).map fun n =>
      ⟨some header,header.length,n,⟨body,w.upstream.answers.drop header.length⟩⟩ := by
  have read := @Header.recvHeaderEnds header body w.upstream.answers (Header.endsSome ended.ends) ended.ends ended.first
    relay.answered.1
  have size := congrArg List.length response
  rw [List.length_append] at size
  have enough := relay.answered.2
  rw [if_pos (by omega),← response] at read
  exact read

theorem relaysWhole (relay : Relayed w request.header) (wf : request.WellFormed)
    (delimited : Delimited request.header) (short : request.header.length < 2 ^ 31)
    (response : w.upstream.stream = header ++ body) (ended : Delimited header)
    (small : header.length + body.length < 2 ^ 31)
    (whole : ∀ n, bodyLength header = some n → n < 0 ∨ body.length ≤ n)
    (inside : CodeInside request.header) (answered : CodeInside header) :
    ∃ i, ProxyIteration.handleClient w = some i ∧ i.client.sent = w.upstream.stream := by
  obtain ⟨m,asked⟩ := (codePossible short).mpr inside
  obtain ⟨n,length⟩ := (codePossible (by omega)).mpr answered
  have reached := contactRelayed relay wf delimited short
  have size := congrArg List.length response
  rw [List.length_append] at size
  have enough := relay.answered.2
  rw [asked,responseRead relay response ended,length] at reached
  simp only [Option.map_some,Option.bind_some] at reached
  obtain ⟨f,forwarded,ok,sent⟩ := @forwards header body w.client (w.upstream.answers.drop header.length) n w.rpc
    (whole n length) small relay.fresh (noErrorSuffix relay.answered.1 (List.drop_suffix _ _)) relay.accepted.1
    (by rw [List.length_drop]; omega) (by rw [← size]; exact relay.accepted.2)
  refine ⟨⟨f.client,ProxyIteration.started w.client.sent.length w.client f.client,f.defined⟩,?_,?_⟩
  · rw [ProxyIteration.handleClient,reached]
    simp only [bind,Option.bind_some,forwarded]
    rw [if_neg ok]
  · rw [response]
    exact sent

end

end

def page : List UInt8 :=
  Response.responseHeader 200 (ascii "OK") none (ascii "text/plain; charset=iso-8859-1") 2 ++ [104,105]

def pageRelay : World where
  request := ⟨(absolute (ascii "h") 80 (ascii "a")).header,List.replicate 99 (.upTo 0)⟩
  behind := []
  client := ⟨[],List.replicate 99 (.upTo 6)⟩
  compress := false
  allocated := true
  resolved := true
  shared := none
  socket := true
  connect := true
  server := ⟨[],List.replicate 99 (.upTo 9)⟩
  upstream := ⟨page,List.replicate 99 (.upTo 1)⟩
  rpc := fun _ => .callFault

theorem pageRelayed : Relayed pageRelay (absolute (ascii "h") 80 (ascii "a")).header := by
  refine ⟨rfl,rfl,rfl,rfl,⟨rfl,rfl,rfl⟩,⟨?_,by decide +kernel⟩,⟨?_,by decide +kernel⟩,⟨?_,by decide +kernel⟩,
    ⟨?_,by decide +kernel⟩,rfl⟩ <;> simp [NoError,pageRelay]

end IttyBittyServer.Relay
