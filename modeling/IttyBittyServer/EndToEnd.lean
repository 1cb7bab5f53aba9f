import IttyBittyServer.Client
import IttyBittyServer.Relay
import Mathlib.Data.List.Forall2

/-! From the client's request to the number that it counts: straight to the server, and through
the proxy without compression. The network may cut every message where it likes. -/
namespace IttyBittyServer.EndToEnd
open Sockets Text
open Header (eol)
open ProxyIteration (World)
open ClientRequest (proxyText serverText http absolute Word)
open Answers (Files)
open ServerReply (requestLine Path lineNoNul answer answerBody serverAnswers Served Countable Framing servedFraming
  framingRead)
open Relay (Relayed relaysWhole relayRead absoluteDelimited framingCode page pageRelay pageRelayed)

def asked (proxy : Bool) (name : List UInt8) : List UInt8 :=
  if proxy = true ∧ name.head? = some 47 then name else 47::name

def requestText (proxy : Bool) (host : List UInt8) (port : Nat) (name : List UInt8) : List UInt8 :=
  if proxy then proxyText (http ++ host) port name else serverText host name

section
variable {host name : List UInt8} {port : Nat}

theorem serverLine (host name : List UInt8) :
    serverText host name = requestLine (47::name) (host ++ (eol ++ eol)) := by
  have start : ascii "GET /" = ascii "GET" ++ [32,47] := by decide
  have middle : ascii " HTTP/1.0" ++ (eol ++ ascii "Host: ") = 32::(ascii "HTTP/1.0\r\nHost:" ++ [32]) := by decide
  have line : ∀ tail, ascii " HTTP/1.0" ++ (eol ++ (ascii "Host: " ++ tail)) =
      32::(ascii "HTTP/1.0\r\nHost:" ++ 32::tail) := by
    intro tail
    simpa using congrArg (· ++ tail) middle
  simp only [serverText,requestLine,start,List.append_assoc,line]
  simp

theorem relativeLine (host name : List UInt8) (port : Nat) : (absolute host port name).relative =
    requestLine (asked true name) (host ++ (ascii ":" ++ (decimal port ++ (eol ++ eol)))) := by
  have middle : ascii "HTTP/1.0" ++ (eol ++ ascii "Host: ") = ascii "HTTP/1.0\r\nHost:" ++ [32] := by decide
  have line : ∀ tail, ascii "HTTP/1.0" ++ (eol ++ (ascii "Host: " ++ tail)) =
      ascii "HTTP/1.0\r\nHost:" ++ 32::tail := by
    intro tail
    simpa using congrArg (· ++ tail) middle
  have path : (if name.head? = some 47 then [] else ascii "/") ++ name = asked true name := by
    have slash : ascii "/" = [47] := by decide
    unfold asked
    by_cases given : name.head? = some 47 <;> simp [given,slash]
  simp only [Rewrite.Request.relative,absolute,requestLine,List.append_assoc,line]
  rw [← path]
  simp

theorem askedPath (listed : Word name) (proxy : Bool) : Path (asked proxy name) := by
  obtain ⟨_,blank,noNul,_⟩ := listed
  unfold asked
  split
  · rename_i given
    exact ⟨given.2,blank,noNul⟩
  · exact ⟨rfl,by simpa using blank,by simpa using noNul⟩

end

section
variable {files : Files} {before literal host name response : List UInt8} {port : Nat} {proxy : Bool}

inductive Proxied (files : Files) (before literal request path : List UInt8) : List UInt8 → Prop where
  | relayed {w : World} {i : ProxyIteration.Iteration} {tHeader : List UInt8} (relay : Relayed w request)
      (stripped : ProxyIteration.stripAbsURL request = some (some tHeader))
      (served : Served files before literal tHeader (path.length + 6) w.upstream.stream)
      (ran : ProxyIteration.handleClient w = some i) : Proxied files before literal request path i.client.sent

def Brought (proxy : Bool) (files : Files) (before literal request path response : List UInt8) : Prop :=
  if proxy then Proxied files before literal request path response
  else Served files before literal request (path.length + 6) response

def transfer (proxy : Bool) (host : List UInt8) (port : Nat) : List UInt8 → List UInt8 :=
  Client.transfer proxy (if proxy then http ++ host else host) port

structure Reached (proxy : Bool) (files : Files) (before literal host : List UInt8) (port : Nat)
    (name : List UInt8) (a : Client.Access) : Prop where
  connected : a.socket = true ∧ a.connect = true
  sent : NoError a.sends ∧ (requestText proxy host port name).length ≤ a.sends.length
  brought : Brought proxy files before literal (transfer proxy host port name) (asked proxy name) a.response.stream
  received : NoError a.response.answers ∧ a.response.stream.length ≤ a.response.answers.length

structure Usable (proxy : Bool) (host : List UInt8) (port : Nat) (name : List UInt8) : Prop where
  named : Word host
  listed : Word name
  short : name.length ≤ 9998
  fits : (requestText proxy host port name).length ≤ 19998

theorem transferText (usable : Usable proxy host port name) :
    transfer proxy host port name = requestText proxy host port name := by
  have fits := usable.fits
  cases proxy <;> exact List.take_of_length_le (by simpa [requestText] using fits)

theorem textNoNul (usable : Usable proxy host port name) : 0 ∉ requestText proxy host port name := by
  cases proxy with
  | false =>
    have path := askedPath usable.listed false
    have ends : 0 ∉ host ++ (eol ++ eol) := by
      have line : (0 : UInt8) ∉ eol := by decide
      simp [usable.named.2.2.1,line]
    rw [show requestText false host port name = serverText host name from rfl,serverLine]
    exact lineNoNul path ends
  | true =>
    have wf := ClientRequest.absoluteWellFormed usable.named usable.listed usable.fits
    have noNul := wf.host.noNul
    rw [← ClientRequest.absoluteHeader] at noNul
    exact noNul

theorem broughtFraming (usable : Usable proxy host port name)
    (countable : Countable (answer files before literal (asked proxy name)))
    (brought : Brought proxy files before literal (transfer proxy host port name) (asked proxy name) response) :
    ∃ header, response = header ++ answerBody (answer files before literal (asked proxy name)) ∧
      Framing header (answerBody (answer files before literal (asked proxy name))) := by
  have path := askedPath usable.listed proxy
  have size : (asked proxy name).length ≤ 9999 := by
    have short := usable.short
    unfold asked
    split <;> simp <;> omega
  rw [transferText usable] at brought
  cases proxy with
  | false =>
    have brought : Served files before literal (serverText host name) ((asked false name).length + 6) response :=
      brought
    rw [serverLine] at brought
    exact servedFraming path size countable brought
  | true =>
    have brought : Proxied files before literal (proxyText (http ++ host) port name) (asked true name) response :=
      brought
    rw [ClientRequest.absoluteHeader] at brought
    cases brought with
    | @relayed w i tHeader relay stripped served ran =>
      have fits : (absolute host port name).header.length ≤ 19998 := by
        rw [← ClientRequest.absoluteHeader]
        exact usable.fits
      have wf := ClientRequest.absoluteWellFormed usable.named usable.listed usable.fits
      have value := Rewrite.hostValue wf.host (Rewrite.hostNear wf.host (by omega))
      have same := (Rewrite.strippedFound wf value).symm.trans stripped
      rw [← Option.some.inj (Option.some.inj same),relativeLine] at served
      obtain ⟨header,whole,framing⟩ := servedFraming path size countable served
      have small := framing.fits
      have short := countable.short
      have delimited := @absoluteDelimited host name port usable.named usable.listed
      have code := relayRead relay wf delimited (by omega) ran
      obtain ⟨other,again,sent⟩ := relaysWhole relay wf delimited (by omega) whole framing.delimited (by omega)
        (fun n length => by
          cases framing.length.symm.trans length
          exact Or.inr (Int.le_refl _)) code (framingCode framing (by omega))
      cases ran.symm.trans again
      exact ⟨header,sent.trans whole,framing⟩

theorem accessCounts {a : Client.Access} (usable : Usable proxy host port name)
    (countable : Countable (answer files before literal (asked proxy name)))
    (reached : Reached proxy files before literal host port name a) :
    Client.access (cstring (transfer proxy host port name)) a =
      some (.returns (answerBody (answer files before literal (asked proxy name))).length) := by
  obtain ⟨socket,connect⟩ := reached.connected
  obtain ⟨header,whole,framing⟩ := broughtFraming usable countable reached.brought
  have fits := usable.fits
  rw [transferText usable,cstringExact (textNoNul usable)]
  obtain ⟨u,sent,_⟩ := @sendAllReturns ⟨[],a.sends⟩ (requestText proxy host port name) (by omega) reached.sent.2
  have ok := (@bufferSent ⟨[],a.sends⟩ _ _ reached.sent.1 sent).1
  have enough := reached.received.2
  rw [whole] at enough
  obtain ⟨r,counted,returned,length⟩ := framingRead framing reached.received.1 enough
  have response : a.response = ⟨header ++ answerBody (answer files before literal (asked proxy name)),
      a.response.answers⟩ := by rw [← whole]
  rw [← response] at counted
  simp only [Client.access,socket,connect,sent,counted,bind,Option.bind_some,not_true_eq_false,if_false]
  rw [if_neg (by omega),if_neg (by omega),length]

end

def pageAccess : Client.Access := ⟨true,true,List.replicate 99 (.upTo 9),⟨page,List.replicate 99 (.upTo 7)⟩⟩

theorem pageUsable : Usable true (ascii "h") 80 (ascii "a") :=
  ⟨by unfold Word Response.Plain; decide,by unfold Word Response.Plain; decide,by decide,by decide +kernel⟩

theorem pageText : transfer true (ascii "h") 80 (ascii "a") = (absolute (ascii "h") 80 (ascii "a")).header := by
  rw [transferText pageUsable]
  exact ClientRequest.absoluteHeader _ _ _

theorem pageReached : Reached true (FileService.flat (ascii "a") [104,105]) [] [] (ascii "h") 80 (ascii "a")
    pageAccess := by
  have sent : (serverAnswers (FileService.flat (ascii "a") [104,105]) [] []
      ⟨(absolute (ascii "h") 80 (ascii "a")).relative,[.upTo 99]⟩ ⟨[],List.replicate 99 (.upTo 9)⟩).map Sender.sent =
        some page := by decide +kernel
  have forwarded : (ProxyIteration.handleClient pageRelay).map (fun i => i.client.sent) = some page := by
    decide +kernel
  obtain ⟨c,answered,same⟩ := Option.map_eq_some_iff.mp sent
  obtain ⟨i,ran,whole⟩ := Option.map_eq_some_iff.mp forwarded
  have served : Served (FileService.flat (ascii "a") [104,105]) [] [] (absolute (ascii "h") 80 (ascii "a")).relative
      8 page := by
    rw [← same]
    exact .answered (by decide) rfl (by simp [NoError]) answered
  have stripped : ProxyIteration.stripAbsURL (absolute (ascii "h") 80 (ascii "a")).header =
      some (some (absolute (ascii "h") 80 (ascii "a")).relative) := by decide +kernel
  have proxied : Proxied (FileService.flat (ascii "a") [104,105]) [] [] (absolute (ascii "h") 80 (ascii "a")).header
      (ascii "/a") page := by
    rw [← whole]
    exact .relayed pageRelayed stripped served ran
  refine ⟨⟨rfl,rfl⟩,⟨by simp [NoError,pageAccess],by decide +kernel⟩,?_,by simp [NoError,pageAccess],by decide +kernel⟩
  rw [pageText]
  exact proxied

end IttyBittyServer.EndToEnd
