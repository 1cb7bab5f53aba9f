import IttyBittyServer.BodyLength
import IttyBittyServer.Receive
import IttyBittyServer.Response

/-! The body as the client counts it and as the proxy forwards it. Both have the same
header and the same pieces of the stream behind it. -/
namespace IttyBittyServer.BodyCount
open Sockets Text
open Header (blankLine contentLength getHeaderField getStatusCode bodyLength recvHeader)
open Forward (Rpc Progress Forwarded recvLoop recvAllForward)
open Response (bodyLoop recvAllNoData)

structure Splits (stream header body : List UInt8) : Prop where
  whole : stream = header ++ body
  first : ∀ p, p <+: header → p ≠ header → ¬ blankLine <:+ p
  ends : blankLine <:+ header ∨ body = []

def Endless (header : List UInt8) : Prop :=
  (∃ value, getHeaderField header contentLength = some (some value) ∧ atoi value < 0) ∨
  (getHeaderField header contentLength = some none ∧ getStatusCode header = some 200)

structure Countable (header body : List UInt8) : Prop where
  short : header.length < 2 ^ 31
  blanks : blankLine <:+ header → getHeaderField header contentLength = some none →
    2 ≤ (cstring (header.take 100)).count 32
  ends : blankLine <:+ header → Endless header → body = []

def SameCount (stream : List UInt8) (recvs : List Answer) (client : Sender) (rpc : List UInt8 → Rpc) : Prop :=
  ∃ h r f sent, recvHeader ⟨stream,recvs⟩ = some h ∧ recvAllNoData ⟨stream,recvs⟩ = some r ∧
    recvAllForward h.socket client (h.header.getD []) h.headerLength h.bodyLength false rpc = some f ∧
    f.client.sent = client.sent ++ h.header.getD [] ++ sent ∧ r.bodyLength = sent.length

theorem splitUnique {stream header header' body body' : List UInt8} (s : Splits stream header body)
    (s' : Splits stream header' body') : header = header' ∧ body = body' := by
  have same : ∀ {header header' body body' : List UInt8}, Splits stream header body →
      Splits stream header' body' → header <+: header' → header = header' := by
    intro header header' body body' s s' isPrefix
    by_contra other
    rcases s.ends with ends | empty
    · exact s'.first header isPrefix other ends
    · have size := congrArg List.length (s.whole.symm.trans s'.whole)
      simp [empty] at size
      exact other (isPrefix.eq_of_length (Nat.le_antisymm isPrefix.length_le (by omega)))
  have front : header = header' := by
    rcases List.prefix_or_prefix_of_prefix ⟨body,s.whole.symm⟩ ⟨body',s'.whole.symm⟩ with short | long
    · exact same s s' short
    · exact (same s' s long).symm
  subst front
  exact ⟨rfl,List.append_cancel_left (s.whole.symm.trans s'.whole)⟩

theorem loopsAgree {bLen headerLength retVal bodyLength : Int} {rpc} {chunks : List (List UInt8)} {p : Progress}
    {client : Sender} {stream : List UInt8} {answers : List Answer} {f : Forwarded} (ends : 0 ≤ bLen)
    (same : p.bytesReceived = bodyLength) (accepted : NoError client.answers)
    (h : recvLoop bLen headerLength false rpc p client stream answers = some f) :
    ∃ r, bodyLoop bLen retVal bodyLength chunks stream answers = some r ∧
      r.bodyLength = f.progress.bytesReceived := by
  subst same
  induction answers generalizing p client stream retVal chunks with
  | nil =>
    cases Forward.recvLoopTurn h with
    | enough enough =>
      rw [bodyLoop,if_neg fun more => enough (Or.inl more)]
      exact ⟨_,rfl,rfl⟩
  | cons a rest ih =>
    cases Forward.recvLoopTurn h with
    | enough enough =>
      rw [bodyLoop,if_neg fun more => enough (Or.inl more)]
      exact ⟨_,rfl,rfl⟩
    | failed more brought =>
      rw [bodyLoop,if_pos (more.resolve_right (by omega))]
      simp only [brought]
      exact ⟨_,rfl,rfl⟩
    | closed more brought =>
      rw [bodyLoop,if_pos (more.resolve_right (by omega))]
      simp only [brought]
      exact ⟨_,rfl,rfl⟩
    | unsent _ _ sent failed =>
      obtain ⟨ok,_⟩ := Sockets.bufferSent accepted sent
      omega
    | next more brought sent _ last =>
      obtain ⟨_,_,_,accepted⟩ := Sockets.bufferSent accepted sent
      rw [bodyLoop,if_pos (more.resolve_right (by omega))]
      simp only [brought]
      exact ih accepted last

/- What an int makes of a size from 2^31 on is a size that no buffer has, or leaves 2^32 bytes. -/
theorem intLeaves {left : Int} (huge : 2 ^ 31 ≤ left) (addressable : left < 2 ^ 63)
    (possible : (int left % 2 ^ 64).toNat ≤ left) : (int left % 2 ^ 64).toNat + 2 ^ 32 ≤ left := by
  obtain ⟨low,high,same⟩ := intRange left
  generalize int left = n at low high same possible ⊢
  omega

theorem sendLoopHuge {buf sent : List UInt8} {total : Nat} {answers : List Answer}
    (huge : total + 2 ^ 31 ≤ buf.length) (addressable : buf.length < 2 ^ 63) (accepted : NoError answers) :
    sendLoop buf buf.length total (int (buf.length - total)) sent answers = none := by
  induction answers generalizing total sent with
  | nil =>
    rw [sendLoop.eq_def,if_pos (by omega)]
    dsimp only
    split <;> rfl
  | cons a rest ih =>
    obtain ⟨⟨k,rfl⟩,later⟩ := noErrorCons accepted
    rw [sendLoop.eq_def,if_pos (by omega)]
    dsimp only
    split
    · rfl
    · rename_i possible
      rw [List.length_drop] at possible
      have leaves := @intLeaves (buf.length - total) (by omega) (by omega) (by omega)
      generalize measured : (int ((buf.length : Int) - total) % 2 ^ 64).toNat = size at leaves
      generalize part : ((buf.drop total).take size).take (k + 1) = took
      have bound : took.length ≤ size := by
        rw [← part,List.length_take,List.length_take]
        omega
      have next : int (int ((buf.length : Int) - total) - took.length) =
          int (buf.length - (total + took.length : Nat)) := by
        simp only [int,Int.bmod_sub_bmod]
        congr 1
        omega
      simp only [Answer.bytes,part,next]
      exact ih (by omega) later

section
variable {header body : List UInt8} {client : Sender} {rpc : List UInt8 → Rpc} {n : Int}

theorem forwardHuge {upstream : Receiver} (huge : 2 ^ 31 ≤ header.length) (addressable : header.length < 2 ^ 63)
    (accepted : NoError client.answers) :
    recvAllForward upstream client header header.length n false rpc = none := by
  have never := @sendLoopHuge header client.sent 0 client.answers (by omega) addressable accepted
  simp only [Int.sub_zero,Nat.cast_zero] at never
  rw [recvAllForward,sendAll,never]
  rfl

theorem bodyCounted {answers : List Answer} (received : NoError answers) (accepted : NoError client.answers)
    (answered : body.length < answers.length) (room : header.length + body.length ≤ client.answers.length)
    (addressable : header.length < 2 ^ 63) :
    (∃ r f sent, bodyLoop n header.length 0 [] body answers = some r ∧
      recvAllForward ⟨body,answers⟩ client header header.length n false rpc = some f ∧
      f.client.sent = client.sent ++ header ++ sent ∧ r.bodyLength = sent.length) ↔
    header.length < 2 ^ 31 ∧ (n < 0 → body = []) := by
  have uncounted : n < 0 → bodyLoop n header.length 0 [] body answers =
      some ⟨header.length,0,[],⟨body,answers⟩⟩ := fun endless => by
    cases answers <;> rw [bodyLoop,if_neg (by omega)]
  constructor
  · rintro ⟨r,f,sent,counted,forwarded,order,same⟩
    have short : header.length < 2 ^ 31 := by
      by_contra huge
      rw [forwardHuge (by omega) addressable accepted] at forwarded
      cases forwarded
    refine ⟨short,fun endless => ?_⟩
    obtain ⟨forwarding,_,_,closed,stops,_⟩ := Forward.forwardsAll received accepted forwarded
    have all := forwarding.order
    rw [closed (stops.mpr (by omega)),List.append_nil] at all
    rw [forwarding.sent] at order
    rw [uncounted endless] at counted
    cases Option.some.inj counted
    have none_ : sent = [] := List.length_eq_zero_iff.mp (by dsimp only at same; omega)
    exact all.trans ((List.append_cancel_left order).trans none_)
  · rintro ⟨short,ends⟩
    obtain ⟨f,forwarded⟩ := @Forward.forwardReturns header n rpc ⟨body,answers⟩ client short accepted answered room
    obtain ⟨forwarding,_⟩ := Forward.forwardsAll received accepted forwarded
    have counts : ∃ r, bodyLoop n header.length 0 [] body answers = some r ∧
        r.bodyLength = f.progress.bytesReceived := by
      by_cases endless : n < 0
      · refine ⟨_,uncounted endless,?_⟩
        have none_ : f.progress.chunks.flatten = [] :=
          (List.append_eq_nil_iff.mp (forwarding.order.symm.trans (ends endless))).1
        rw [forwarding.received,none_]
        rfl
      · simp only [recvAllForward,bind,Option.bind_eq_some_iff] at forwarded
        obtain ⟨u,hu,last⟩ := forwarded
        obtain ⟨ok,_,_,accepted⟩ := Sockets.bufferSent accepted hu
        rw [if_neg (by omega)] at last
        exact loopsAgree (by omega) rfl accepted last
    obtain ⟨r,counted,same⟩ := counts
    exact ⟨r,f,f.progress.chunks.flatten,counted,forwarded,forwarding.sent,same.trans forwarding.received⟩

theorem endlessExact (length : bodyLength header = some n) : Endless header ↔ n < 0 := by
  simp only [bodyLength,bind,Option.bind_eq_some_iff] at length
  obtain ⟨field,found,last⟩ := length
  unfold Endless
  rw [found]
  cases field with
  | some value =>
    cases Option.some.inj last
    simp
  | none =>
    obtain ⟨code,read,last⟩ := Option.bind_eq_some_iff.mp last
    rw [read]
    cases Option.some.inj last
    by_cases ok : code = 200 <;> simp [ok]

theorem lengthPossible (measured : Header.Measured header contentLength) : (∃ n, bodyLength header = some n) ↔
    (getHeaderField header contentLength = some none → 2 ≤ (cstring (header.take 100)).count 32) := by
  obtain ⟨field,found⟩ := Header.measuredExact.mpr measured
  rw [← Receive.statusCodePossible,bodyLength,found]
  cases field with
  | some value => simp
  | none => cases getStatusCode header <;> simp

theorem lengthMeasured (short : header.length < 2 ^ 31) : Header.Measured header contentLength :=
  Header.measuredShort short (by decide)

theorem countableExact (ends : blankLine <:+ header) (length : bodyLength header = some n) :
    Countable header body ↔ header.length < 2 ^ 31 ∧ (n < 0 → body = []) := by
  rw [← endlessExact length]
  constructor
  · exact fun ⟨short,_,last⟩ => ⟨short,last ends⟩
  · exact fun ⟨short,last⟩ => ⟨short,fun _ => (lengthPossible (lengthMeasured short)).mp ⟨n,length⟩,fun _ => last⟩

end

section
variable {stream : List UInt8} {recvs : List Answer}

theorem headerRead (received : NoError recvs) (answered : stream.length + 1 < recvs.length)
    (addressable : stream.length < 2 ^ 63 - 1) : ∃ header body answers, Splits stream header body ∧
      NoError answers ∧ body.length < answers.length ∧
      (blankLine <:+ header ∧ recvHeader ⟨stream,recvs⟩ =
          (bodyLength header).map (fun n => ⟨some header,header.length,n,⟨body,answers⟩⟩) ∨
        ¬ blankLine <:+ header ∧ body = [] ∧ recvHeader ⟨stream,recvs⟩ =
          some ⟨Receive.held header,header.length,0,⟨body,answers⟩⟩) := by
  obtain ⟨loop,header,ran,b⟩ := Receive.receiveBounded 0 ⟨stream,recvs⟩
  have noError := @Receive.boundaryNoError ⟨stream,recvs⟩ header loop received b
  obtain ⟨used,split,_,count⟩ := b.used
  have split : recvs = used ++ loop.socket.answers := split
  have order : stream = header ++ loop.socket.stream := b.order
  have notWaiting : loop.ended ≠ .waiting :=
    @Receive.boundaryReturns ⟨stream,recvs⟩ header loop b (by dsimp only; omega)
  have left : NoError loop.socket.answers := noErrorSuffix received ⟨used,split.symm⟩
  have size := congrArg List.length split
  have whole := congrArg List.length order
  simp only [List.length_append,List.length_nil,Nat.zero_add] at size whole count
  refine ⟨header,loop.socket.stream,loop.socket.answers,⟨order,b.first,?_⟩,left,?_,?_⟩
  · cases ended : loop.ended with
    | blankLine => exact Or.inl (b.blankLine.mp ended)
    | closed => exact Or.inr (b.closed ended)
    | error => exact absurd ended noError
    | waiting => exact absurd ended notWaiting
  · split at count <;> omega
  · cases ended : loop.ended with
    | blankLine =>
      have ends := b.blankLine.mp ended
      rw [ended,if_neg (by simp)] at count
      have rest : recvs.drop header.length = loop.socket.answers := by
        rw [split,← Nat.add_zero header.length,← count,List.drop_left]
      have read := @Header.recvHeaderEnds header loop.socket.stream recvs (Header.endsSome ends) ends b.first received
      rw [if_pos (by omega),← order,rest] at read
      exact Or.inl ⟨ends,read⟩
    | closed =>
      have read := @Receive.recvHeaderRefined 0 ⟨stream,recvs⟩ addressable
      rw [Receive.boundaryClosed ran b ended] at read
      refine Or.inr ⟨fun ends => ?_,b.closed ended,read.symm⟩
      rw [b.blankLine.mpr ends] at ended
      cases ended
    | error => exact absurd ended noError
    | waiting => exact absurd ended notWaiting

theorem heldAll (header : List UInt8) : (Receive.held header).getD [] = header := by
  unfold Receive.held
  split
  · rename_i none_
    rw [none_]
    rfl
  · rfl

/-- The client counts what the proxy forwards exactly when the body has an end of its own or none
follows; two more conditions let both get through the header at all. -/
theorem countsExact {client : Sender} {rpc : List UInt8 → Rpc} (received : NoError recvs)
    (accepted : NoError client.answers) (answered : stream.length + 1 < recvs.length)
    (room : stream.length ≤ client.answers.length) (addressable : stream.length < 2 ^ 63 - 1) :
    SameCount stream recvs client rpc ↔ ∀ header body, Splits stream header body → Countable header body := by
  obtain ⟨header,body,answers,splits,received,answered,outcome⟩ := headerRead received answered addressable
  have one : (∀ header body, Splits stream header body → Countable header body) ↔ Countable header body := by
    refine ⟨fun all => all header body splits,fun ok header' body' splits' => ?_⟩
    obtain ⟨rfl,rfl⟩ := splitUnique splits splits'
    exact ok
  have size := congrArg List.length splits.whole
  rw [List.length_append] at size
  have counted := fun n => @bodyCounted header body client rpc n answers received accepted answered (by omega)
    (by omega)
  rw [one]
  unfold SameCount recvAllNoData
  rcases outcome with ⟨ends,read⟩ | ⟨noEnd,rfl,read⟩
  · cases length : bodyLength header with
    | none =>
      rw [read,length]
      refine iff_of_false (by simp) fun ok => ?_
      obtain ⟨n,possible⟩ := (lengthPossible (lengthMeasured ok.short)).mpr (ok.blanks ends)
      cases length.symm.trans possible
    | some n =>
      rw [countableExact ends length,← counted n,read,length]
      simp
  · have cut : Countable header [] ↔ header.length < 2 ^ 31 ∧ ((0 : Int) < 0 → ([] : List UInt8) = []) :=
      ⟨fun ok => ⟨ok.short,fun _ => rfl⟩,
        fun ⟨short,_⟩ => ⟨short,fun ends => absurd ends noEnd,fun ends => absurd ends noEnd⟩⟩
    rw [cut,← counted 0,read]
    simp [heldAll]

end

open BodyLength (okLine)

theorem overlongCounted :
    SameCount (Lines.header [okLine.bytes,ascii "Content-Length: 2"] ++ [7,8,9])
      (List.replicate 60 (.upTo 4)) ⟨[],List.replicate 60 (.upTo 0)⟩ (fun _ => .callFault) := by
  have each : ∀ l ∈ [okLine.bytes,ascii "Content-Length: 2"], Lines.IsLine l := by
    simp only [Lines.IsLine]
    decide
  have size : (Lines.header [okLine.bytes,ascii "Content-Length: 2"]).length = 38 := by decide
  have field : getHeaderField (Lines.header [okLine.bytes,ascii "Content-Length: 2"]) contentLength =
      some (some (ascii "2")) := by decide +kernel
  have known : Splits (Lines.header [okLine.bytes,ascii "Content-Length: 2"] ++ [7,8,9])
      (Lines.header [okLine.bytes,ascii "Content-Length: 2"]) [7,8,9] :=
    ⟨rfl,fun p => Lines.firstBlankLine each,Or.inl Lines.headerEnds⟩
  have count : (Lines.header [okLine.bytes,ascii "Content-Length: 2"] ++ [7,8,9]).length = 41 := by
    rw [List.length_append,size]
    rfl
  refine (countsExact (by simp [NoError]) (by simp [NoError]) (by rw [count]; decide) (by rw [count]; decide)
    (by rw [count]; decide)).mpr fun header body splits => ?_
  obtain ⟨rfl,rfl⟩ := splitUnique known splits
  refine ⟨by rw [size]; decide,fun _ none_ => (by cases field.symm.trans none_),fun _ endless => ?_⟩
  rcases endless with ⟨value,found,negative⟩ | ⟨none_,_⟩
  · cases Option.some.inj (Option.some.inj (field.symm.trans found))
    exact absurd negative (by decide)
  · cases field.symm.trans none_

theorem openBodyUncounted : ¬ SameCount (Lines.header [okLine.bytes] ++ [7,8])
    (List.replicate 40 (.upTo 0)) ⟨[],List.replicate 40 (.upTo 0)⟩ (fun _ => .callFault) := by
  have read : recvHeader ⟨Lines.header [okLine.bytes] ++ [7,8],List.replicate 40 (.upTo 0)⟩ =
      some ⟨Lines.header [okLine.bytes],19,-1,⟨[7,8],List.replicate 21 (.upTo 0)⟩⟩ := by decide +kernel
  have counted : recvAllNoData ⟨Lines.header [okLine.bytes] ++ [7,8],List.replicate 40 (.upTo 0)⟩ =
      some ⟨19,0,[],⟨[7,8],List.replicate 21 (.upTo 0)⟩⟩ := by decide +kernel
  have forwarded : (recvAllForward ⟨[7,8],List.replicate 21 (.upTo 0)⟩ ⟨[],List.replicate 40 (.upTo 0)⟩
      (Lines.header [okLine.bytes]) 19 (-1) false (fun _ => .callFault)).map (·.client.sent) =
      some (Lines.header [okLine.bytes] ++ [7,8]) := by decide +kernel
  rintro ⟨h,r,f,sent,h',r',f',order,same⟩
  cases Option.some.inj (read.symm.trans h')
  cases Option.some.inj (counted.symm.trans r')
  dsimp only [Option.getD_some] at f' order
  rw [f',Option.map_some,order,List.nil_append] at forwarded
  rw [List.append_cancel_left (Option.some.inj forwarded)] at same
  simp at same

end IttyBittyServer.BodyCount
