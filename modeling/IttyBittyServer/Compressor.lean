import IttyBittyServer.ForwardOutcome

/-! recvAll_Forward with compression: what its pointer to the image holds, what the compress
call gets and what the client gets, over every sequence of recv results. -/
namespace IttyBittyServer.Compressor
open Sockets ImageBuffer
open Forward (Rpc)

inductive Exit where
  | closed | enough
  deriving DecidableEq, Repr

/- `exit` is how the loop was left for the RPC, and `received` are all bytes of the body.
Nothing is returned by a call that is never answered. -/
structure Outcome where
  defined : Bool
  exit : Option Exit
  received : List UInt8
  calls : List (List UInt8)
  client : Sender
  returned : Option Int
  deriving DecidableEq, Repr

def sendImage (exit : Exit) (headerLength : Int) (rpc : List UInt8 → Rpc) (client : Sender)
    (received imgBuffer : List UInt8) : Outcome :=
  match rpc imgBuffer with
  | .callFault | .decomposeFault => ⟨true,some exit,received,[imgBuffer],client,some (-1)⟩
  | .image compImgBuffer => match sendAll client compImgBuffer compImgBuffer.length with
    | none => ⟨true,some exit,received,[imgBuffer],client,none⟩
    | some r => ⟨true,some exit,received,[imgBuffer],r.socket,
        some (if r.returned < 0 then -1 else int (headerLength + r.len))⟩

def compress (exit : Exit) (headerLength : Int) (rpc : List UInt8 → Rpc) (client : Sender)
    (received : List UInt8) (imgBuffer : Pointer) (bytesReceived : Int) : Outcome :=
  match passed imgBuffer bytesReceived with
  | none => ⟨false,some exit,received,[],client,none⟩
  | some image => sendImage exit headerLength rpc client received image

def recvLoop (bodyLength headerLength : Int) (rpc : List UInt8 → Rpc) (client : Sender) (received : List UInt8)
    (bytesReceived bytesSent : Int) (imgBuffer : Pointer) : List (Option (List UInt8)) → Outcome
  | [] =>
    if bytesReceived < bodyLength ∨ bodyLength < 0 then ⟨true,none,received,[],client,none⟩
    else if 0 < bytesReceived then compress .enough headerLength rpc client received imgBuffer bytesReceived
    else ⟨true,some .enough,received,[],client,some (int (headerLength + bytesSent))⟩
  | result::results =>
    if bytesReceived < bodyLength ∨ bodyLength < 0 then
      match result with
      | none => ⟨true,none,received,[],client,some (-1)⟩
      | some [] => compress .closed headerLength rpc client received imgBuffer bytesReceived
      | some (b::chunk) =>
        let inputBuffer := b::chunk
        let bytes := inputBuffer.length
        match buffered imgBuffer (bytesReceived + bytes) inputBuffer with
        | none => ⟨false,none,received ++ inputBuffer,[],client,none⟩
        | some image => recvLoop bodyLength headerLength rpc client (received ++ inputBuffer)
            (bytesReceived + bytes) (bytesSent + bytes) (.object image) results
    else if 0 < bytesReceived then compress .enough headerLength rpc client received imgBuffer bytesReceived
    else ⟨true,some .enough,received,[],client,some (int (headerLength + bytesSent))⟩

def recvAllForward (client : Sender) (header : List UInt8) (headerLength bodyLength : Int)
    (rpc : List UInt8 → Rpc) (results : List (Option (List UInt8))) : Outcome :=
  match sendAll client header headerLength with
  | none => ⟨true,none,[],[],client,none⟩
  | some r =>
    if r.returned < 0 then ⟨true,none,[],[],r.socket,some (-1)⟩
    else recvLoop bodyLength r.len rpc r.socket [] 0 0 .indeterminate results

def brought (stream : List UInt8) : List Sockets.Answer → List (Option (List UInt8))
  | [] => []
  | a::rest =>
    let result := a.bytes (stream.take 19999)
    result::brought (stream.drop (result.getD []).length) rest

def outcomeOf (exit : Exit) (headerLength : Int) (rpc : List UInt8 → Rpc) (client : Sender)
    (received : List UInt8) : Outcome :=
  if received = [] then ⟨true,some exit,[],[],client,some (int headerLength)⟩
  else sendImage exit headerLength rpc client received received

/-- No pointer without a value is used, the call gets all bytes once, and the bytes alone
decide what the client gets. -/
structure Compresses (headerLength : Int) (rpc : List UInt8 → Rpc) (client : Sender) (o : Outcome) : Prop where
  initialised : o.defined = true
  once : o.calls.length ≤ 1
  whole : ∀ image ∈ o.calls, o.received ≠ [] ∧ image = o.received
  alike : ∀ exit ∈ o.exit, o = outcomeOf exit headerLength rpc client o.received

section
variable {headerLength bodyLength : Int} {rpc : List UInt8 → Rpc} {client : Sender} {received : List UInt8}
  {results : List (Option (List UInt8))}

theorem sendImageCalls (exit : Exit) (headerLength : Int) (rpc : List UInt8 → Rpc) (client : Sender)
    (received image : List UInt8) : ∃ client' returned, sendImage exit headerLength rpc client received image =
      ⟨true,some exit,received,[image],client',returned⟩ := by
  unfold sendImage
  split
  · exact ⟨_,_,rfl⟩
  · exact ⟨_,_,rfl⟩
  · split
    · exact ⟨_,_,rfl⟩
    · exact ⟨_,_,rfl⟩

theorem outcomeCompresses (exit : Exit) :
    Compresses headerLength rpc client (outcomeOf exit headerLength rpc client received) := by
  by_cases empty : received = []
  · subst empty
    refine ⟨rfl,by simp [outcomeOf],fun image mem => by simp [outcomeOf] at mem,fun exit' here => ?_⟩
    cases here
    rfl
  · obtain ⟨client',returned,calls⟩ := sendImageCalls exit headerLength rpc client received received
    have same : outcomeOf exit headerLength rpc client received =
        ⟨true,some exit,received,[received],client',returned⟩ := by rw [outcomeOf,if_neg empty,calls]
    rw [same]
    refine ⟨rfl,Nat.le_refl _,fun image mem => ?_,fun exit' here => ?_⟩
    · cases List.mem_singleton.mp mem
      exact ⟨empty,rfl⟩
    · cases here
      exact same.symm

theorem waitingCompresses (returned : Option Int) :
    Compresses headerLength rpc client ⟨true,none,received,[],client,returned⟩ :=
  ⟨rfl,Nat.zero_le _,(fun _ mem => by cases mem),(fun _ here => by cases here)⟩

theorem earlyClose {p : Pointer} (empty : passed p 0 = some []) :
    ¬ Compresses headerLength rpc client (compress .closed headerLength rpc client [] p 0) := by
  obtain ⟨client',returned,calls⟩ := sendImageCalls .closed headerLength rpc client [] []
  rw [compress,empty]
  dsimp only
  rw [calls]
  intro compresses
  exact (compresses.whole [] List.mem_cons_self).1 rfl

theorem nothingAsked (p : Pointer) : Compresses headerLength rpc client
    (recvLoop 0 headerLength rpc client [] 0 0 p results) := by
  have ends : recvLoop 0 headerLength rpc client [] 0 0 p results =
      outcomeOf .enough headerLength rpc client [] := by
    cases results <;> simp [recvLoop,outcomeOf]
  rw [ends]
  exact outcomeCompresses .enough

theorem firstRecv {p : Pointer} (asks : bodyLength ≠ 0) (result : Option (List UInt8)) :
    recvLoop bodyLength headerLength rpc client [] 0 0 p (result::results) = match result with
      | none => ⟨true,none,[],[],client,some (-1)⟩
      | some [] => compress .closed headerLength rpc client [] p 0
      | some (b::chunk) =>
        match buffered p (0 + (b::chunk).length) (b::chunk) with
        | none => ⟨false,none,[] ++ b::chunk,[],client,none⟩
        | some image => recvLoop bodyLength headerLength rpc client ([] ++ b::chunk)
            (0 + (b::chunk).length) (0 + (b::chunk).length) (.object image) results := by
  rw [recvLoop.eq_def]
  dsimp only
  rw [if_pos (by omega)]

theorem unansweredFirst (p : Pointer) (asks : bodyLength ≠ 0) :
    Compresses headerLength rpc client (recvLoop bodyLength headerLength rpc client [] 0 0 p []) := by
  rw [recvLoop,if_pos (by omega)]
  exact waitingCompresses none

theorem indeterminateExact : Compresses headerLength rpc client
    (recvLoop bodyLength headerLength rpc client [] 0 0 .indeterminate results) ↔
      bodyLength = 0 ∨ ∀ result ∈ results.head?, result = none := by
  by_cases none_ : bodyLength = 0
  · subst none_
    exact iff_of_true (nothingAsked .indeterminate) (.inl rfl)
  · rcases results with _ | ⟨_ | _ | ⟨b,chunk⟩,results⟩
    · exact iff_of_true (unansweredFirst .indeterminate none_) (.inr (by simp))
    · rw [firstRecv none_]
      exact iff_of_true (waitingCompresses (some (-1))) (.inr (by simp))
    · rw [firstRecv none_]
      exact iff_of_false (earlyClose rfl) (by simp [none_])
    · rw [firstRecv none_]
      refine iff_of_false (fun compresses => ?_) (by simp [none_])
      cases compresses.initialised

theorem loopSame {stream : List UInt8} {answers : List Sockets.Answer} {r : Forward.Forwarded}
    (defined : r.defined = true)
    (h : Forward.recvLoop bodyLength headerLength true rpc Forward.initial client stream answers = some r) :
    ∃ o, recvLoop bodyLength headerLength rpc client [] 0 0 .indeterminate (brought stream answers) = o ∧
      o.defined = true ∧ o.client = r.client ∧ o.returned = some r.returned := by
  rw [Forward.recvLoop.eq_def] at h
  by_cases none_ : bodyLength = 0
  · subst none_
    cases Option.some.inj h
    refine ⟨_,rfl,?_⟩
    cases brought stream answers <;> exact ⟨rfl,rfl,rfl⟩
  · have more : Forward.initial.bytesReceived < bodyLength ∨ bodyLength < 0 := by
      change 0 < bodyLength ∨ bodyLength < 0
      omega
    rw [if_pos more] at h
    cases answers with
    | nil => cases h
    | cons a rest =>
      refine ⟨_,rfl,?_⟩
      rw [brought,firstRecv none_]
      dsimp only at h ⊢
      cases result : a.bytes (stream.take 19999) with
      | none =>
        rw [result] at h
        cases Option.some.inj h
        exact ⟨rfl,rfl,rfl⟩
      | some chunk =>
        rw [result] at h
        cases chunk with
        | nil =>
          obtain ⟨c,called,last⟩ := Option.bind_eq_some_iff.mp h
          have taken : c.defined = true ∧ r.client = c.sent.socket ∧
              some r.returned = some (if c.sent.returned < 0 then -1 else int (headerLength + c.sent.len)) := by
            split at last
            · cases Option.some.inj last
              exact ⟨defined,rfl,by rw [if_pos (by assumption)]⟩
            · cases Option.some.inj last
              exact ⟨defined,rfl,by rw [if_neg (by assumption),Int.add_comm]⟩
          obtain ⟨fine,socket,returned⟩ := taken
          rcases ForwardOutcome.suddenCall called with ⟨i,answer,sent,_⟩ | ⟨_,undefined⟩
          · have empty : passed .indeterminate 0 = some [] := rfl
            simp only [compress,empty,sendImage,answer,sent]
            exact ⟨trivial,socket.symm,returned.symm⟩
          · cases fine.symm.trans undefined
        | cons b chunk =>
          cases Option.some.inj h
          cases defined

theorem forwardSame {upstream : Receiver} {header : List UInt8} {r : Forward.Forwarded} (defined : r.defined = true)
    (h : Forward.recvAllForward upstream client header headerLength bodyLength true rpc = some r) :
    ∃ o, recvAllForward client header headerLength bodyLength rpc (brought upstream.stream upstream.answers) = o ∧
      o.defined = true ∧ o.client = r.client ∧ o.returned = some r.returned := by
  obtain ⟨u,sent,last⟩ := Option.bind_eq_some_iff.mp h
  rw [recvAllForward,sent]
  dsimp only
  split at last
  · rename_i failed
    cases Option.some.inj last
    rw [if_pos failed]
    exact ⟨_,rfl,rfl,rfl,rfl⟩
  · rename_i ok
    rw [if_neg ok]
    exact loopSame defined last

def afterHeader (client : Sender) (header : List UInt8) (headerLength : Int) : Int × Sender :=
  match sendAll client header headerLength with
  | none => (headerLength,client)
  | some r => (r.len,r.socket)

def HeaderUnsent (client : Sender) (header : List UInt8) (headerLength : Int) : Prop :=
  ∀ r ∈ sendAll client header headerLength, r.returned < 0

/-- The buffer's pointer has no value, so every body byte and every close before one breaks
what the function is for. -/
theorem compressesExact (client : Sender) (header : List UInt8) (headerLength bodyLength : Int)
    (rpc : List UInt8 → Rpc) (results : List (Option (List UInt8))) :
    Compresses (afterHeader client header headerLength).1 rpc (afterHeader client header headerLength).2
      (recvAllForward client header headerLength bodyLength rpc results) ↔
        HeaderUnsent client header headerLength ∨ bodyLength = 0 ∨ ∀ result ∈ results.head?, result = none := by
  unfold afterHeader HeaderUnsent recvAllForward
  cases sent : sendAll client header headerLength with
  | none => exact iff_of_true (waitingCompresses none) (.inl fun r here => by cases here)
  | some r =>
    by_cases failed : r.returned < 0
    · dsimp only
      rw [if_pos failed]
      exact iff_of_true (waitingCompresses (some (-1))) (.inl fun r' here => by cases here; exact failed)
    · dsimp only
      rw [if_neg failed]
      refine indeterminateExact.trans ⟨.inr,fun h => h.resolve_left fun unsent => failed (unsent r rfl)⟩

theorem firstByteUndefined : ¬ ∀ (client : Sender) (header : List UInt8) (headerLength bodyLength : Int)
    (rpc : List UInt8 → Rpc) (results : List (Option (List UInt8))),
    Compresses (afterHeader client header headerLength).1 rpc (afterHeader client header headerLength).2
      (recvAllForward client header headerLength bodyLength rpc results) := by
  intro compresses
  have initialised := (compresses ⟨[],[.upTo 0]⟩ [72] 1 1 (fun image => .image image) [some [7],some []]).initialised
  exact absurd initialised (by decide +kernel)

end

end IttyBittyServer.Compressor
