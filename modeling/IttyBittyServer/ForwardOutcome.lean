import IttyBittyServer.Forward

/-! What recvAll_Forward sends and whether it fails, from what its two peers and the
compression server do. -/
namespace IttyBittyServer.ForwardOutcome
open Sockets ImageBuffer Forward

structure Reads where
  chunks : List (List UInt8)
  closed : Bool
  failed : Bool
  deriving DecidableEq, Repr

def reads (bodyLength received : Int) (stream : List UInt8) (answers : List Answer) : Reads :=
  if received < bodyLength ∨ bodyLength < 0 then
    match answers with
    | [] => ⟨[],false,false⟩
    | a::rest => match a.bytes (stream.take 19999) with
      | none => ⟨[],false,true⟩
      | some [] => ⟨[],true,false⟩
      | some chunk =>
        let r := reads bodyLength (received + chunk.length) (stream.drop chunk.length) rest
        {r with chunks := chunk::r.chunks}
  else ⟨[],false,false⟩

def sendEach (socket : Sender) : List (List UInt8) → Option Sent
  | [] => some ⟨0,0,socket⟩
  | buf::rest => do
    let r ← sendAll socket buf buf.length
    if r.returned < 0 then some r else sendEach r.socket rest

structure Plan where
  payload : List (List UInt8)
  broken : Bool
  deriving DecidableEq, Repr

/- The client is to get the header and the chunks. With compression nothing is gathered before
the call: it gets what becomes of an image without bytes, once the server has closed. -/
def plan (header : List UInt8) (bodyLength : Int) (compression : Bool) (rpc : List UInt8 → Rpc)
    (upstream : Receiver) : Plan :=
  let r := reads bodyLength 0 upstream.stream upstream.answers
  if compression then
    if r.failed then ⟨[header],true⟩
    else if r.closed then
      match rpc [] with
      | .image compImgBuffer => ⟨[header,compImgBuffer],false⟩
      | .callFault | .decomposeFault => ⟨[header],true⟩
    else ⟨[header],false⟩
  else ⟨header::r.chunks,r.failed⟩

def Unset (header : List UInt8) (bodyLength : Int) (compression : Bool) (rpc : List UInt8 → Rpc)
    (upstream : Receiver) (client : Sender) : Prop :=
  let r := reads bodyLength 0 upstream.stream upstream.answers
  compression = true ∧ ∃ u, sendAll client header header.length = some u ∧ ¬ u.returned < 0 ∧
    (r.chunks ≠ [] ∨ r.closed = true ∧ ∀ compImgBuffer, rpc [] = .image compImgBuffer →
      ∃ s, sendAll u.socket compImgBuffer compImgBuffer.length = some s ∧ s.returned < 0)

theorem delivers {socket : Sender} {buf : List UInt8} {r : Sent}
    (h : sendAll socket buf buf.length = some r) : r.len = buf.length ∧ (r.returned = 0 ∨ r.returned = -1) := by
  obtain ⟨len,_,ok | failed⟩ := sendAllDelivered h
  · exact ⟨len,Or.inl ok.1⟩
  · exact ⟨len,Or.inr failed.1⟩

theorem sendEachCons {socket : Sender} {buf : List UInt8} {rest : List (List UInt8)} {r : Sent}
    (h : sendAll socket buf buf.length = some r) :
    sendEach socket (buf::rest) = if r.returned < 0 then some r else sendEach r.socket rest := by
  rw [sendEach,h]; rfl

theorem sendAllGrows {socket : Sender} {buf : List UInt8} {r : Sent}
    (h : sendAll socket buf buf.length = some r) : socket.sent <+: r.socket.sent := by
  obtain ⟨_,_,⟨_,sent⟩ | ⟨_,_,_,_,_,sent⟩⟩ := sendAllDelivered h <;> exact ⟨_,sent.symm⟩

theorem sendEachGrows {socket : Sender} {bufs : List (List UInt8)} {r : Sent}
    (h : sendEach socket bufs = some r) : socket.sent <+: r.socket.sent := by
  induction bufs generalizing socket with
  | nil => cases Option.some.inj h; exact List.prefix_refl _
  | cons buf rest ih =>
    simp only [sendEach,bind,Option.bind_eq_some_iff] at h
    obtain ⟨u,hu,last⟩ := h
    split at last
    · cases Option.some.inj last; exact sendAllGrows hu
    · exact (sendAllGrows hu).trans (ih last)

theorem sendEachFailed {socket : Sender} {bufs : List (List UInt8)} {r : Sent}
    (h : sendEach socket bufs = some r) (failed : r.returned < 0) :
    ∃ used, socket.answers = used ++ .error::r.socket.answers := by
  induction bufs generalizing socket with
  | nil =>
    cases Option.some.inj h
    cases failed
  | cons buf rest ih =>
    simp only [sendEach,bind,Option.bind_eq_some_iff] at h
    obtain ⟨u,hu,last⟩ := h
    split at last
    · cases Option.some.inj last
      exact sendAllFailed hu failed
    · obtain ⟨later,whole⟩ := ih last
      obtain ⟨first,split⟩ := (sendAllDelivered hu).used
      exact ⟨first ++ later,by rw [← split,whole,List.append_assoc]⟩

theorem plainOutcome {bodyLength headerLength : Int} {rpc} {p : Progress} {client : Sender}
    {stream : List UInt8} {answers : List Answer} {r : Forwarded}
    (h : recvLoop bodyLength headerLength false rpc p client stream answers = some r) :
    r.defined = true ∧
    ∃ s, sendEach client (reads bodyLength p.bytesReceived stream answers).chunks = some s ∧
      r.client = s.socket ∧ (r.returned < 0 ↔ s.returned < 0 ∨
        (reads bodyLength p.bytesReceived stream answers).failed = true ∨
        int (headerLength + p.bytesSent +
          (reads bodyLength p.bytesReceived stream answers).chunks.flatten.length) < 0) := by
  induction answers generalizing p client stream with
  | nil =>
    cases recvLoopTurn h with
    | enough enough =>
      rw [reads,if_neg enough]
      exact ⟨rfl,_,rfl,rfl,by simp⟩
  | cons a rest ih =>
    cases recvLoopTurn h with
    | enough enough =>
      rw [reads,if_neg enough]
      exact ⟨rfl,_,rfl,rfl,by simp⟩
    | failed more brought =>
      rw [reads,if_pos more]
      simp only [brought]
      exact ⟨trivial,_,rfl,rfl,by simp⟩
    | closed more brought =>
      rw [reads,if_pos more]
      simp only [brought]
      exact ⟨trivial,_,rfl,rfl,by simp [Int.add_comm]⟩
    | @unsent _ _ _ _ u more brought sent failed =>
      rw [reads,if_pos more]
      simp only [brought]
      exact ⟨trivial,u,by rw [sendEachCons sent,if_pos failed],rfl,by simp [failed]⟩
    | next more brought sent ok last =>
      rw [reads,if_pos more]
      simp only [brought]
      obtain ⟨len,_⟩ := delivers sent
      obtain ⟨defined,s,all,socket,returned⟩ := ih last
      refine ⟨defined,s,?_,socket,?_⟩
      · rw [sendEachCons sent,if_neg ok]
        exact all
      · rw [returned,len]
        simp only [List.flatten_cons,List.length_append]
        push_cast
        simp only [Int.add_assoc]

inductive Gathering (bodyLength headerLength : Int) (rpc : List UInt8 → Rpc) (client : Sender)
    (reads : Reads) (r : Forwarded) : Prop where
  | enough (none_ : reads = ⟨[],false,false⟩) (defined : r.defined = true) (socket : r.client = client)
      (returned : r.returned = int headerLength)
  | failed (none_ : reads = ⟨[],false,true⟩) (defined : r.defined = true) (socket : r.client = client)
      (returned : r.returned < 0)
  | closed (none_ : reads = ⟨[],true,false⟩) (c : Compressed)
      (called : sendCompressed true client rpc .indeterminate 0 = some c) (defined : r.defined = c.defined)
      (socket : r.client = c.sent.socket)
      (returned : r.returned < 0 ↔ c.sent.returned < 0 ∨ int (headerLength + c.sent.len) < 0)
  | chunk (some_ : reads.chunks ≠ []) (undefined : r.defined = false)

theorem gathering {bodyLength headerLength : Int} {rpc} {client : Sender} {stream : List UInt8}
    {answers : List Answer} {r : Forwarded}
    (h : recvLoop bodyLength headerLength true rpc Forward.initial client stream answers = some r) :
    Gathering bodyLength headerLength rpc client (reads bodyLength 0 stream answers) r := by
  rw [recvLoop.eq_def] at h
  rw [reads.eq_def]
  by_cases more : 0 < bodyLength ∨ bodyLength < 0
  · rw [if_pos (show Forward.initial.bytesReceived < bodyLength ∨ bodyLength < 0 from more)] at h
    rw [if_pos more]
    cases answers with
    | nil => cases h
    | cons a rest =>
      dsimp only at h ⊢
      cases brought : a.bytes (stream.take 19999) with
      | none =>
        rw [brought] at h
        cases Option.some.inj h
        exact .failed rfl rfl rfl (Int.negSucc_lt_zero 0)
      | some chunk =>
        rw [brought] at h
        cases chunk with
        | nil =>
          simp only [if_true,bind,Option.bind_eq_some_iff] at h
          obtain ⟨c,called,last⟩ := h
          split at last
          · rename_i negative
            cases Option.some.inj last
            exact .closed rfl c called rfl rfl (iff_of_true (Int.negSucc_lt_zero 0) (.inl negative))
          · rename_i ok
            cases Option.some.inj last
            exact .closed rfl c called rfl rfl (by rw [or_iff_right ok,Int.add_comm])
        | cons b chunk =>
          simp only [if_true,Forward.initial,bufferedIndeterminate] at h
          cases Option.some.inj h
          exact .chunk (List.cons_ne_nil _ _) rfl
  · rw [if_neg (show ¬ (Forward.initial.bytesReceived < bodyLength ∨ bodyLength < 0) from more),
      if_neg (by simp [Forward.initial])] at h
    rw [if_neg more]
    cases Option.some.inj h
    exact .enough rfl rfl rfl (by simp [Forward.initial])

section
variable {header : List UInt8} {bodyLength : Int} {compression : Bool} {rpc : List UInt8 → Rpc}
  {upstream : Receiver} {client : Sender} {r : Forwarded}

theorem suddenCall {c : Compressed} (called : sendCompressed true client rpc .indeterminate 0 = some c) :
    (∃ i, rpc [] = .image i ∧ sendAll client i i.length = some c.sent ∧ c.defined = decide (0 ≤ c.sent.returned)) ∨
      (∀ i, rpc [] ≠ .image i) ∧ c.defined = false := by
  have empty : passed .indeterminate 0 = some [] := rfl
  rw [sendCompressed,empty] at called
  dsimp only at called
  cases answer : rpc [] with
  | callFault | decomposeFault =>
    rw [answer] at called
    cases Option.some.inj called
    exact .inr ⟨fun i => by simp,rfl⟩
  | image i =>
    rw [answer] at called
    obtain ⟨s,sent,last⟩ := Option.bind_eq_some_iff.mp called
    cases Option.some.inj last
    exact .inl ⟨i,rfl,sent,by simp [freed]⟩

theorem forwardUnset
    (h : recvAllForward upstream client header header.length bodyLength compression rpc = some r) :
    r.defined = false ↔ Unset header bodyLength compression rpc upstream client := by
  simp only [recvAllForward,bind,Option.bind_eq_some_iff] at h
  obtain ⟨u,hu,last⟩ := h
  split at last
  · rename_i failed
    cases Option.some.inj last
    refine iff_of_false (by simp) fun unset => ?_
    obtain ⟨_,u',hu',ok,_⟩ := unset
    cases Option.some.inj (hu.symm.trans hu')
    exact ok failed
  · rename_i ok
    have mine : Unset header bodyLength compression rpc upstream client ↔ compression = true ∧
        ((reads bodyLength 0 upstream.stream upstream.answers).chunks ≠ [] ∨
          (reads bodyLength 0 upstream.stream upstream.answers).closed = true ∧
            ∀ i, rpc [] = .image i → ∃ s, sendAll u.socket i i.length = some s ∧ s.returned < 0) := by
      refine and_congr_right fun _ => ⟨fun sent => ?_,fun rest => ⟨u,hu,ok,rest⟩⟩
      obtain ⟨u',hu',_,rest⟩ := sent
      cases Option.some.inj (hu.symm.trans hu')
      exact rest
    rw [mine]
    cases compression with
    | false => exact iff_of_false (by simp [(plainOutcome last).1]) (by simp)
    | true =>
      rw [(delivers hu).1] at last
      cases gathering last with
      | enough none_ defined | failed none_ defined => simp [none_,defined]
      | chunk some_ undefined => simp [some_,undefined]
      | closed none_ c called defined =>
        rw [defined,none_]
        rcases suddenCall called with ⟨i,answer,sent,fine⟩ | ⟨faults,undefined⟩
        · rw [fine]
          simp only [answer,Rpc.image.injEq,forall_eq',sent,Option.some.injEq,exists_eq_left']
          simp
        · simp [undefined,faults]

theorem forwardOutcome (defined : r.defined = true)
    (h : recvAllForward upstream client header header.length bodyLength compression rpc = some r) :
    ∃ s, sendEach client (plan header bodyLength compression rpc upstream).payload = some s ∧
      r.client = s.socket ∧ (r.returned < 0 ↔ s.returned < 0 ∨
        (plan header bodyLength compression rpc upstream).broken = true ∨
        int (plan header bodyLength compression rpc upstream).payload.flatten.length < 0) := by
  simp only [recvAllForward,bind,Option.bind_eq_some_iff] at h
  obtain ⟨u,hu,last⟩ := h
  obtain ⟨len,_⟩ := delivers hu
  split at last
  · rename_i failed
    cases Option.some.inj last
    have stops : ∀ rest, sendEach client (header::rest) = some u := fun rest => by
      rw [sendEachCons hu,if_pos failed]
    refine ⟨u,?_,rfl,by simp [failed]⟩
    unfold plan
    dsimp only
    split
    · split
      · exact stops _
      · split
        · split <;> exact stops _
        · exact stops _
    · exact stops _
  · rename_i ok
    rw [len] at last
    have goes : ∀ rest, sendEach client (header::rest) = sendEach u.socket rest := fun rest => by
      rw [sendEachCons hu,if_neg ok]
    cases compression with
    | false =>
      obtain ⟨_,s,sent,socket,returned⟩ := plainOutcome last
      refine ⟨s,by simpa [plan,goes,Forward.initial] using sent,socket,?_⟩
      rw [returned]
      simp [plan,Forward.initial]
    | true =>
      cases gathering last with
      | enough none_ _ socket returned =>
        exact ⟨⟨0,0,u.socket⟩,by simp [plan,none_,goes,sendEach],socket,by simp [returned,plan,none_]⟩
      | failed none_ _ socket returned =>
        exact ⟨⟨0,0,u.socket⟩,by simp [plan,none_,goes,sendEach],socket,by simp [returned,plan,none_]⟩
      | chunk _ undefined => cases defined.symm.trans undefined
      | closed none_ c called same socket returned =>
        rcases suddenCall called with ⟨i,answer,sent,fine⟩ | ⟨_,undefined⟩
        · have taken : 0 ≤ c.sent.returned := of_decide_eq_true (fine.symm.trans (same.symm.trans defined))
          have both : sendEach client [header,i] = some ⟨0,0,c.sent.socket⟩ := by
            rw [goes,sendEachCons sent,if_neg (by omega)]
            rfl
          refine ⟨⟨0,0,c.sent.socket⟩,by simp [plan,none_,answer,both],socket,?_⟩
          rw [returned,(delivers sent).1]
          simp [plan,none_,answer]
          omega
        · cases defined.symm.trans (same.trans undefined)

end

end IttyBittyServer.ForwardOutcome
