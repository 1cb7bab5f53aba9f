import IttyBittyServer.ImageBuffer
import IttyBittyServer.Sockets

/-! recvAll_Forward: the proxy sends the header on and then each piece of the body as
it arrives, or with compression all of it at the end. -/
namespace IttyBittyServer.Forward
open Sockets ImageBuffer

inductive Rpc where
  | callFault | decomposeFault | image (compImgBuffer : List UInt8)
  deriving DecidableEq, Repr

structure Progress where
  bytesReceived : Int
  bytesSent : Int
  imgBuffer : Pointer
  chunks : List (List UInt8)
  deriving DecidableEq, Repr

/- Where a pointer without a value is used, `defined` is false and the rest says how far the
call had come. -/
structure Forwarded where
  returned : Int
  headerLength : Int
  progress : Progress
  closed : Bool
  upstream : Receiver
  client : Sender
  defined : Bool
  deriving DecidableEq, Repr

structure Compressed where
  sent : Sent
  defined : Bool
  deriving DecidableEq, Repr

/- The call that follows a close is `sudden`: on a fault it frees both images, and the one that
the call was to bring has no value yet. A failed send frees the gathered image in any case. -/
def sendCompressed (sudden : Bool) (client : Sender) (rpc : List UInt8 → Rpc) (imgBuffer : Pointer)
    (bytesReceived : Int) : Option Compressed :=
  match passed imgBuffer bytesReceived with
  | none => some ⟨⟨-1,0,client⟩,false⟩
  | some image => match rpc image with
    | .callFault | .decomposeFault => some ⟨⟨-1,0,client⟩,!sudden && freed imgBuffer⟩
    | .image compImgBuffer => do
      let r ← sendAll client compImgBuffer compImgBuffer.length
      some ⟨r,0 ≤ r.returned || freed imgBuffer⟩

def recvLoop (bodyLength headerLength : Int) (compression : Bool) (rpc : List UInt8 → Rpc)
    (p : Progress) (client : Sender) (stream : List UInt8) (answers : List Answer) : Option Forwarded :=
  if p.bytesReceived < bodyLength ∨ bodyLength < 0 then
    match answers with
    | [] => none
    | a::rest => match a.bytes (stream.take 19999) with
      | none => some ⟨-1,headerLength,p,false,⟨stream,rest⟩,client,true⟩
      | some [] =>
        if compression then do
          let ⟨r,defined⟩ ← sendCompressed true client rpc p.imgBuffer p.bytesReceived
          if r.returned < 0 then some ⟨-1,headerLength,p,true,⟨stream,rest⟩,r.socket,defined⟩
          else some ⟨int (r.len + headerLength),headerLength,{p with bytesSent := r.len},true,
            ⟨stream,rest⟩,r.socket,defined⟩
        else some ⟨int (p.bytesSent + headerLength),headerLength,p,true,⟨stream,rest⟩,client,true⟩
      | some inputBuffer =>
        let bytes := inputBuffer.length
        let p := {p with bytesReceived := p.bytesReceived + bytes, chunks := p.chunks ++ [inputBuffer]}
        if compression then
          match buffered p.imgBuffer p.bytesReceived inputBuffer with
          | none => some ⟨-1,headerLength,p,false,⟨stream.drop bytes,rest⟩,client,false⟩
          | some image =>
            let p := {p with imgBuffer := .object image, bytesSent := p.bytesSent + bytes}
            recvLoop bodyLength headerLength compression rpc p client (stream.drop bytes) rest
        else do
          let r ← sendAll client inputBuffer bytes
          if r.returned < 0 then some ⟨-1,headerLength,p,false,⟨stream.drop bytes,rest⟩,r.socket,true⟩
          else
            let p := {p with bytesSent := p.bytesSent + r.len}
            recvLoop bodyLength headerLength compression rpc p r.socket (stream.drop bytes) rest
  else if compression ∧ 0 < p.bytesReceived then do
    let ⟨r,defined⟩ ← sendCompressed false client rpc p.imgBuffer p.bytesReceived
    if r.returned < 0 then some ⟨-1,headerLength,p,false,⟨stream,answers⟩,r.socket,defined⟩
    else some ⟨int (headerLength + r.len),headerLength,{p with bytesSent := r.len},false,
      ⟨stream,answers⟩,r.socket,defined⟩
  else some ⟨int (headerLength + p.bytesSent),headerLength,p,false,⟨stream,answers⟩,client,true⟩

def initial : Progress := ⟨0,0,.indeterminate,[]⟩

def recvAllForward (upstream : Receiver) (client : Sender) (header : List UInt8)
    (headerLength bodyLength : Int) (compression : Bool) (rpc : List UInt8 → Rpc) : Option Forwarded := do
  let r ← sendAll client header headerLength
  if r.returned < 0 then some ⟨-1,r.len,initial,false,upstream,r.socket,true⟩
  else recvLoop bodyLength r.len compression rpc initial r.socket upstream.stream upstream.answers

inductive Turn (bodyLength headerLength : Int) (rpc : List UInt8 → Rpc) (p : Progress) (client : Sender)
    (stream : List UInt8) : List Answer → Forwarded → Prop where
  | enough {answers : List Answer} (enough : ¬ (p.bytesReceived < bodyLength ∨ bodyLength < 0)) :
      Turn bodyLength headerLength rpc p client stream answers
        ⟨int (headerLength + p.bytesSent),headerLength,p,false,⟨stream,answers⟩,client,true⟩
  | failed {a : Answer} {rest : List Answer} (more : p.bytesReceived < bodyLength ∨ bodyLength < 0)
      (brought : a.bytes (stream.take 19999) = none) :
      Turn bodyLength headerLength rpc p client stream (a::rest)
        ⟨-1,headerLength,p,false,⟨stream,rest⟩,client,true⟩
  | closed {a : Answer} {rest : List Answer} (more : p.bytesReceived < bodyLength ∨ bodyLength < 0)
      (brought : a.bytes (stream.take 19999) = some []) :
      Turn bodyLength headerLength rpc p client stream (a::rest)
        ⟨int (p.bytesSent + headerLength),headerLength,p,true,⟨stream,rest⟩,client,true⟩
  | unsent {a : Answer} {rest : List Answer} {b : UInt8} {chunk : List UInt8} {u : Sent}
      (more : p.bytesReceived < bodyLength ∨ bodyLength < 0)
      (brought : a.bytes (stream.take 19999) = some (b::chunk))
      (sent : sendAll client (b::chunk) (b::chunk).length = some u) (failed : u.returned < 0) :
      Turn bodyLength headerLength rpc p client stream (a::rest)
        ⟨-1,headerLength,{ p with
          bytesReceived := p.bytesReceived + (b::chunk).length, chunks := p.chunks ++ [b::chunk] },
          false,⟨stream.drop (b::chunk).length,rest⟩,u.socket,true⟩
  | next {a : Answer} {rest : List Answer} {b : UInt8} {chunk : List UInt8} {u : Sent} {r : Forwarded}
      (more : p.bytesReceived < bodyLength ∨ bodyLength < 0)
      (brought : a.bytes (stream.take 19999) = some (b::chunk))
      (sent : sendAll client (b::chunk) (b::chunk).length = some u) (ok : ¬ u.returned < 0)
      (later : recvLoop bodyLength headerLength false rpc
        ⟨p.bytesReceived + (b::chunk).length,p.bytesSent + u.len,p.imgBuffer,p.chunks ++ [b::chunk]⟩
        u.socket (stream.drop (b::chunk).length) rest = some r) :
      Turn bodyLength headerLength rpc p client stream (a::rest) r

theorem recvLoopTurn {bodyLength headerLength : Int} {rpc} {p : Progress} {client : Sender} {stream : List UInt8}
    {answers : List Answer} {r : Forwarded}
    (h : recvLoop bodyLength headerLength false rpc p client stream answers = some r) :
    Turn bodyLength headerLength rpc p client stream answers r := by
  rw [recvLoop.eq_def] at h
  split at h
  · rename_i more
    cases answers with
    | nil => cases h
    | cons a rest =>
      dsimp only at h
      cases brought : a.bytes (stream.take 19999) with
      | none =>
        rw [brought] at h
        cases Option.some.inj h
        exact .failed more brought
      | some chunk =>
        cases chunk with
        | nil =>
          simp only [brought,Bool.false_eq_true,if_false] at h
          cases Option.some.inj h
          exact .closed more brought
        | cons b chunk =>
          simp only [brought,Bool.false_eq_true,if_false,bind,Option.bind_eq_some_iff] at h
          obtain ⟨u,sent,last⟩ := h
          split at last
          · rename_i failed
            cases Option.some.inj last
            exact .unsent more brought sent failed
          · rename_i ok
            exact .next more brought sent ok last
  · rename_i enough
    simp only [Bool.false_eq_true,false_and,if_false] at h
    cases Option.some.inj h
    exact .enough enough

structure Forwarding (header sent stream : List UInt8) (bodyLength : Int) (p : Progress)
    (client : Sender) (left : List UInt8) : Prop where
  sent : client.sent = sent ++ header ++ p.chunks.flatten
  order : stream = p.chunks.flatten ++ left
  received : p.bytesReceived = p.chunks.flatten.length
  counted : p.bytesSent = p.chunks.flatten.length
  some : [] ∉ p.chunks
  going : ∀ n, n < p.chunks.length → bodyLength < 0 ∨ ((p.chunks.take n).flatten.length : Int) < bodyLength

structure Lossless (header : List UInt8) (bodyLength : Int) (upstream : Receiver) (client : Sender)
    (r : Forwarded) : Prop where
  forwarding : Forwarding header client.sent upstream.stream bodyLength r.progress r.client r.upstream.stream
  headerLength : r.headerLength = header.length
  returned : r.returned = int (header.length + r.progress.chunks.flatten.length)
  closed : r.closed = true → r.upstream.stream = []
  stops : r.closed = true ↔ ¬ (0 ≤ bodyLength ∧ bodyLength ≤ r.progress.chunks.flatten.length)
  defined : r.defined = true

theorem forwardingNext {header sent stream left chunk : List UInt8} {bodyLength : Int} {p : Progress}
    {client : Sender} {socket : Sender} (f : Forwarding header sent stream bodyLength p client left)
    (more : p.bytesReceived < bodyLength ∨ bodyLength < 0) (isPrefix : chunk <+: left)
    (nonempty : chunk ≠ []) (delivered : socket.sent = client.sent ++ chunk) :
    Forwarding header sent stream bodyLength
      ⟨p.bytesReceived + chunk.length,p.bytesSent + chunk.length,p.imgBuffer,p.chunks ++ [chunk]⟩
      socket (left.drop chunk.length) := by
  refine ⟨?_,?_,?_,?_,?_,?_⟩
  · simp [delivered,f.sent]
  · obtain ⟨rest,rfl⟩ := isPrefix
    simp [f.order]
  · simp [f.received]
  · simp [f.counted]
  · simp [f.some,nonempty.symm]
  · intro n hn
    rcases Nat.lt_or_ge n p.chunks.length with before | last
    · rw [List.take_append_of_le_length (Nat.le_of_lt before)]; exact f.going n before
    · have here : n = p.chunks.length := by
        simp only [List.length_append,List.length_singleton] at hn; omega
      rw [here,List.take_left,← f.received]
      exact more.symm

theorem recvLoopLossless {header left : List UInt8} {bodyLength : Int} {rpc} {upstream : Receiver}
    {client socket : Sender} {p : Progress} {answers : List Answer} {r : Forwarded}
    (f : Forwarding header client.sent upstream.stream bodyLength p socket left)
    (received : NoError answers) (accepted : NoError socket.answers)
    (h : recvLoop bodyLength header.length false rpc p socket left answers = some r) :
    Lossless header bodyLength upstream client r := by
  induction answers generalizing p socket left with
  | nil =>
    cases recvLoopTurn h with
    | enough enough =>
      rw [f.received] at enough
      exact ⟨f,rfl,by rw [f.counted],by simp,iff_of_false (by simp) (by dsimp only; omega),rfl⟩
  | cons a rest ih =>
    obtain ⟨⟨k,rfl⟩,later⟩ := noErrorCons received
    cases recvLoopTurn h with
    | enough enough =>
      rw [f.received] at enough
      exact ⟨f,rfl,by rw [f.counted],by simp,iff_of_false (by simp) (by dsimp only; omega),rfl⟩
    | failed _ brought => cases brought
    | closed more brought =>
      have empty : left = [] := by
        rw [Answer.bytes,List.take_take] at brought
        rcases List.take_eq_nil_iff.mp (Option.some.inj brought) with none | empty
        · omega
        · exact empty
      rw [f.received] at more
      exact ⟨f,rfl,by rw [f.counted,Int.add_comm],fun _ => empty,iff_of_true rfl (by dsimp only; omega),rfl⟩
    | unsent _ _ sent failed =>
      obtain ⟨ok,_⟩ := bufferSent accepted sent
      omega
    | next more brought sent _ last =>
      obtain ⟨ok,len,delivered,accepted⟩ := bufferSent accepted sent
      have isPrefix : _ <+: left := (List.take_prefix (k + 1) _).trans (List.take_prefix 19999 left)
      rw [Answer.bytes] at brought
      rw [Option.some.inj brought] at isPrefix
      rw [len] at last
      exact ih (forwardingNext f more isPrefix (List.cons_ne_nil _ _) delivered) later accepted last

theorem recvLoopReturns {bodyLength headerLength : Int} {rpc} {p : Progress} {socket : Sender}
    {left : List UInt8} {answers : List Answer} (enough : left.length < answers.length)
    (room : left.length ≤ socket.answers.length) :
    ∃ r, recvLoop bodyLength headerLength false rpc p socket left answers = some r := by
  induction answers generalizing p socket left with
  | nil => simp at enough
  | cons a rest ih =>
    rw [recvLoop]
    by_cases more : p.bytesReceived < bodyLength ∨ bodyLength < 0
    · rw [if_pos more]
      cases a with
      | error => exact ⟨_,rfl⟩
      | upTo k =>
        simp only [Answer.bytes,List.take_take]
        generalize took : left.take (min (k + 1) 19999) = chunk
        have size : chunk.length = min (min (k + 1) 19999) left.length := by simp [← took]
        cases chunk with
        | nil => exact ⟨_,rfl⟩
        | cons b chunk =>
          have positive : 0 < (b::chunk).length := Nat.succ_pos _
          simp only [List.length_cons] at enough
          obtain ⟨u,hu,used⟩ := sendAllReturns socket (show (b::chunk).length < 2 ^ 31 by omega) (by omega)
          simp only [Bool.false_eq_true,if_false,hu,bind,Option.bind_some]
          split
          · exact ⟨_,rfl⟩
          · exact ih (by rw [List.length_drop]; omega) (by rw [List.length_drop]; omega)
    · rw [if_neg more]; exact ⟨_,rfl⟩

theorem forwardingInitial {header stream : List UInt8} {bodyLength : Int} {client socket : Sender}
    (delivered : socket.sent = client.sent ++ header) :
    Forwarding header client.sent stream bodyLength initial socket stream :=
  ⟨by simp [delivered,initial],rfl,rfl,rfl,by simp [initial],fun _ few => absurd few (Nat.not_lt_zero _)⟩

section
variable {header : List UInt8} {bodyLength : Int} {rpc : List UInt8 → Rpc} {upstream : Receiver} {client : Sender}

theorem forwardsAll {r : Forwarded} (received : NoError upstream.answers) (accepted : NoError client.answers)
    (h : recvAllForward upstream client header header.length bodyLength false rpc = some r) :
    Lossless header bodyLength upstream client r := by
  simp only [recvAllForward,bind,Option.bind_eq_some_iff] at h
  obtain ⟨u,hu,last⟩ := h
  obtain ⟨ok,len,delivered,accepted⟩ := bufferSent accepted hu
  rw [if_neg (by omega),len] at last
  exact recvLoopLossless (forwardingInitial delivered) received accepted last

theorem forwardReturns (short : header.length < 2 ^ 31) (accepted : NoError client.answers)
    (enough : upstream.stream.length < upstream.answers.length)
    (room : header.length + upstream.stream.length ≤ client.answers.length) :
    ∃ r, recvAllForward upstream client header header.length bodyLength false rpc = some r := by
  obtain ⟨u,hu,used⟩ := sendAllReturns client short (by omega)
  obtain ⟨ok,len,_⟩ := bufferSent accepted hu
  have room : upstream.stream.length ≤ u.socket.answers.length := by omega
  simp only [recvAllForward,hu,bind,Option.bind_some]
  rw [if_neg (by omega)]
  exact recvLoopReturns enough room

/-- Without compression the proxy forwards the header and every byte of the body once, in order,
and returns once the network has answered often enough. -/
theorem forwardLossless (short : header.length < 2 ^ 31) (received : NoError upstream.answers)
    (accepted : NoError client.answers) :
    (∀ r, recvAllForward upstream client header header.length bodyLength false rpc = some r →
      Lossless header bodyLength upstream client r) ∧
    (upstream.stream.length < upstream.answers.length →
      header.length + upstream.stream.length ≤ client.answers.length →
      ∃ r, recvAllForward upstream client header header.length bodyLength false rpc = some r) :=
  ⟨fun _ h => forwardsAll received accepted h,fun enough room => forwardReturns short accepted enough room⟩

end

theorem forwardLosslessUntilClose : ∃ r,
    recvAllForward ⟨[7,8,9],[.upTo 1,.upTo 5,.upTo 0]⟩ ⟨[],[.upTo 0,.upTo 3,.upTo 0,.upTo 0,.upTo 0]⟩
      [1,2] 2 (-1) false (fun _ => .callFault) = some r ∧ r.client.sent = [1,2,7,8,9] ∧
    Lossless [1,2] (-1) ⟨[7,8,9],[.upTo 1,.upTo 5,.upTo 0]⟩
      ⟨[],[.upTo 0,.upTo 3,.upTo 0,.upTo 0,.upTo 0]⟩ r := by
  have ran : recvAllForward ⟨[7,8,9],[.upTo 1,.upTo 5,.upTo 0]⟩
    ⟨[],[.upTo 0,.upTo 3,.upTo 0,.upTo 0,.upTo 0]⟩ [1,2] 2 (-1) false (fun _ => .callFault) = some _ := rfl
  exact ⟨_,ran,rfl,(forwardLossless (by simp : ([1,2] : List UInt8).length < 2 ^ 31) (by simp [NoError])
    (by simp [NoError])).1 _ ran⟩

end IttyBittyServer.Forward
