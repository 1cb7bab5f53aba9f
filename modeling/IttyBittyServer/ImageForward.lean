import IttyBittyServer.ForwardOutcome
import IttyBittyServer.Header

/-! What a client receives when the proxy compresses images: from recvAll_Forward, which
sends the header on before it has the body, and from sharedProxy, which takes the header
for a part of the image. -/
namespace IttyBittyServer.ImageForward
open Sockets Header ImageBuffer Forward

def rpcOf (compress : List UInt8 → List UInt8) (imgBuffer : List UInt8) : Rpc :=
  .image (compress imgBuffer)

def Carries (header : List UInt8) (n : Int) : Prop :=
  ∃ bLength, getHeaderField header contentLength = some (some bLength) ∧ Text.atoi bLength = n

def Framed (header : List UInt8) (before after : Sender) : Prop :=
  ∃ sent, after.sent = before.sent ++ header ++ sent ∧ Carries header sent.length

theorem Carries.bodyLength {header : List UInt8} {n : Int} (carries : Carries header n) :
    bodyLength header = some n := by
  obtain ⟨bLength,found,rfl⟩ := carries
  rw [Header.bodyLength,found]
  rfl

/- How sharedProxy ends: it returns 0, a segment without data exits the program, or a variable
is used that has no value. -/
inductive Ending where
  | returned | exited | undefined
  deriving DecidableEq, Repr

structure Shared where
  ending : Ending
  client : Sender
  deriving DecidableEq, Repr

structure Locals where
  imageBuffer : Pointer
  bytes : Option Int
  deriving DecidableEq, Repr

/- One pass for each response, what the segment holds at that time. What a send to the client
returns is not looked at. A sum with `bytes` has no value as long as `bytes` has none. -/
def receiveLoop (compression : Bool) (client : Sender) (l : Locals) : List (List UInt8) → Option (Shared × Locals)
  | [] => some (⟨.returned,client⟩,l)
  | []::_ => some (⟨.exited,client⟩,l)
  | (b::response)::rest =>
    let response := b::response
    if compression then
      match l.bytes.bind fun bytes => buffered l.imageBuffer (bytes + response.length) response with
      | none => some (⟨.undefined,client⟩,l)
      | some image => receiveLoop compression client ⟨.object image,l.bytes.map (· + response.length)⟩ rest
    else do
      let r ← sendAll client response response.length
      receiveLoop compression r.socket {l with bytes := l.bytes.map (· + r.len)} rest

/- From the do loop on, which makes one pass at least. After a fault the compressed image has no
value. -/
def forwardShared (client : Sender) (compression : Bool) (rpc : List UInt8 → Rpc)
    (responses : List (List UInt8)) : Option Shared :=
  if responses = [] then none
  else do
    let (s,l) ← receiveLoop compression client ⟨.indeterminate,none⟩ responses
    if s.ending = .returned ∧ compression then
      match l.bytes.bind (passed l.imageBuffer) with
      | none => some ⟨.undefined,s.client⟩
      | some image => match rpc image with
        | .callFault | .decomposeFault => some ⟨.undefined,s.client⟩
        | .image compImg =>
          let r ← sendAll s.client compImg compImg.length
          some ⟨.returned,r.socket⟩
    else some s

def forwardSocket (client : Sender) (compression : Bool) (rpc : List UInt8 → Rpc)
    (upstream : Receiver) : Option Forwarded := do
  let got ← recvHeader upstream
  let header ← got.header
  recvAllForward got.socket client header got.headerLength got.bodyLength compression rpc

/- With compression neither the buffer nor the count has a value. -/
theorem sharedUnset (client : Sender) (rpc : List UInt8 → Rpc) (b : UInt8) (response : List UInt8)
    (rest : List (List UInt8)) :
    forwardShared client true rpc ((b::response)::rest) = some ⟨.undefined,client⟩ := rfl

structure Agree (s : Shared) (t : Forwarded) : Prop where
  returned : s.ending = .returned
  defined : t.defined = true
  same : s.client.sent = t.client.sent

section
variable {header body : List UInt8} {compression : Bool} {compress : List UInt8 → List UInt8}
  {rpc : List UInt8 → Rpc} {answers : List Answer} {client : Sender} {r : Forwarded}

/- The first chunk of an image meets a pointer without a value. -/
theorem imageUnset {headerLength : Int} (some_ : body ≠ []) (received : NoError answers)
    (h : recvLoop body.length headerLength true rpc Forward.initial client body answers = some r) :
    r.defined = false := by
  obtain ⟨b,body,rfl⟩ := List.exists_cons_of_ne_nil some_
  have more : Forward.initial.bytesReceived < (b::body).length ∨ ((b::body).length : Int) < 0 :=
    .inl (Int.natCast_pos.mpr (Nat.succ_pos _))
  rw [recvLoop.eq_def,if_pos more] at h
  cases answers with
  | nil => cases h
  | cons a rest =>
    obtain ⟨⟨k,rfl⟩,_⟩ := noErrorCons received
    cases Option.some.inj h
    rfl

theorem bodyForwarded (received : NoError answers) (accepted : NoError client.answers)
    (h : recvAllForward ⟨body,answers⟩ client header header.length body.length false rpc = some r) :
    r.defined = true ∧ r.client.sent = client.sent ++ header ++ body := by
  have whole := forwardsAll received accepted h
  have order := whole.forwarding.order
  have size := congrArg List.length order
  rw [List.length_append] at size
  -- the peer closes only behind the whole body, so the loop has all of it
  have open_ : ¬ r.closed = true := fun closed => by
    have short := whole.stops.mp closed
    rw [whole.closed closed,List.length_nil] at size
    dsimp only at size
    omega
  have all : r.upstream.stream = [] := List.length_eq_zero_iff.mp (by
    have enough := mt whole.stops.mpr open_
    dsimp only at size
    omega)
  rw [all,List.append_nil] at order
  exact ⟨whole.defined,by rw [whole.forwarding.sent,← order]⟩

def twoBytes : List UInt8 := Text.ascii "HTTP/1.0 200 OK\r\nContent-Length: 2\r\n\r\n"

theorem twoBytesCarried : Carries twoBytes 2 := ⟨Text.ascii "2",by decide +kernel,by decide +kernel⟩

def ready : Sender := ⟨[],List.replicate 9 (.upTo 40)⟩

theorem loopSends {l : Locals} {responses : List (List UInt8)} {last : Shared × Locals}
    (written : [] ∉ responses) (accepted : NoError client.answers)
    (h : receiveLoop false client l responses = some last) :
    last.1.ending = .returned ∧ last.1.client.sent = client.sent ++ responses.flatten := by
  induction responses generalizing client l with
  | nil =>
    cases Option.some.inj h
    simp
  | cons response rest ih =>
    obtain ⟨some_,later⟩ := not_or.mp (mt List.mem_cons.mpr written)
    obtain ⟨b,response,rfl⟩ := List.exists_cons_of_ne_nil (Ne.symm some_)
    simp only [receiveLoop,Bool.false_eq_true,if_false,bind,Option.bind_eq_some_iff] at h
    obtain ⟨r,hr,next⟩ := h
    obtain ⟨_,_,delivered,accepted⟩ := bufferSent accepted hr
    obtain ⟨returned,sent⟩ := ih later accepted next
    refine ⟨returned,?_⟩
    rw [sent,delivered]
    simp

def passes (responses : List (List UInt8)) : Nat := (responses.takeWhile (· ≠ [])).length

theorem loopGrows {l : Locals} {responses : List (List UInt8)} {last : Shared × Locals}
    (h : receiveLoop false client l responses = some last) : client.sent <+: last.1.client.sent := by
  induction responses generalizing client l with
  | nil =>
    cases Option.some.inj h
    exact List.prefix_refl _
  | cons response rest ih =>
    cases response with
    | nil =>
      cases Option.some.inj h
      exact List.prefix_refl _
    | cons b response =>
      simp only [receiveLoop,Bool.false_eq_true,if_false,bind,Option.bind_eq_some_iff] at h
      obtain ⟨r,hr,next⟩ := h
      exact (ForwardOutcome.sendAllGrows hr).trans (ih next)

theorem loopRefused {l : Locals} {responses : List (List UInt8)} {last : Shared × Locals}
    (short : ∀ response ∈ responses, response.length < 2 ^ 31)
    (h : receiveLoop false client l responses = some last) :
    (last.1.client.sent = client.sent ↔ ∀ k < passes responses, client.answers[k]? = some .error) ∧
      (last.1.client.sent = client.sent → last.1.client.answers = client.answers.drop (passes responses)) := by
  induction responses generalizing client l with
  | nil =>
    cases Option.some.inj h
    simp [passes]
  | cons response rest ih =>
    cases response with
    | nil =>
      cases Option.some.inj h
      simp [passes]
    | cons b response =>
      have count : passes ((b::response)::rest) = passes rest + 1 := by simp [passes]
      have few := short (b::response) List.mem_cons_self
      simp only [receiveLoop,Bool.false_eq_true,if_false,bind,Option.bind_eq_some_iff] at h
      obtain ⟨r,hr,next⟩ := h
      have starts := sendAllStarts few (List.cons_ne_nil _ _) hr
      by_cases refused : client.answers.head? = some .error
      · have all := sendAllRefused few (List.cons_ne_nil b response) refused
        cases Option.some.inj (hr.symm.trans all)
        obtain ⟨same,left⟩ := ih (fun response mem => short response (List.mem_cons_of_mem _ mem)) next
        obtain ⟨answers,whole⟩ := List.head?_eq_some_iff.mp refused
        simp only [whole,List.tail_cons] at same left
        rw [count,whole]
        refine ⟨same.trans ⟨fun each k few => ?_,fun each k few => each (k + 1) (by omega)⟩,left⟩
        cases k with
        | zero => rfl
        | succ k => exact each k (by omega)
      · have grows := (loopGrows next).length_le
        have more : client.sent.length < r.socket.sent.length :=
          Nat.lt_of_le_of_ne (ForwardOutcome.sendAllGrows hr).length_le fun size =>
            refused (starts.mp ((ForwardOutcome.sendAllGrows hr).eq_of_length size).symm)
        have apart : last.1.client.sent ≠ client.sent := fun same => by
          rw [same] at grows
          omega
        refine ⟨iff_of_false apart fun each => refused ?_,fun same => absurd same apart⟩
        rw [List.head?_eq_getElem?]
        exact each 0 (by omega)

theorem loopDefined {l : Locals} {responses : List (List UInt8)} {last : Shared × Locals}
    (h : receiveLoop false client l responses = some last) : last.1.ending ≠ .undefined := by
  induction responses generalizing client l with
  | nil =>
    cases Option.some.inj h
    simp
  | cons response rest ih =>
    cases response with
    | nil =>
      cases Option.some.inj h
      simp
    | cons b response =>
      simp only [receiveLoop,Bool.false_eq_true,if_false,bind,Option.bind_eq_some_iff] at h
      obtain ⟨r,_,next⟩ := h
      exact ih next

theorem sharedPlain {responses : List (List UInt8)} {s : Shared}
    (h : forwardShared client false rpc responses = some s) :
    ∃ l, receiveLoop false client ⟨.indeterminate,none⟩ responses = some (s,l) := by
  unfold forwardShared at h
  split at h
  · cases h
  · obtain ⟨⟨s',l⟩,loop,last⟩ := Option.bind_eq_some_iff.mp h
    simp only [Bool.false_eq_true,and_false,if_false] at last
    cases Option.some.inj last
    exact ⟨l,loop⟩

theorem twoBytesBlank : twoBytes ≠ [] ∧ blankLine <:+ twoBytes ∧
    ∀ p, p <+: twoBytes → p ≠ twoBytes → ¬ blankLine <:+ p := by
  have all : twoBytes ≠ [] ∧ blankLine <:+ twoBytes ∧
      ∀ p ∈ twoBytes.inits, p ≠ twoBytes → ¬ blankLine <:+ p := by decide +kernel
  exact ⟨all.1,all.2.1,fun p isPrefix => all.2.2 p ((List.mem_inits _ _).mpr isPrefix)⟩

def arriving : Receiver := ⟨twoBytes ++ [7,8],List.replicate 45 (.upTo 9)⟩

end

end IttyBittyServer.ImageForward
