import IttyBittyServer.ImageForward
import IttyBittyServer.MemList
import IttyBittyServer.Response

/-! One iteration of the proxy's handleClient, from the client's request to its answer.
What the system, the upstream server and the compression server do is given. -/
namespace IttyBittyServer.ProxyIteration
open Sockets Text Header Forward ForwardOutcome ImageForward Response

abbrev Held := {bytes : List UInt8 // bytes.length ≤ MemList.segmentSize}

/- `behind` is what lies in memory behind the request. `shared` is what sharedProxy reads at
each of its passes, where its checks let the request go over the shared memory. -/
structure World where
  request : Receiver
  behind : List UInt8
  client : Sender
  compress : Bool
  allocated : Bool
  resolved : Bool
  shared : Option (List Held)
  socket : Bool
  connect : Bool
  server : Sender
  upstream : Receiver
  rpc : List UInt8 → Rpc

def contentTypeJPG (toSearch : List UInt8) : Option Bool := do
  match ← getHeaderField toSearch (ascii "\nContent-Type") with
  | none => some false
  | some field =>
    if (← strcasestr field (ascii ".jpg")).isSome then some true
    else some (← strcasestr field (ascii "jpeg")).isSome

def isJPG (toSearch behind : List UInt8) : Option Bool := do
  let start := cstring ((toSearch ++ behind).take 10)
  let line := cstring ((toSearch ++ behind).take 99)
  if ← contentTypeJPG toSearch then some true
  else if (strstr start (ascii "GET")).isSome then some (← strcasestr line (ascii ".jpg")).isSome
  else some false

/- The inner result is NULL when the new length is negative. The host does not fit the
local buffer, or the address ends behind the header: no result. -/
def stripAbsURL (header : List UInt8) : Option (Option (List UInt8)) := do
  match ← getHeaderField header (ascii "\nHost") with
  | none => some none
  | some host =>
    if header.length < 7 + host.length then some none
    else do
      let start ← strchr (cstring header) 32
      let firstHalf := (cstring header).length - start.length + 1
      if 9998 < 7 + host.length ∨ header.length < firstHalf + 7 + host.length then none
      else some (some (header.take firstHalf ++ header.drop (firstHalf + 7 + host.length)))

inductive Contact where
  | error (status : Int) (title text : List UInt8)
  | shared (responses : List Held) (compression : Bool)
  | response (header : List UInt8) (headerLength bodyLength : Int) (upstream : Receiver)
      (compression : Bool)
  deriving DecidableEq, Repr

def internal (text : String) : Contact := .error 500 (ascii "Internal Server Error") (ascii text)

def contactServer (w : World) (header : List UInt8) (compression : Bool) : Option Contact :=
  if ¬ w.socket then some (internal "The proxy encountered an error.\n")
  else if ¬ w.connect then
    some (.error 408 (ascii "Request Timeout") (ascii "The server did not respond to proxy requests.\n"))
  else do
    match ← stripAbsURL header with
    | none => some (internal "The proxy encountered an error.\n")
    | some tHeader =>
      let sent ← sendAll w.server tHeader tHeader.length
      if sent.returned < 0 then some (internal "The proxy encountered an error.\n")
      else do
        let r ← recvHeader w.upstream
        match r.header with
        | none => some (internal "The proxy encountered an error.\n")
        | some header => some (.response header r.headerLength r.bodyLength r.socket compression)

/- The request goes over the shared memory; one without a new header is never written, and
the server never answers it. -/
def contactShared (header : List UInt8) (responses : List Held) (compression : Bool) : Option Contact := do
  let tHeader ← stripAbsURL header
  if tHeader.isSome then some (.shared responses compression) else none

def compression (w : World) (header : List UInt8) : Option Bool :=
  if w.compress then isJPG header w.behind else some false

def contact (w : World) : Option Contact := do
  let request ← recvHeader w.request
  match request.header with
  | none => some (internal "The proxy encountered an error.")
  | some header =>
    let compression ← compression w header
    let fullServer ← getHeaderField header (ascii "\nHost")
    if fullServer.isNone then some (internal "The proxy encountered an error.")
    else if ¬ w.allocated then some (internal "The proxy has encountered an error.\n")
    else if ¬ w.resolved then some (.error 404 (ascii "Not Found") (ascii "Server not found.\n"))
    else match w.shared with
      | some responses => contactShared header responses compression
      | none => contactServer w header compression

/- `starts` are the places in the client's stream at which a response began; `defined` says
that no variable without a value was used. -/
structure Iteration where
  client : Sender
  starts : List Nat
  defined : Bool
  deriving DecidableEq, Repr

/- A response whose first buffer was to be sent began if the client took some of it. -/
def started (base : Nat) (before after : Sender) : List Nat :=
  if after.sent = before.sent then [] else [before.sent.length - base]

def Iteration.fail (base : Nat) (i : Iteration) (status : Int) (title text : List UInt8) :
    Option Iteration := do
  let page := errorPage status title text
  let header := snprintf 9999 (responseHeader status title none (ascii "text/html") page.length)
  let head ← sendAll i.client header header.length
  let client ← sendError status title none text i.client
  some ⟨client,i.starts ++ started base i.client head.socket,i.defined⟩

def handleClient (w : World) : Option Iteration := do
  let base := w.client.sent.length
  match ← contact w with
  | .error status title text => Iteration.fail base ⟨w.client,[],true⟩ status title text
  | .shared responses compression =>
    let responses := responses.map Subtype.val
    let first ← forwardShared w.client compression w.rpc (responses.take 1)
    let r ← forwardShared w.client compression w.rpc responses
    some ⟨r.client,started base w.client first.client,r.ending != .undefined⟩
  | .response header headerLength bodyLength upstream compression =>
    let r ← recvAllForward upstream w.client header headerLength bodyLength compression w.rpc
    let i := ⟨r.client,started base w.client r.client,r.defined⟩
    if r.returned < 0 then
      i.fail base 500 (ascii "Internal Server Error") (ascii "The proxy encountered an error.\n")
    else some i

/-- One response begins, with the first byte that the client gets; or the client gets nothing,
because its socket refuses a send. -/
def OneResponse (w : World) (i : Iteration) : Prop :=
  i.defined = true ∧ (i.starts = [0] ∨
    i.client.sent = w.client.sent ∧ ∃ used, w.client.answers = used ++ i.client.answers ∧ .error ∈ used)

inductive ImageUnset (w : World) : Prop
  | shared {response responses} (reached : contact w = some (.shared (response::responses) true))
      (read : response.val ≠ [])
  | response {header n bodyLength upstream compression}
      (reached : contact w = some (.response header n bodyLength upstream compression))
      (unset : Unset header bodyLength compression w.rpc upstream w.client)

def LateFailure (w : World) : Prop := ∃ header n bodyLength upstream compression s,
  contact w = some (.response header n bodyLength upstream compression) ∧
  sendEach w.client (plan header bodyLength compression w.rpc upstream).payload = some s ∧
  (s.returned < 0 ∨ (plan header bodyLength compression w.rpc upstream).broken = true ∨
    int (plan header bodyLength compression w.rpc upstream).payload.flatten.length < 0) ∧
  s.socket.sent ≠ w.client.sent ∧ s.socket.answers.head? ≠ some .error

inductive Headless (w : World) : Prop
  | page {status title text} (reached : contact w = some (.error status title text))
      (refused : w.client.answers.head? = some .error) (taken : w.client.answers[1]? ≠ some .error)
  | late {header n bodyLength upstream compression s}
      (reached : contact w = some (.response header n bodyLength upstream compression))
      (forwarded : sendEach w.client (plan header bodyLength compression w.rpc upstream).payload = some s)
      (unsent : s.socket.sent = w.client.sent) (refused : s.socket.answers.head? = some .error)
      (taken : s.socket.answers[1]? ≠ some .error)
  | shared {responses k} (reached : contact w = some (.shared responses false))
      (refused : w.client.answers.head? = some .error) (later : k < passes (responses.map Subtype.val))
      (taken : w.client.answers[k]? ≠ some .error)

def Unread (w : World) : Prop := ∃ response responses compression,
  contact w = some (.shared (response::responses) compression) ∧ response.val = []

theorem headerLoopSize {inputChar retVal stream : List UInt8} {answers : List Answer} {r : Received}
    {header : List UInt8} (h : headerLoop inputChar retVal stream answers = some r)
    (found : r.header = some header) : r.headerLength = header.length ∧ header ≠ [] := by
  induction answers generalizing inputChar retVal stream with
  | nil => simp [headerLoop] at h
  | cons a rest ih =>
    rw [headerLoop] at h
    split at h
    · cases Option.some.inj h; contradiction
    · cases Option.some.inj h
      dsimp only at found ⊢
      split at found <;> cases found
      exact ⟨rfl,by assumption⟩
    · dsimp only at h
      split at h
      · exact ih h
      · simp only [bind,Option.bind_eq_some_iff] at h
        obtain ⟨n,_,last⟩ := h
        cases Option.some.inj last
        cases Option.some.inj found
        exact ⟨rfl,by simp⟩

theorem responseHeaderSize {w : World} {header : List UInt8} {n bodyLength : Int} {upstream : Receiver}
    {compression : Bool} (h : contact w = some (.response header n bodyLength upstream compression)) :
    n = header.length ∧ header ≠ [] := by
  simp only [contact,internal,bind,Option.bind_eq_some_iff] at h
  obtain ⟨request,_,h⟩ := h
  split at h
  · cases h
  obtain ⟨compression',_,h⟩ := Option.bind_eq_some_iff.mp h
  obtain ⟨fullServer,_,h⟩ := Option.bind_eq_some_iff.mp h
  iterate 3
    split at h
    · cases h
  split at h
  · simp only [contactShared,bind,Option.bind_eq_some_iff] at h
    obtain ⟨tHeader,_,h⟩ := h
    split at h <;> cases h
  · unfold contactServer at h
    iterate 2
      split at h
      · cases h
    obtain ⟨stripped,_,h⟩ := Option.bind_eq_some_iff.mp h
    split at h
    · cases h
    obtain ⟨sent,_,h⟩ := Option.bind_eq_some_iff.mp h
    split at h
    · cases h
    obtain ⟨r,received,h⟩ := Option.bind_eq_some_iff.mp h
    split at h
    · cases h
    rename_i found
    cases Option.some.inj h
    exact headerLoopSize received found

theorem payloadHead (header : List UInt8) (bodyLength : Int) (compression : Bool) (rpc : List UInt8 → Rpc)
    (upstream : Receiver) : ∃ rest, (plan header bodyLength compression rpc upstream).payload = header::rest := by
  unfold plan
  dsimp only
  split
  · split
    · exact ⟨_,rfl⟩
    · split
      · split <;> exact ⟨_,rfl⟩
      · exact ⟨_,rfl⟩
  · exact ⟨_,rfl⟩

theorem nothingSent {socket : Sender} {header : List UInt8} {rest : List (List UInt8)} {r : Sent}
    (nonempty : header ≠ []) (h : sendEach socket (header::rest) = some r)
    (same : r.socket.sent = socket.sent) : r.returned < 0 := by
  simp only [sendEach,bind,Option.bind_eq_some_iff] at h
  obtain ⟨u,hu,last⟩ := h
  obtain ⟨_,_,⟨ok,sent⟩ | ⟨failed,_⟩⟩ := sendAllDelivered hu
  · rw [if_neg (by omega)] at last
    have longer := (sendEachGrows last).length_le
    have size := List.length_pos_iff.mpr nonempty
    rw [same,sent,List.length_append] at longer
    omega
  · rw [if_pos (by omega)] at last
    cases Option.some.inj last
    omega

theorem responseHeaderNonempty (status : Int) (title : List UInt8) (headers : Option (List UInt8))
    (mime : List UInt8) (length : Int) : snprintf 9999 (responseHeader status title headers mime length) ≠ [] ∧
      (snprintf 9999 (responseHeader status title headers mime length)).length < 2 ^ 31 := by
  constructor
  · simp [snprintf,responseHeader,ascii]
  · exact Nat.lt_of_le_of_lt (List.length_take_le _ _) (by decide)

theorem errorPageNonempty (status : Int) (title text : List UInt8) :
    errorPage status title text ≠ [] ∧ (errorPage status title text).length < 2 ^ 31 := by
  constructor
  · simp [errorPage,snprintf,ascii]
  · exact Nat.lt_of_le_of_lt (List.length_take_le _ _) (by decide)

structure Paged (base : Nat) (i j : Iteration) : Prop where
  defined : j.defined = i.defined
  starts : j.starts = i.starts ++
    if i.client.answers.head? = some .error then [] else [i.client.sent.length - base]
  refused : i.client.answers.head? = some .error →
    (j.client.sent = i.client.sent ↔ i.client.answers[1]? = some .error)
  grows : i.client.sent <+: j.client.sent
  used : ∃ used, i.client.answers = used ++ j.client.answers ∧
    (i.client.answers.head? = some .error → .error ∈ used)

theorem failed {base : Nat} {i j : Iteration} {status : Int} {title text : List UInt8}
    (h : i.fail base status title text = some j) : Paged base i j := by
  simp only [Iteration.fail,bind,Option.bind_eq_some_iff] at h
  obtain ⟨head,sent,client,paged,last⟩ := h
  cases Option.some.inj last
  have size := responseHeaderNonempty status title none (ascii "text/html") (errorPage status title text).length
  have page := errorPageNonempty status title text
  have starts := sendAllStarts size.2 size.1 sent
  simp only [sendError,sendResponse,bind,Option.bind_eq_some_iff] at paged
  obtain ⟨head',sent',body,written,last⟩ := paged
  cases Option.some.inj (sent.symm.trans sent')
  cases Option.some.inj last
  obtain ⟨front,split⟩ := (sendAllDelivered sent).used
  obtain ⟨back,split'⟩ := (sendAllDelivered written).used
  refine ⟨rfl,by simp only [started,starts],fun refused => ?_,(sendAllGrows sent).trans (sendAllGrows written),
    front ++ back,?_,fun refused => ?_⟩
  · have all := sendAllRefused size.2 size.1 refused
    cases Option.some.inj (sent.symm.trans all)
    obtain ⟨answers,whole⟩ := List.head?_eq_some_iff.mp refused
    have again := sendAllStarts page.2 page.1 written
    dsimp only at again ⊢
    rw [again,whole,List.tail_cons,List.head?_eq_getElem?]
    rfl
  · rw [List.append_assoc,split',split]
  · have all := sendAllRefused size.2 size.1 refused
    cases Option.some.inj (sent.symm.trans all)
    obtain ⟨answers,whole⟩ := List.head?_eq_some_iff.mp refused
    dsimp only at split
    rw [whole,List.tail_cons] at split
    have one : front = [.error] := List.append_cancel_right (split.trans (List.singleton_append).symm)
    simp [one]

section
variable {w : World} {i : Iteration}

theorem errorExact {status : Int} {title text : List UInt8} (reached : contact w = some (.error status title text))
    (ran : Iteration.fail w.client.sent.length ⟨w.client,[],true⟩ status title text = some i) :
    OneResponse w i ↔ ¬ Headless w := by
  obtain ⟨defined,starts,refused,_,used,split,error⟩ := failed ran
  dsimp only at defined starts refused split error
  by_cases head : w.client.answers.head? = some .error
  · rw [if_pos head] at starts
    constructor
    · rintro ⟨_,one | ⟨same,_⟩⟩ headless
      · rw [starts] at one
        cases one
      · cases headless with
        | page _ _ taken => exact taken ((refused head).mp same)
        | late reached' => cases reached.symm.trans reached'
        | shared reached' => cases reached.symm.trans reached'
    · intro whole
      refine ⟨defined,.inr ⟨(refused head).mpr ?_,used,split,error head⟩⟩
      by_contra taken
      exact whole (.page reached head taken)
  · rw [if_neg head,Nat.sub_self] at starts
    refine iff_of_true ⟨defined,.inl starts⟩ fun headless => ?_
    cases headless with
    | page _ head' => exact head head'
    | late reached' => cases reached.symm.trans reached'
    | shared reached' => cases reached.symm.trans reached'

section
variable {responses : List Held} {first r : Shared}

theorem headlessShared (reached : contact w = some (.shared responses false)) :
    ¬ Headless w ↔ (w.client.answers.head? = some .error →
      ∀ k < passes (responses.map Subtype.val), w.client.answers[k]? = some .error) := by
  constructor
  · intro whole refused k later
    by_contra taken
    exact whole (.shared reached refused later taken)
  · intro each headless
    cases headless with
    | page reached' => cases reached.symm.trans reached'
    | late reached' => cases reached.symm.trans reached'
    | shared reached' refused later taken =>
      cases Option.some.inj (reached.symm.trans reached')
      exact taken (each refused _ later)

theorem plainPasses {held : List (List UInt8)} (short : ∀ response ∈ held, response.length < 2 ^ 31)
    (least : 0 < passes held) (begun : forwardShared w.client false w.rpc (held.take 1) = some first)
    (ran : forwardShared w.client false w.rpc held = some r) :
    OneResponse w ⟨r.client,started w.client.sent.length w.client first.client,r.ending != .undefined⟩ ↔
      (w.client.answers.head? = some .error → ∀ k < passes held, w.client.answers[k]? = some .error) := by
  obtain ⟨l,loop⟩ := sharedPlain ran
  obtain ⟨l',firstLoop⟩ := sharedPlain begun
  obtain ⟨same,left⟩ := loopRefused short loop
  have begins := (loopRefused (fun response mem => short response (List.mem_of_mem_take mem)) firstLoop).1
  have one : passes (held.take 1) = 1 := by
    rcases held with _ | ⟨_ | ⟨b,response⟩,rest⟩
    · cases least
    · cases least
    · rfl
  have head : first.client.sent = w.client.sent ↔ w.client.answers.head? = some .error := by
    rw [begins,one,List.head?_eq_getElem?]
    exact ⟨fun each => each 0 (by decide),fun here k few => by rwa [Nat.lt_one_iff.mp few]⟩
  have defined : (r.ending != .undefined) = true := by simpa using loopDefined loop
  by_cases refused : w.client.answers.head? = some .error
  · rw [forall_prop_of_true refused,← same]
    have nothing : started w.client.sent.length w.client first.client = [] := if_pos (head.mpr refused)
    rw [nothing]
    constructor
    · rintro ⟨_,one | ⟨unsent,_⟩⟩
      · cases one
      · exact unsent
    · intro unsent
      refine ⟨defined,.inr ⟨unsent,w.client.answers.take (passes held),?_,?_⟩⟩
      · rw [left unsent,List.take_append_drop]
      · obtain ⟨answers,whole⟩ := List.head?_eq_some_iff.mp refused
        obtain ⟨n,more⟩ := Nat.exists_eq_succ_of_ne_zero (Nat.ne_of_gt least)
        rw [whole,more]
        exact List.mem_cons_self
  · refine iff_of_true ⟨defined,.inl ?_⟩ fun here => absurd here refused
    rw [started,if_neg fun here => refused (head.mp here),Nat.sub_self]

theorem sharedExact {compression : Bool} (reached : contact w = some (.shared responses compression))
    (begun : forwardShared w.client compression w.rpc ((responses.map Subtype.val).take 1) = some first)
    (ran : forwardShared w.client compression w.rpc (responses.map Subtype.val) = some r)
    (result : i = ⟨r.client,started w.client.sent.length w.client first.client,r.ending != .undefined⟩) :
    OneResponse w i ↔ ¬ ImageUnset w ∧ ¬ Headless w ∧ ¬ Unread w := by
  subst result
  rcases responses with _ | ⟨⟨_ | ⟨b,response⟩,fits⟩,rest⟩
  · cases ran
  · -- the program ends before anything is sent
    have ended : r = ⟨.exited,w.client⟩ := by
      cases compression <;> exact (Option.some.inj ran).symm
    have started_ : first = ⟨.exited,w.client⟩ := by
      cases compression <;> exact (Option.some.inj begun).symm
    subst ended
    subst started_
    refine iff_of_false ?_ fun ⟨_,_,unread⟩ => unread ⟨_,_,_,reached,rfl⟩
    rintro ⟨_,one | ⟨_,used,split,error⟩⟩
    · simp [started] at one
    · have none_ : used = [] := List.append_left_eq_self.mp split.symm
      rw [none_] at error
      cases error
  · have read : ¬ Unread w := by
      rintro ⟨response',rest',compression',reached',empty⟩
      cases Option.some.inj (reached.symm.trans reached')
      cases empty
    cases compression with
    | true =>
      refine iff_of_false ?_ fun ⟨set_,_⟩ => set_ (.shared reached (List.cons_ne_nil _ _))
      rintro ⟨defined,_⟩
      rw [List.map_cons,sharedUnset] at ran
      cases Option.some.inj ran
      cases defined
    | false =>
      have set_ : ¬ ImageUnset w := by
        rintro (⟨reached',_⟩ | ⟨reached',_⟩) <;> cases reached.symm.trans reached'
      rw [and_iff_right set_,and_iff_left read,headlessShared reached]
      refine plainPasses (fun response mem => ?_) (Nat.succ_pos _) begun ran
      obtain ⟨held,_,rfl⟩ := List.mem_map.mp mem
      exact Nat.lt_of_le_of_lt held.property (by decide)

end

section
variable {header : List UInt8} {n bodyLength : Int} {upstream : Receiver} {compression : Bool} {s : Sent}

theorem unsetExact {r : Forwarded} (reached : contact w = some (.response header n bodyLength upstream compression))
    (size : n = header.length)
    (forwarded : recvAllForward upstream w.client header n bodyLength compression w.rpc = some r) :
    ImageUnset w ↔ r.defined = false := by
  subst size
  rw [forwardUnset forwarded]
  constructor
  · rintro (⟨reached',_⟩ | ⟨reached',unset⟩)
    · cases reached.symm.trans reached'
    · cases Option.some.inj (reached.symm.trans reached')
      exact unset
  · exact .response reached

theorem lateExact (reached : contact w = some (.response header n bodyLength upstream compression))
    (sent : sendEach w.client (plan header bodyLength compression w.rpc upstream).payload = some s) :
    LateFailure w ↔ (s.returned < 0 ∨ (plan header bodyLength compression w.rpc upstream).broken = true ∨
        int (plan header bodyLength compression w.rpc upstream).payload.flatten.length < 0) ∧
      s.socket.sent ≠ w.client.sent ∧ s.socket.answers.head? ≠ some .error := by
  constructor
  · rintro ⟨header',n',bodyLength',upstream',compression',s',reached',sent',rest⟩
    cases Option.some.inj (reached.symm.trans reached')
    cases Option.some.inj (sent.symm.trans sent')
    exact rest
  · exact fun rest => ⟨_,_,_,_,_,s,reached,sent,rest⟩

theorem headlessExact (reached : contact w = some (.response header n bodyLength upstream compression))
    (sent : sendEach w.client (plan header bodyLength compression w.rpc upstream).payload = some s) :
    Headless w ↔ s.socket.sent = w.client.sent ∧ s.socket.answers.head? = some .error ∧
      s.socket.answers[1]? ≠ some .error := by
  constructor
  · intro headless
    cases headless with
    | page reached' => cases reached.symm.trans reached'
    | late reached' sent' unsent refused taken =>
      cases Option.some.inj (reached.symm.trans reached')
      cases Option.some.inj (sent.symm.trans sent')
      exact ⟨unsent,refused,taken⟩
    | shared reached' => cases reached.symm.trans reached'
  · exact fun ⟨unsent,refused,taken⟩ => .late reached sent unsent refused taken

end

theorem pagedExact {i' : Iteration} {payload : List (List UInt8)} {s : Sent}
    (sent : sendEach w.client payload = some s) (unsent : s.socket.sent = w.client.sent → s.returned < 0)
    (socket : i'.client = s.socket) (defined : i'.defined = true)
    (first : i'.starts = if s.socket.sent = w.client.sent then [] else [0])
    (paged : Paged w.client.sent.length i' i) :
    OneResponse w i ↔ ¬ (s.socket.sent ≠ w.client.sent ∧ s.socket.answers.head? ≠ some .error) ∧
      ¬ (s.socket.sent = w.client.sent ∧ s.socket.answers.head? = some .error ∧
        s.socket.answers[1]? ≠ some .error) := by
  obtain ⟨kept,starts,refused,grows,used,split,_⟩ := paged
  rw [first,socket] at starts
  rw [socket] at refused grows split
  have set_ : i.defined = true := kept.trans defined
  by_cases same : s.socket.sent = w.client.sent
  · -- nothing of the forwarded response went out
    rw [if_pos same,same,Nat.sub_self,List.nil_append] at starts
    by_cases head : s.socket.answers.head? = some .error
    · rw [if_pos head] at starts
      by_cases again : s.socket.answers[1]? = some .error
      · obtain ⟨before,whole⟩ := sendEachFailed sent (unsent same)
        refine iff_of_true ⟨set_,.inr ⟨((refused head).mpr again).trans same,?_⟩⟩
          ⟨fun h => h.1 same,fun h => h.2.2 again⟩
        exact ⟨before ++ .error::used,by rw [whole,split]; simp,by simp⟩
      · refine iff_of_false ?_ fun h => h.2 ⟨same,head,again⟩
        rintro ⟨_,one | ⟨none_,_⟩⟩
        · rw [starts] at one
          cases one
        · exact again ((refused head).mp (none_.trans same.symm))
    · rw [if_neg head] at starts
      exact iff_of_true ⟨set_,.inl starts⟩ ⟨fun h => h.1 same,fun h => head h.2.1⟩
  · rw [if_neg same] at starts
    by_cases head : s.socket.answers.head? = some .error
    · rw [if_pos head,List.append_nil] at starts
      exact iff_of_true ⟨set_,.inl starts⟩ ⟨fun h => h.2 head,fun h => same h.1⟩
    · rw [if_neg head] at starts
      refine iff_of_false ?_ fun h => h.1 ⟨same,head⟩
      rintro ⟨_,one | ⟨none_,_⟩⟩
      · rw [starts] at one
        cases one
      · have least := (sendEachGrows sent).length_le
        have most := grows.length_le
        rw [none_] at most
        exact same ((sendEachGrows sent).eq_of_length (by omega)).symm

theorem responseExact {header : List UInt8} {n bodyLength : Int} {upstream : Receiver} {compression : Bool}
    {r : Forwarded} (reached : contact w = some (.response header n bodyLength upstream compression))
    (forwarded : recvAllForward upstream w.client header n bodyLength compression w.rpc = some r)
    (ran : (if r.returned < 0 then
        Iteration.fail w.client.sent.length ⟨r.client,started w.client.sent.length w.client r.client,r.defined⟩ 500
          (ascii "Internal Server Error") (ascii "The proxy encountered an error.\n")
      else some ⟨r.client,started w.client.sent.length w.client r.client,r.defined⟩) = some i) :
    OneResponse w i ↔ ¬ ImageUnset w ∧ ¬ LateFailure w ∧ ¬ Headless w := by
  obtain ⟨size,nonempty⟩ := responseHeaderSize reached
  rw [unsetExact reached size forwarded]
  subst size
  by_cases defined : r.defined = true
  · obtain ⟨s,sent,socket,fails⟩ := forwardOutcome defined forwarded
    have unsent : s.socket.sent = w.client.sent → s.returned < 0 := by
      obtain ⟨rest,payload⟩ := payloadHead header bodyLength compression w.rpc upstream
      rw [payload] at sent
      exact nothingSent nonempty sent
    have first : started w.client.sent.length w.client r.client =
        if s.socket.sent = w.client.sent then [] else [0] := by rw [started,socket,Nat.sub_self]
    rw [and_iff_right (by simp [defined]),lateExact reached sent,headlessExact reached sent,← fails]
    by_cases negative : r.returned < 0
    · rw [if_pos negative] at ran
      rw [and_iff_right negative]
      exact pagedExact sent unsent socket defined first (failed ran)
    · rw [if_neg negative] at ran
      cases Option.some.inj ran
      have some_ : s.socket.sent ≠ w.client.sent := fun same => negative (fails.mpr (.inl (unsent same)))
      exact iff_of_true ⟨defined,.inl (first.trans (if_neg some_))⟩ ⟨fun h => negative h.1,fun h => some_ h.1⟩
  · have kept : i.defined = r.defined := by
      split at ran
      · exact (failed ran).defined
      · cases Option.some.inj ran
        rfl
    exact iff_of_false (fun one => defined (kept.symm.trans one.1)) fun h => h.1 (Bool.not_eq_true _ ▸ defined)

end

def cutOff : World where
  request := ⟨ascii "GET http://h/ HTTP/1.0\r\nHost: h\r\n\r\n",List.replicate 50 (.upTo 0)⟩
  behind := []
  client := ⟨[],List.replicate 9 (.upTo 9999)⟩
  compress := false
  allocated := true
  resolved := true
  shared := none
  socket := true
  connect := true
  server := ⟨[],[.upTo 999]⟩
  upstream := ⟨ascii "HTTP/1.0 200 OK\r\nContent-Length: 5\r\n\r\nab",
    List.replicate 38 (.upTo 0) ++ [.upTo 9,.error]⟩
  rpc := fun _ => .callFault

theorem cutOffStarts : (handleClient cutOff).map Iteration.starts = some [0,40] := by decide +kernel

end IttyBittyServer.ProxyIteration
