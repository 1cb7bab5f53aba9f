import IttyBittyServer.Coupling
import IttyBittyServer.Run
import IttyBittyServer.Response

/-! One call of sendShared, by a caller who holds the node's mutex. What the other side and
the other threads do to the node happens while the caller waits, when it has let the mutex go. -/
namespace IttyBittyServer.SharedSend
open MemList ProcessShared Run

/- What a signal offers: receiveShared's copy, the count that it goes by, and the caller's state. -/
structure Signal where
  chunk : Option (List UInt8)
  spaceUsed : Nat
  state : StateT
  deriving DecidableEq, Repr

structure State where
  node : Memnode
  pc : SendPC
  x : Send
  signals : List Signal
  deriving DecidableEq, Repr

def start (node : Memnode) (header body : List UInt8) : State := ⟨node,.role,Send.call header body,[]⟩

inductive Event where
  | own (woken : Tid)
  | others (node : Memnode)
  deriving DecidableEq, Repr

def Event.isOwn : Event → Bool
  | .own _ => true
  | .others _ => false

def signalled (s : State) : Signal :=
  ⟨receiveShared s.node,s.node.spaceUsed,if s.x.isServer then s.node.serverState else s.node.proxyState⟩

def step (me : Tid) (s : State) : Event → Option State
  | .own woken => do
    let (node,pc,x) ← sendShared me woken s.node s.x s.pc
    some ⟨node,pc,x,if s.pc = .signal then s.signals ++ [signalled s] else s.signals⟩
  | .others node => if s.pc = .waiting then some { s with node } else none

def passes (n : Nat) : Nat := (n + segmentSize - 1) / segmentSize

def chunk (data : List UInt8) (i : Nat) : List UInt8 := (data.drop (i * segmentSize)).take segmentSize

def pass (data : List UInt8) (isServer : Bool) (i : Nat) : Signal :=
  ⟨some (chunk data i),(chunk data i).length,
    if i + 1 < passes data.length then if isServer then .waitingContPrxy else .waitingContSrvr else .complete⟩

section
variable {me : Tid} {data : List UInt8} {isServer : Bool} {s t : State}

theorem passesExact {n i : Nat} : i < passes n ↔ i * segmentSize < n := by
  unfold passes
  rw [Nat.lt_iff_add_one_le,Nat.le_div_iff_mul_le (by decide)]
  have positive : 0 < segmentSize := by decide
  rw [Nat.succ_mul]
  omega

theorem chunkLength (data : List UInt8) (i : Nat) :
    (chunk data i).length = min segmentSize (data.length - i * segmentSize) := by
  simp [chunk]

theorem chunksFront (data : List UInt8) (k : Nat) :
    ((List.range k).map (chunk data)).flatten = data.take (k * segmentSize) := by
  induction k with
  | zero => simp
  | succ k ih =>
    rw [List.range_succ,List.map_append,List.flatten_append,ih,Nat.succ_mul,List.take_add]
    simp [chunk]

theorem chunksWhole (data : List UInt8) : ((List.range (passes data.length)).map (chunk data)).flatten = data := by
  rw [chunksFront]
  refine List.take_of_length_le (Nat.le_of_not_lt fun more => ?_)
  exact Nat.lt_irrefl _ (passesExact.mpr more)

def Point (data : List UInt8) (isServer : Bool) (k : Nat) (s : State) : Prop :=
  match s.pc with
  | .role => k = 0 ∧ s.x.totalBytes = 0 ∧ (isServer = true ↔ s.node.proxyState = .complete)
  | .loop | .wait | .waiting => s.x.totalBytes = min (k * segmentSize) data.length
  | .flag | .map => s.x.totalBytes = k * segmentSize ∧ k < passes data.length
  | .mark => s.x.totalBytes = min ((k + 1) * segmentSize) data.length ∧ k < passes data.length ∧
      receiveShared s.node = some (chunk data k) ∧ s.node.spaceUsed = (chunk data k).length
  | .signal => s.x.totalBytes = min ((k + 1) * segmentSize) data.length ∧ k < passes data.length ∧
      signalled s = pass data isServer k
  | .returned => k = passes data.length

structure Sending (data : List UInt8) (isServer : Bool) (s : State) : Prop where
  whole : s.x.data = data
  role : s.pc ≠ .role → s.x.isServer = isServer
  within : s.signals.length ≤ passes data.length
  signals : s.signals = (List.range s.signals.length).map (pass data isServer)
  point : Point data isServer s.signals.length s

theorem startSending (node : Memnode) (header body : List UInt8) :
    Sending (header ++ body) (decide (node.proxyState = .complete)) (start node header body) :=
  ⟨rfl,fun other => absurd rfl other,Nat.zero_le _,rfl,rfl,rfl,by simp [start]⟩

theorem writtenChunk (node : Memnode) {k : Nat} (more : k < passes data.length) :
    receiveShared (setMapping node (chunk data k)) = some (chunk data k) ∧
      (setMapping node (chunk data k)).spaceUsed = (chunk data k).length := by
  have some_ : (chunk data k).length ≠ 0 := by
    rw [chunkLength]
    have below := passesExact.mp more
    have positive : 0 < segmentSize := by decide
    omega
  refine ⟨?_,rfl⟩
  simp [receiveShared,setMapping,some_]

theorem moreExact {x : Send} {k : Nat} (whole : x.data = data)
    (total : x.totalBytes = min (k * segmentSize) data.length) : x.more = true ↔ k < passes data.length := by
  rw [passesExact,Send.more,decide_eq_true_iff,whole,total]
  omega

theorem quietSending {woken : Tid} {node : Memnode} {pc : SendPC} {x : Send} (inv : Sending data isServer s)
    (quiet : s.pc ≠ .signal) (moves : sendShared me woken s.node s.x s.pc = some (node,pc,x))
    (next : step me s (.own woken) = some t) (same : x.data = s.x.data) (role : pc ≠ .role → x.isServer = isServer)
    (point : Point data isServer s.signals.length ⟨node,pc,x,s.signals⟩) : Sending data isServer t := by
  simp only [step,moves,if_neg quiet,bind,Option.bind_some] at next
  cases Option.some.inj next
  exact ⟨same.trans inv.whole,role,inv.within,inv.signals,point⟩

theorem mapPoint {k : Nat} (whole : s.x.data = data) (total : s.x.totalBytes = k * segmentSize)
    (more : k < passes data.length) (signals : List Signal) :
    Point data isServer k ⟨setMapping s.node ((s.x.data.drop s.x.totalBytes).take s.x.toWrite),.mark,
      { s.x with totalBytes := s.x.totalBytes + s.x.toWrite },signals⟩ := by
  have write := Coupling.toWriteExact s.x
  rw [whole,total] at write
  have below := passesExact.mp more
  have cut : (data.drop (k * segmentSize)).take s.x.toWrite = chunk data k := by
    rw [write,chunk,← List.length_drop,List.take_eq_take_min,Nat.min_assoc,Nat.min_self,← List.take_eq_take_min]
  rw [whole,total,cut]
  refine ⟨?_,more,writtenChunk s.node more⟩
  have next : (k + 1) * segmentSize = k * segmentSize + segmentSize := Nat.succ_mul _ _
  dsimp only
  rw [write,next]
  omega

theorem signalSending {woken : Tid} (inv : Sending data isServer s) (here : s.pc = .signal)
    (next : step me s (.own woken) = some t) : Sending data isServer t := by
  have point := inv.point
  have role := inv.role (by rw [here]; simp)
  simp only [Point,here] at point
  obtain ⟨total,more,offered⟩ := point
  simp only [step,here,sendShared,bind,Option.bind_eq_some_iff] at next
  obtain ⟨_,⟨node,woke,moved⟩,last⟩ := next
  cases Option.some.inj moved
  cases Option.some.inj last
  simp only [if_true,offered]
  have signals : s.signals ++ [pass data isServer s.signals.length] =
      (List.range (s.signals.length + 1)).map (pass data isServer) := by
    rw [List.range_succ,List.map_append,← inv.signals]
    rfl
  have size : (s.signals ++ [pass data isServer s.signals.length]).length = s.signals.length + 1 := by simp
  refine ⟨inv.whole,fun _ => role,by rw [size]; exact more,by rw [size]; exact signals,?_⟩
  rw [size]
  split <;> exact total

theorem markedSignal {node : Memnode} {x : Send} {k : Nat} {signals : List Signal} (server : x.isServer = isServer)
    (again : x.more = true ↔ k + 1 < passes data.length) (offered : receiveShared node = some (chunk data k))
    (size : node.spaceUsed = (chunk data k).length) :
    signalled ⟨setState node x.isServer (if x.more then if x.isServer then .waitingContPrxy else .waitingContSrvr
      else .complete),.signal,x,signals⟩ = pass data isServer k := by
  have copied : ∀ s, receiveShared (setState node x.isServer s) = some (chunk data k) := fun s => by
    rw [← offered]
    simp [receiveShared]
  rw [signalled,pass,copied,setStateSpaceUsed,size,server]
  refine congrArg (Signal.mk _ _) ?_
  by_cases more : k + 1 < passes data.length
  · rw [if_pos more,again.mpr more]
    cases isServer <;> rfl
  · rw [if_neg more,Bool.eq_false_iff.mpr (mt again.mp more)]
    cases isServer <;> rfl

theorem ownSending {woken : Tid} (inv : Sending data isServer s) (next : step me s (.own woken) = some t) :
    Sending data isServer t := by
  obtain ⟨node,pc,x,signals⟩ := s
  have point := inv.point
  have whole : x.data = data := inv.whole
  have known : pc ≠ .role → x.isServer = isServer := inv.role
  cases pc with
  | role =>
    obtain ⟨none_,total,server⟩ := point
    have total : x.totalBytes = 0 := total
    have server : isServer = true ↔ node.proxyState = .complete := server
    refine quietSending inv (by simp) rfl next rfl (fun _ => ?_) ?_
    · exact Bool.eq_iff_iff.mpr (by rw [decide_eq_true_iff,server])
    · simp only [Point]
      rw [none_,total]
      simp
  | loop =>
    have total : x.totalBytes = min (signals.length * segmentSize) data.length := point
    have server := known (by simp)
    have more := moreExact whole total
    refine quietSending inv (by simp) rfl next rfl (fun _ => server) ?_
    split
    · rename_i below
      have below := more.mp below
      have inside := passesExact.mp below
      exact ⟨by dsimp only; omega,below⟩
    · rename_i last
      exact Nat.le_antisymm inv.within (Nat.le_of_not_lt fun below => last (more.mpr below))
  | flag => exact quietSending inv (by simp) rfl next rfl (fun _ => known (by simp)) point
  | map =>
    exact quietSending inv (by simp) rfl next rfl (fun _ => known (by simp))
      (mapPoint (s := ⟨node,.map,x,signals⟩) whole point.1 point.2 signals)
  | mark =>
    obtain ⟨total,more,offered,size⟩ := point
    have total : x.totalBytes = min ((signals.length + 1) * segmentSize) data.length := total
    have server := known (by simp)
    have again := moreExact whole total
    refine quietSending inv (by simp) rfl next rfl (fun _ => server) ⟨total,more,?_⟩
    exact markedSignal server again offered size
  | signal => exact signalSending inv rfl next
  | wait => exact quietSending inv (by simp) rfl next rfl (fun _ => known (by simp)) point
  | waiting =>
    have moved := next
    simp only [step,sendShared,bind,Option.bind_eq_some_iff] at moved
    obtain ⟨_,⟨node',got,_⟩,_⟩ := moved
    have moves : sendShared me woken node x .waiting = some (node',.loop,x) := by
      simp only [sendShared,got,bind,Option.bind_some]
    exact quietSending inv (by simp) moves next rfl (fun _ => known (by simp)) point
  | returned => simp [step,sendShared] at next

theorem stepSending {e : Event} (inv : Sending data isServer s) (next : step me s e = some t) :
    Sending data isServer t := by
  cases e with
  | own woken => exact ownSending inv next
  | others node =>
    simp only [step] at next
    split at next <;> try contradiction
    rename_i waits
    cases Option.some.inj next
    refine ⟨inv.whole,inv.role,inv.within,inv.signals,?_⟩
    have point := inv.point
    simp only [Point,waits] at point ⊢
    exact point

def left (data : List UInt8) (s : State) : Nat :=
  let rest := 7 * (passes data.length - s.signals.length)
  match s.pc with
  | .role => rest + 2
  | .loop => rest + 1
  | .flag => rest
  | .map => rest - 1
  | .mark => rest - 2
  | .signal => rest - 3
  | .wait => rest + 3
  | .waiting => rest + 2
  | .returned => 0

theorem quietLeft {woken : Tid} {node : Memnode} {pc : SendPC} {x : Send} (quiet : s.pc ≠ .signal)
    (moves : sendShared me woken s.node s.x s.pc = some (node,pc,x)) (next : step me s (.own woken) = some t)
    (less : left data ⟨node,pc,x,s.signals⟩ < left data s) : left data t < left data s := by
  simp only [step,moves,if_neg quiet,bind,Option.bind_some] at next
  cases Option.some.inj next
  exact less

theorem ownLowers {woken : Tid} (inv : Sending data isServer s) (next : step me s (.own woken) = some t) :
    left data t < left data s := by
  obtain ⟨node,pc,x,signals⟩ := s
  have point := inv.point
  cases pc with
  | role | wait => exact quietLeft (by simp) rfl next (by simp [left])
  | loop =>
    refine quietLeft (by simp) rfl next ?_
    cases x.more <;> simp [left]
  | flag | map | mark =>
    have more : signals.length < passes data.length := by
      first | exact point.2.1 | exact point.2
    refine quietLeft (by simp) rfl next ?_
    simp only [left]
    omega
  | signal =>
    have more : signals.length < passes data.length := point.2.1
    simp only [step,sendShared,bind,Option.bind_eq_some_iff] at next
    obtain ⟨_,⟨node,woke,moved⟩,last⟩ := next
    cases Option.some.inj moved
    cases Option.some.inj last
    simp only [left,if_true,List.length_append,List.length_singleton]
    generalize (x.more || x.isServer) = again
    cases again <;> simp only [Bool.false_eq_true,if_true,if_false] <;> omega
  | waiting =>
    have moved := next
    simp only [step,sendShared,bind,Option.bind_eq_some_iff] at moved
    obtain ⟨_,⟨node',got,_⟩,_⟩ := moved
    have moves : sendShared me woken node x .waiting = some (node',.loop,x) := by
      simp only [sendShared,got,bind,Option.bind_some]
    exact quietLeft (by simp) moves next (by simp [left])
  | returned => simp [step,sendShared] at next

theorem othersKeep {node : Memnode} (next : step me s (.others node) = some t) : left data t = left data s := by
  simp only [step] at next
  split at next <;> try contradiction
  cases Option.some.inj next
  rfl

theorem runBounded {events : List Event} (inv : Sending data isServer s) (ran : run (step me) s events = some t) :
    events.countP Event.isOwn + left data t ≤ left data s := by
  induction events generalizing s with
  | nil => cases Option.some.inj ran; simp
  | cons e rest ih =>
    obtain ⟨u,next,later⟩ := runCons ran
    have bound := ih (stepSending inv next) later
    cases e with
    | own woken =>
      have lower := ownLowers inv next
      simp only [List.countP_cons,Event.isOwn,if_true]
      omega
    | others node =>
      have same := @othersKeep me data s u node next
      simp only [List.countP_cons,Event.isOwn]
      simp
      omega

end

/-- Whichever side calls it, sendShared offers the header and the body in as few chunks as the
segment allows, says with each whether more follow, and returns once each wait has been answered. -/
theorem chunkedSend {me : Tid} {node : Memnode} {header body : List UInt8} {events : List Event} {s : State}
    (ran : run (step me) (start node header body) events = some s) :
    (∀ i sig, s.signals[i]? = some sig → 1 ≤ sig.spaceUsed ∧ sig.spaceUsed ≤ segmentSize ∧
      sig.chunk.map List.length = some sig.spaceUsed ∧
      sig.state = if i + 1 = passes (header ++ body).length then .complete
        else if node.proxyState = .complete then .waitingContPrxy else .waitingContSrvr) ∧
    (s.pc = .returned → s.signals.length = passes (header ++ body).length ∧
      (s.signals.map fun sig => sig.chunk.getD []).flatten = header ++ body) ∧
    events.countP Event.isOwn ≤ 7 * passes (header ++ body).length + 2 ∧
    (s.pc ≠ .returned → (s.pc = .waiting → me ∉ s.node.condition ∧ s.node.mutex = none) →
      ∃ woken t, step me s (.own woken) = some t) ∧
    (∀ status title headers mime c c',
      header = Response.snprintf 9999 (Response.responseHeader status title headers mime body.length) →
      Sockets.NoError c.answers → Response.sendResponse status title headers mime body.length body c = some c' →
      c'.sent = c.sent ++ (header ++ body)) := by
  have begins := startSending node header body
  have inv := everyRun begins (fun _ _ _ inv next => stepSending inv next) ran
  refine ⟨fun i sig here => ?_,fun returned => ?_,?_,fun going free => ?_,?_⟩
  · have below : i < s.signals.length := (List.getElem?_eq_some_iff.mp here).1
    rw [inv.signals,List.getElem?_map,List.getElem?_range below] at here
    cases Option.some.inj here
    have more : i < passes (header ++ body).length := Nat.lt_of_lt_of_le below inv.within
    have inside := passesExact.mp more
    have size := chunkLength (header ++ body) i
    have positive : 0 < segmentSize := by decide
    refine ⟨by simp only [pass]; omega,by simp only [pass]; omega,rfl,?_⟩
    by_cases last : i + 1 = passes (header ++ body).length
    · rw [if_pos last,pass,if_neg (by omega)]
    · rw [if_neg last,pass,if_pos (by omega)]
      by_cases server : node.proxyState = .complete <;> simp [server]
  · have all : s.signals.length = passes (header ++ body).length := by
      have point := inv.point
      simpa only [Point,returned] using point
    refine ⟨all,?_⟩
    rw [inv.signals,all,List.map_map]
    exact chunksWhole (header ++ body)
  · have bound := runBounded begins ran
    have first : left (header ++ body) (start node header body) = 7 * passes (header ++ body).length + 2 := rfl
    omega
  · obtain ⟨woken,r,moves⟩ := Coupling.sendMoves me s.node s.x going free
    exact ⟨woken,_,by simp only [step,moves,bind,Option.bind_some]; rfl⟩
  · rintro status title headers mime c c' rfl accepted sent
    exact Response.responseSent accepted sent

theorem serverSends : ∃ s,
    run (step (.server 0)) (start ⟨[7,7,7],3,.complete,.busy,some (.server 0),[]⟩ [1] [2])
      [.own (.proxy 0),.own (.proxy 0),.own (.proxy 0),.own (.proxy 0),.own (.proxy 0),.own (.proxy 0),
        .own (.proxy 0),.others ⟨[1,2,7],2,.complete,.complete,none,[]⟩,.own (.proxy 0),.own (.proxy 0)] = some s ∧
      s.pc = .returned ∧ (s.signals.map fun sig => sig.chunk.getD []).flatten = [1,2] := by
  have ran : run (step (.server 0)) (start ⟨[7,7,7],3,.complete,.busy,some (.server 0),[]⟩ [1] [2])
      [.own (.proxy 0),.own (.proxy 0),.own (.proxy 0),.own (.proxy 0),.own (.proxy 0),.own (.proxy 0),
        .own (.proxy 0),.others ⟨[1,2,7],2,.complete,.complete,none,[]⟩,.own (.proxy 0),.own (.proxy 0)] =
      some ⟨⟨[1,2,7],2,.complete,.complete,some (.server 0),[]⟩,.returned,⟨[1,2],2,true⟩,
        [⟨some [1,2],2,.complete⟩]⟩ := by decide +kernel
  exact ⟨_,ran,rfl,((chunkedSend ran).2.1 rfl).2⟩

end IttyBittyServer.SharedSend
