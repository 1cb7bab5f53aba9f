import Mathlib.Algebra.Group.Action.Defs
import Mathlib.Algebra.BigOperators.Ring.Finset
import Mathlib.Algebra.BigOperators.Ring.List
import Mathlib.Algebra.Order.BigOperators.Group.Finset
import IttyBittyServer.Shutdown

/-! The way from SIGINT to cleanUpGlobals(): how many steps it can take, where it can stop,
and what destroyAll() finds at its end. A blocked accept never has to return for the workers
to end. -/
namespace IttyBittyServer.Teardown
open ConList Run Interrupt
open WorkerPool (Worker WorkerPc MainPc WorkerOk HandlerOk mainStep handlerStep workerStep mainMove
  handlerMove workerMove enqueueLinked dequeueLinked gotoOthers)
open Shutdown (Joined)

def destroyLoop (heap : Heap) : Nat → Option Nat → Option Heap
  | _,none => some heap
  | 0,some _ => none
  | fuel + 1,some prev => do
    let node ← heap prev
    destroyLoop (free heap prev) fuel node.next

def destroyAll (heap : Heap) (fuel : Nat) (list : Conlist) : Option Heap :=
  destroyLoop heap fuel list.head

def workerRank (s : WorkerPool.State) (w : Nat) : Nat := match (s.workers w).pc with
  | .lock => 3
  | .isEmpty => 2
  | .condWait | .removeHead => 1
  | .waiting => if w ∈ s.freeConn then 0 else 3
  | .unlock => 6
  | .action => 5
  | .serve => 4
  | .exited | .crashed => 0

def handlerLeft (numThreads : Nat) (s : WorkerPool.State) : Nat :=
  let each := s.handler.remaining * (3 * numThreads + 11)
  match s.handler.pc with
  | .idle => 0
  | .loop => each + 1
  | .lock => each
  | .addTail => each - 1
  | .broadcast => each + 3 * numThreads + 3
  | .unlock => each + 2

/- main still passes through accept once if its entry is SHARED. -/
def mainLeft (numThreads : Nat) (s : WorkerPool.State) : Nat :=
  let again := if s.main.entry.action = .shared then 3 * numThreads + 12 else 1
  match s.main.pc with
  | .loop => 1
  | .poll => 6 * numThreads + 24
  | .accept => 3 * numThreads + 12
  | .lock => again + 3 * numThreads + 10
  | .addTail => again + 3 * numThreads + 9
  | .broadcast => again + 3 * numThreads + 2
  | .unlock => again + 1
  | .cleanUp => 0

def rank (numThreads : Nat) (s : WorkerPool.State) : Nat :=
  ∑ w ∈ Finset.range numThreads, workerRank s w + 6 * s.queue.length + handlerLeft numThreads s +
    mainLeft numThreads s

def moves (event : Event) : Nat := if (mover event).isSome then 1 else 0

def wakes : Event → Nat
  | .spurious _ => 1
  | _ => 0

def Stuck (step : State → Event → Option State) (s : State) : Prop := ∀ event x, mover event = some x →
  (x = .main → s.pool.main.pc ≠ .accept) → step s event = none

structure Ended (numThreads : Nat) (s : State) : Prop where
  handler : s.pool.handler.pc = .idle
  workers : ∀ w < numThreads, (s.pool.workers w).pc = .exited
  main : s.pool.main.pc = .cleanUp ∨ s.pool.main.pc = .accept

section
variable {numThreads : Nat} {p q : WorkerPool.State}

theorem sumMoved {f g : Nat → Nat} {w n : Nat} (others : ∀ v, v ≠ w → g v = f v) (bound : w < n) :
    ∑ v ∈ Finset.range n, g v + f w = ∑ v ∈ Finset.range n, f v + g w := by
  have mem : w ∈ Finset.range n := Finset.mem_range.mpr bound
  have same : ∑ v ∈ (Finset.range n).erase w, g v = ∑ v ∈ (Finset.range n).erase w, f v :=
    Finset.sum_congr rfl fun v hv => others v (Finset.ne_of_mem_erase hv)
  have before := Finset.add_sum_erase _ f mem
  have after := Finset.add_sum_erase _ g mem
  omega

theorem rankWoken (workers : q.workers = p.workers) (v : Nat) : workerRank q v ≤ workerRank p v + 3 := by
  unfold workerRank
  rw [workers]
  cases (p.workers v).pc <;> simp only [] <;> try omega
  split <;> omega

theorem sumWoken (workers : q.workers = p.workers) : ∑ v ∈ Finset.range numThreads, workerRank q v ≤
    ∑ v ∈ Finset.range numThreads, workerRank p v + 3 * numThreads := by
  have each := Finset.sum_le_sum fun v (_ : v ∈ Finset.range numThreads) => rankWoken workers v
  rw [Finset.sum_add_distrib,Finset.sum_const,Finset.card_range,smul_eq_mul] at each
  omega

theorem rankSame {v : Nat} (worker : q.workers v = p.workers v) (waits : v ∈ q.freeConn ↔ v ∈ p.freeConn) :
    workerRank q v = workerRank p v := by
  unfold workerRank
  rw [worker]
  simp only [waits]

theorem sumSame (workers : q.workers = p.workers) (freeConn : q.freeConn = p.freeConn) :
    ∑ v ∈ Finset.range numThreads, workerRank q v = ∑ v ∈ Finset.range numThreads, workerRank p v :=
  Finset.sum_congr rfl fun v _ => rankSame (by rw [workers]) (by rw [freeConn])

theorem rankMoved (workers : q.workers = p.workers) (freeConn : q.freeConn = p.freeConn) :
    rank numThreads q + (6 * p.queue.length + handlerLeft numThreads p + mainLeft numThreads p) =
      rank numThreads p + (6 * q.queue.length + handlerLeft numThreads q + mainLeft numThreads q) := by
  have same := @sumSame numThreads p q workers freeConn
  unfold rank
  omega

theorem rankBroadcast (workers : q.workers = p.workers) :
    rank numThreads q + (6 * p.queue.length + handlerLeft numThreads p + mainLeft numThreads p) ≤
      rank numThreads p + (6 * q.queue.length + handlerLeft numThreads q + mainLeft numThreads q) +
        3 * numThreads := by
  have woken := @sumWoken numThreads p q workers
  unfold rank
  omega

theorem mainPays {fresh answer} (inv : WorkerPool.Inv numThreads p) (off : p.loop = false)
    (h : mainStep p fresh answer = some q) : rank numThreads q + 1 ≤ rank numThreads p := by
  cases mainMove h with
  | loop pc | idle pc | found pc | refused pc | accepted pc | lock pc free =>
    generalize moved : WorkerPool.State.mk _ _ _ _ _ _ _ _ _ _ = q
    have same := @rankMoved numThreads p q (by rw [← moved]) (by rw [← moved])
    have left : handlerLeft numThreads q = handlerLeft numThreads p := by rw [← moved]; rfl
    have queue : q.queue = p.queue := by rw [← moved]; rfl
    have main : mainLeft numThreads q + 1 ≤ mainLeft numThreads p := by
      rw [← moved]
      simp [mainLeft,pc,off]
      try omega
    rw [left,queue] at same
    omega
  | addTail pc added =>
    obtain ⟨_,queue,_,_,_,grown⟩ := enqueueLinked inv.linked added
    generalize moved : WorkerPool.State.mk _ _ _ _ _ _ _ _ _ _ = q
    have same := @rankMoved numThreads p q (by rw [← moved,grown]) (by rw [← moved,grown])
    have longer : q.queue.length = p.queue.length + 1 := by
      rw [← moved]
      exact (congrArg List.length queue).trans (by simp)
    have left : handlerLeft numThreads q = handlerLeft numThreads p := by rw [← moved,grown]; rfl
    have main : mainLeft numThreads q + 7 = mainLeft numThreads p := by
      rw [← moved,grown]
      simp only [mainLeft,pc]
    omega
  | broadcast pc =>
    generalize moved : WorkerPool.State.mk _ _ _ _ _ _ _ _ _ _ = q
    have woken := @rankBroadcast numThreads p q (by rw [← moved])
    have left : handlerLeft numThreads q = handlerLeft numThreads p := by rw [← moved]; rfl
    have queue : q.queue = p.queue := by rw [← moved]; rfl
    have main : mainLeft numThreads q + 3 * numThreads + 1 = mainLeft numThreads p := by
      rw [← moved]
      simp only [mainLeft,pc]
      omega
    rw [left,queue] at woken
    omega
  | unlock pc =>
    generalize moved : WorkerPool.State.mk _ _ _ _ _ _ _ _ _ _ = q
    have same := @rankMoved numThreads p q (by rw [← moved]; rfl) (by rw [← moved]; rfl)
    have left : handlerLeft numThreads q = handlerLeft numThreads p := by rw [← moved]; rfl
    have queue : q.queue = p.queue := by rw [← moved]; rfl
    have main : mainLeft numThreads q + 1 = mainLeft numThreads p := by
      rw [← moved]
      by_cases shared : p.main.entry.action = .shared <;> simp [mainLeft,pc,shared]
    rw [left,queue] at same
    omega

theorem handlerPays {fresh} (inv : WorkerPool.Inv numThreads p) (h : handlerStep p fresh = some q) :
    rank numThreads q + 1 ≤ rank numThreads p := by
  have ok := inv.handler
  cases handlerMove h with
  | loop pc | unlock pc =>
    generalize moved : WorkerPool.State.mk _ _ _ _ _ _ _ _ _ _ = q
    have same := @rankMoved numThreads p q (moved ▸ rfl) (moved ▸ rfl)
    have main : mainLeft numThreads q = mainLeft numThreads p := by rw [← moved]; rfl
    have queue : q.queue = p.queue := by rw [← moved]; rfl
    have left : handlerLeft numThreads q + 1 ≤ handlerLeft numThreads p := by
      rw [← moved]
      by_cases none : p.handler.remaining = 0 <;> simp [handlerLeft,pc,none]
    rw [main,queue] at same
    omega
  | lock pc free =>
    simp only [HandlerOk,pc] at ok
    generalize moved : WorkerPool.State.mk _ _ _ _ _ _ _ _ _ _ = q
    have same := @rankMoved numThreads p q (by rw [← moved]) (by rw [← moved])
    have main : mainLeft numThreads q = mainLeft numThreads p := by rw [← moved]; rfl
    have queue : q.queue = p.queue := by rw [← moved]; rfl
    have worth : 0 < p.handler.remaining * (3 * numThreads + 11) := Nat.mul_pos ok (by omega)
    have left : handlerLeft numThreads q + 1 ≤ handlerLeft numThreads p := by
      rw [← moved]
      simp only [handlerLeft,pc]
      omega
    rw [main,queue] at same
    omega
  | addTail pc added =>
    simp only [HandlerOk,pc] at ok
    obtain ⟨_,queue,_,_,_,grown⟩ := enqueueLinked inv.linked added
    generalize moved : WorkerPool.State.mk _ _ _ _ _ _ _ _ _ _ = q
    have same := @rankMoved numThreads p q (by rw [← moved,grown]) (by rw [← moved,grown])
    have longer : q.queue.length = p.queue.length + 1 := by
      rw [← moved]
      exact (congrArg List.length queue).trans (by simp)
    have main : mainLeft numThreads q = mainLeft numThreads p := by rw [← moved,grown]; rfl
    have left : handlerLeft numThreads q + 7 = handlerLeft numThreads p := by
      obtain ⟨n,more⟩ := Nat.exists_eq_add_one_of_ne_zero (Nat.ne_of_gt ok.2)
      rw [← moved,grown]
      simp only [handlerLeft,pc,more,Nat.add_sub_cancel,Nat.add_mul]
      omega
    omega
  | broadcast pc =>
    generalize moved : WorkerPool.State.mk _ _ _ _ _ _ _ _ _ _ = q
    have woken := @rankBroadcast numThreads p q (by rw [← moved])
    have main : mainLeft numThreads q = mainLeft numThreads p := by rw [← moved]; rfl
    have queue : q.queue = p.queue := by rw [← moved]; rfl
    have left : handlerLeft numThreads q + 3 * numThreads + 1 = handlerLeft numThreads p := by
      rw [← moved]
      simp only [handlerLeft,pc]
      omega
    rw [main,queue] at woken
    omega

theorem workerMoves {w : Nat} (bound : w < numThreads) (main : q.main = p.main) (handler : q.handler = p.handler)
    (others : ∀ v, v ≠ w → q.workers v = p.workers v)
    (waits : ∀ v, v ≠ w → (v ∈ q.freeConn ↔ v ∈ p.freeConn))
    (pays : workerRank q w + 6 * q.queue.length + 1 ≤ workerRank p w + 6 * p.queue.length) :
    rank numThreads q + 1 ≤ rank numThreads p := by
  have moved := sumMoved (fun v other => rankSame (others v other) (waits v other)) bound
  have left : handlerLeft numThreads q = handlerLeft numThreads p := by simp only [handlerLeft,handler]
  have later : mainLeft numThreads q = mainLeft numThreads p := by simp only [mainLeft,main]
  unfold rank
  omega

theorem workerPays {w : Nat} (inv : WorkerPool.Inv numThreads p) (bound : w < numThreads)
    (h : workerStep p w = some q) : rank numThreads q + 1 ≤ rank numThreads p := by
  cases workerMove (inv.workers w) h with
  | lock pc | empty pc | nonempty pc | unlock pc | last pc | client pc | serve pc =>
    refine workerMoves bound rfl rfl (gotoOthers _ _ _) (fun _ _ => Iff.rfl) ?_
    simp only [workerRank,pc,WorkerPool.State.goto,WorkerPool.State.queue,WorkerPool.State.release,
      Function.update_self]
    omega
  | wake pc =>
    have woken : w ∉ p.freeConn := by
      intro waits
      simp [workerStep,pc,waits] at h
    refine workerMoves bound rfl rfl (gotoOthers _ _ _) (fun _ _ => Iff.rfl) ?_
    simp only [workerRank,pc,woken,if_false,WorkerPool.State.goto,WorkerPool.State.queue,Function.update_self]
    omega
  | condWait pc =>
    refine workerMoves bound rfl rfl (gotoOthers _ _ _) (fun v other => ?_) ?_
    · exact ⟨fun mem => (List.mem_cons.mp mem).resolve_left other,List.mem_cons_of_mem _⟩
    · simp only [workerRank,pc,WorkerPool.State.goto,WorkerPool.State.queue,WorkerPool.State.release,
        Function.update_self,List.mem_cons_self,if_true]
      omega
  | removeHead pc own going nonempty takes =>
    obtain ⟨a,c,list,_,queue,_,rfl⟩ := dequeueLinked inv.linked nonempty going pc takes
    have shorter := congrArg List.length queue
    refine workerMoves bound rfl rfl (gotoOthers _ _ _) (fun _ _ => Iff.rfl) ?_
    rw [shorter,List.length_cons]
    simp only [workerRank,pc,WorkerPool.State.goto,Function.update_self]
    omega

theorem spuriousPays (w : Nat) :
    rank numThreads {p with freeConn := p.freeConn.erase w} ≤ rank numThreads p + 3 := by
  generalize moved : WorkerPool.State.mk _ _ _ _ _ _ _ _ _ _ = q
  have left : handlerLeft numThreads q = handlerLeft numThreads p := by rw [← moved]; rfl
  have later : mainLeft numThreads q = mainLeft numThreads p := by rw [← moved]; rfl
  have queue : q.queue = p.queue := by rw [← moved]; rfl
  have others : ∀ v, v ≠ w → workerRank q v = workerRank p v := fun v other => by
    rw [← moved]
    exact rankSame rfl (List.mem_erase_of_ne other)
  have woken := rankWoken (p := p) (q := q) (by rw [← moved]) w
  unfold rank
  rw [left,later,queue]
  by_cases bound : w < numThreads
  · have moved := sumMoved others bound
    omega
  · have same : ∑ v ∈ Finset.range numThreads, workerRank q v = ∑ v ∈ Finset.range numThreads, workerRank p v :=
      Finset.sum_congr rfl fun v hv => others v fun eq => bound (eq ▸ Finset.mem_range.mp hv)
    omega

def Stopping (numThreads : Nat) (s : State) : Prop := Inv numThreads s ∧ s.pool.loop = false

theorem stoppingKept {s t : State} {event} (ok : Stopping numThreads s) (h : step numThreads s event = some t) :
    Stopping numThreads t := by
  obtain ⟨inv,off⟩ := ok
  refine ⟨stepInv inv h,?_⟩
  cases stepMove h with
  | sigint => simp [catchInterrupt,off]
  | main _ moves => exact (mainMoved inv.pool inv.owned moves).loop.trans off
  | handler moves => exact (handlerMoved inv.pool inv.owned moves).loop.trans off
  | worker _ _ moves => exact (workerMoved inv.pool inv.owned moves).loop.trans off
  | spurious => exact off

theorem stepPays {s t : State} {event} (ok : Stopping numThreads s) (h : step numThreads s event = some t) :
    rank numThreads t.pool + moves event ≤ rank numThreads s.pool + 3 * wakes event := by
  obtain ⟨inv,off⟩ := ok
  cases stepMove h with
  | sigint => simp [catchInterrupt,off,moves,mover,wakes]
  | main _ next => exact mainPays inv.pool off next
  | handler next => exact handlerPays inv.pool next
  | worker _ bound next => exact workerPays inv.pool bound next
  | @spurious w _ => exact spuriousPays w

/- A worker has six steps in it at most, and main the two ways through its loop. -/
theorem rankBounded : rank numThreads p ≤ p.handler.remaining * (3 * numThreads + 11) +
    6 * p.queue.length + 15 * numThreads + 27 := by
  have workers : ∑ w ∈ Finset.range numThreads, workerRank p w ≤ 6 * numThreads := by
    have each := Finset.sum_le_card_nsmul (Finset.range numThreads) (fun w => workerRank p w) 6 fun w _ => by
      unfold workerRank
      split <;> try omega
      split <;> omega
    rw [Finset.card_range,smul_eq_mul] at each
    omega
  have handler : handlerLeft numThreads p ≤ p.handler.remaining * (3 * numThreads + 11) + 3 * numThreads + 3 := by
    unfold handlerLeft
    dsimp only
    split <;> omega
  have main : mainLeft numThreads p ≤ 6 * numThreads + 24 := by
    have again : (if p.main.entry.action = .shared then 3 * numThreads + 12 else 1) ≤ 3 * numThreads + 12 := by
      split <;> omega
    unfold mainLeft
    generalize (if p.main.entry.action = .shared then 3 * numThreads + 12 else 1) = left at again
    dsimp only
    split <;> omega
  unfold rank
  omega

section
variable {s : State}

theorem stuckHolder (inv : Inv numThreads s) (stuck : Stuck (step numThreads) s) {x : WorkerPool.Tid}
    (own : s.pool.mConList = some x) (free : s.interrupted ≠ some x) : x = .handler := by
  have place := inv.owned.inside x own
  cases x with
  | handler => rfl
  | main =>
    obtain ⟨event,its,can⟩ := mainEnabled inv free own
    have blocked := stuck event _ its fun _ accepts => by simp [inside,accepts] at place
    simp [blocked] at can
  | worker w =>
    obtain ⟨event,its,can⟩ := workerEnabled inv free own
    have blocked := stuck event _ its (by simp)
    simp [blocked] at can

/- The handler comes to its end, unless its own thread holds what it is to lock. -/
theorem stuckHandler (inv : Inv numThreads s) (stuck : Stuck (step numThreads) s) (apart : ¬ s.selfBlocked) :
    s.pool.handler.pc = .idle := by
  by_contra going
  have blocked : s.pool.handler.pc = .lock ∧ s.pool.mConList ≠ none := by
    by_contra free
    obtain ⟨event,its,can⟩ := handlerEnabled inv going (by simpa using free)
    simp [stuck event _ its (by simp)] at can
  obtain ⟨x,own⟩ := Option.ne_none_iff_exists'.mp blocked.2
  have mine := stuckHolder inv stuck own fun taken => apart ⟨blocked.1,x,taken,own⟩
  have place := inv.owned.inside x own
  simp [mine,inside,blocked.1] at place

theorem stuckFree (inv : Inv numThreads s) (stuck : Stuck (step numThreads) s) (idle : s.pool.handler.pc = .idle) :
    s.interrupted = none ∧ s.pool.mConList = none := by
  have taken := inv.interrupted.mpr idle
  refine ⟨taken,?_⟩
  by_contra held
  obtain ⟨x,own⟩ := Option.ne_none_iff_exists'.mp held
  have mine := stuckHolder inv stuck own (by simp [taken])
  have place := inv.owned.inside x own
  simp [mine,inside,idle] at place

theorem stuckWorker (inv : Inv numThreads s) (stuck : Stuck (step numThreads) s) (taken : s.interrupted = none)
    (free : s.pool.mConList = none) {w : Nat} (bound : w < numThreads) :
    (s.pool.workers w).pc = .waiting ∧ w ∈ s.pool.freeConn ∨ (s.pool.workers w).pc = .exited := by
  have ok := inv.pool.workers w
  have blocked : workerStep s.pool w = none := by
    have none := stuck (.worker w) _ rfl (by simp)
    simp only [step,taken,WorkerPool.step,if_pos bound] at none
    exact Option.eq_none_iff_forall_ne_some.mpr (by simpa using none)
  unfold WorkerOk at ok
  cases pc : (s.pool.workers w).pc <;> simp only [pc,free] at ok
  case isEmpty | condWait | removeHead | unlock => cases ok.1
  case lock => simp [workerStep,pc,WorkerPool.State.acquire,free] at blocked
  case waiting =>
    refine Or.inl ⟨rfl,?_⟩
    by_contra woken
    simp [workerStep,pc,woken,WorkerPool.State.acquire,free] at blocked
  case action =>
    obtain ⟨a,c,held,found,_⟩ := ok
    simp only [workerStep,pc,held,Option.bind_some,found] at blocked
    split at blocked <;> contradiction
  case serve =>
    obtain ⟨_,a,held⟩ := ok
    simp [workerStep,pc,held] at blocked
  case exited => exact Or.inr rfl

theorem stuckMain (stuck : Stuck (step numThreads) s) (taken : s.interrupted = none) (inv : Inv numThreads s)
    (free : s.pool.mConList = none) : s.pool.main.pc = .cleanUp ∨ s.pool.main.pc = .accept := by
  have own := inv.pool.main.2
  by_cases accepts : s.pool.main.pc = .accept
  · exact Or.inr accepts
  · refine Or.inl ?_
    have blocked : mainStep s.pool 0 none = none := by
      have none := stuck (.main 0 none) _ rfl fun _ => accepts
      simp only [step,taken,WorkerPool.step] at none
      exact Option.eq_none_iff_forall_ne_some.mpr (by simpa using none)
    cases pc : s.pool.main.pc <;> simp only [pc] at own <;>
      simp_all [mainStep,WorkerPool.State.acquire]

theorem stuckEnded (ok : Stopping numThreads s) (stuck : Stuck (step numThreads) s) (apart : ¬ s.selfBlocked) :
    Ended numThreads s := by
  obtain ⟨inv,off⟩ := ok
  have idle := stuckHandler inv stuck apart
  obtain ⟨taken,free⟩ := stuckFree inv stuck idle
  refine ⟨idle,fun w bound => ?_,stuckMain stuck taken inv free⟩
  refine (stuckWorker inv stuck taken free bound).resolve_left fun ⟨pc,waits⟩ => ?_
  have quiet : ¬ s.pool.signalling := by
    rintro (pc | pc)
    · have own := inv.pool.main.2
      simp [pc,free] at own
    · simp [idle] at pc
  have empty : s.pool.queue = [] := by
    by_contra some
    rcases inv.pool.awake some with loud | none
    · exact quiet loud
    · simp [none] at waits
  have sum := inv.pool.counted.sum off
  have all : (List.range numThreads).countP s.pool.ended = (List.range numThreads).length := by
    have none : s.pool.tokens = 0 := by simp [WorkerPool.State.tokens,empty]
    have added := inv.returned off idle
    rw [List.length_range]
    omega
  have ended := List.countP_eq_length.mp all w (List.mem_range.mpr bound)
  have going := inv.pool.workers w
  simp only [WorkerOk,pc,ended] at going
  simp at going

theorem endedStuck (ended : Ended numThreads s) : Stuck (step numThreads) s ∧ ¬ s.selfBlocked := by
  refine ⟨fun event x its out => ?_,fun ⟨pc,_⟩ => by simp [ended.handler] at pc⟩
  cases event with
  | sigint | spurious => cases its
  | main fresh answer =>
    cases Option.some.inj its
    have pc := ended.main.resolve_right (out rfl)
    simp [step,WorkerPool.step,mainStep,pc]
  | handler fresh => simp [step,WorkerPool.step,handlerStep,ended.handler]
  | worker w =>
    by_cases bound : w < numThreads
    · simp [step,WorkerPool.step,workerStep,ended.workers w bound]
    · simp [step,WorkerPool.step,bound]

end

def Ranked (numThreads : Nat) (s : State) (n : Nat) : Prop := Stopping numThreads s ∧ rank numThreads s.pool = n

theorem rankedPays {s t : State} {event : Event} {n : Nat} (ranked : Ranked numThreads s n)
    (h : step numThreads s event = some t) : ∃ m, Ranked numThreads t m ∧ m + moves event ≤ n + 3 * wakes event := by
  obtain ⟨ok,rfl⟩ := ranked
  exact ⟨_,⟨stoppingKept ok h,rfl⟩,stepPays ok h⟩

theorem teardownEnds {s t : State} {more : List Event} (ok : Stopping numThreads s)
    (later : run (step numThreads) s more = some t) :
    (more.map moves).sum ≤ s.pool.handler.remaining * (3 * numThreads + 11) + 6 * s.pool.queue.length +
      15 * numThreads + 27 + 3 * (more.map wakes).sum ∧
    (Stuck (step numThreads) t ∧ ¬ t.selfBlocked ↔ Ended numThreads t) := by
  obtain ⟨n,ok,paid⟩ := @paidAlong _ _ (step numThreads) s more t _ (Ranked numThreads) (fun _ => moves)
    (fun _ a => 3 * wakes a) ⟨ok,rfl⟩ (fun _ _ _ _ => rankedPays) later
  rw [tallySum moves later,tallySum (fun a => 3 * wakes a) later] at paid
  have bound := @rankBounded numThreads s.pool
  refine ⟨?_,fun ⟨stuck,apart⟩ => stuckEnded ok.1 stuck apart,endedStuck⟩
  have woken : (more.map fun a => 3 * wakes a).sum = 3 * (more.map wakes).sum := List.sum_map_mul_left more wakes 3
  omega

/-- Once SIGINT has been taken the threads have only so many steps left, and where they come to
rest, with main perhaps in accept, every worker has ended: only a handler that waits for its
own thread can keep them from it. -/
theorem shutdownEnds {s t : State} {events more : List Event} (ran : run (step numThreads) initial events = some s)
    (off : s.pool.loop = false) (later : run (step numThreads) s more = some t) :
    (more.map moves).sum ≤ s.pool.handler.remaining * (3 * numThreads + 11) + 6 * s.pool.queue.length +
      15 * numThreads + 27 + 3 * (more.map wakes).sum ∧
    (Stuck (step numThreads) t ∧ ¬ t.selfBlocked ↔ Ended numThreads t) :=
  teardownEnds ⟨everyRun (initialInv numThreads) (fun _ _ _ => stepInv) ran,off⟩ later

end

def allSteps : List Event :=
  [.handler 0,.handler 0,.handler 7,.handler 0,.handler 0,.handler 0,.worker 0,.worker 0,.worker 0,.worker 0,
    .worker 0,.main 0 none]

theorem shutdownEndsOne : ∃ s t, run (step 1) initial [.sigint .main] = some s ∧
    run (step 1) s allSteps = some t ∧ Ended 1 t ∧
    ((allSteps.map moves).sum ≤ s.pool.handler.remaining * (3 * 1 + 11) + 6 * s.pool.queue.length +
      15 * 1 + 27 + 3 * (allSteps.map wakes).sum ∧ (Stuck (step 1) t ∧ ¬ t.selfBlocked ↔ Ended 1 t)) := by
  have taken : (run (step 1) initial [.sigint .main]).map (fun s => (s.pool.loop,(run (step 1) s allSteps).map
      fun t => (t.pool.handler.pc,(t.pool.workers 0).pc,t.pool.main.pc))) =
      some (false,some (.idle,.exited,.cleanUp)) := by decide +kernel
  obtain ⟨s,hs,both⟩ := Option.map_eq_some_iff.mp taken
  obtain ⟨off,rest⟩ := Prod.mk.inj both
  obtain ⟨t,ht,ends⟩ := Option.map_eq_some_iff.mp rest
  simp only [Prod.mk.injEq] at ends
  refine ⟨s,t,hs,ht,⟨ends.1,fun w bound => ?_,Or.inl ends.2.2⟩,shutdownEnds hs off ht⟩
  cases Nat.lt_one_iff.mp bound
  exact ends.2.1

section
variable {numThreads : Nat} {p q : WorkerPool.State}

def Kept (numThreads : Nat) (s : WorkerPool.State) : Prop := ∃ nodes,
  Represents s.heap s.list nodes s.queue ∧
    ∀ a, s.heap a ≠ none → a ∈ nodes ∨ ∃ w < numThreads, (s.workers w).c = some a

theorem destroyLoopSpec {heap : Heap} {at_ : Option Nat} {nodes entries} {fuel : Nat}
    (chain : Chain heap at_ nodes entries) (distinct : nodes.Nodup) (enough : nodes.length ≤ fuel) :
    ∃ heap', destroyLoop heap fuel at_ = some heap' ∧ ∀ a, heap' a = if a ∈ nodes then none else heap a := by
  induction nodes generalizing heap at_ entries fuel with
  | nil =>
    cases chain
    exact ⟨heap,by cases fuel <;> rfl,by simp⟩
  | cons prev nodes ih =>
    obtain ⟨notLater,distinct⟩ := List.nodup_cons.mp distinct
    cases chain with
    | @cons _ node _ _ here rest =>
      obtain ⟨fuel,rfl⟩ := Nat.exists_eq_add_one_of_ne_zero (Nat.ne_of_gt (Nat.lt_of_lt_of_le (by simp) enough))
      have kept : Chain (free heap prev) node.next nodes _ := chainFrame rest fun x hx =>
        Function.update_of_ne (fun same : x = prev => notLater (same ▸ hx)) _ _
      obtain ⟨heap',ran,all⟩ := ih kept distinct (Nat.le_of_succ_le_succ enough)
      refine ⟨heap',by simpa only [destroyLoop,here,bind,Option.bind_some] using ran,fun a => ?_⟩
      rw [all]
      by_cases first : a = prev
      · simp [first,free]
      · simp [first,free,Function.update_of_ne]

theorem keptSame (kept : Kept numThreads p) (heap : q.heap = p.heap) (list : q.list = p.list)
    (queue : q.queue = p.queue) (held : ∀ w, (q.workers w).c = (p.workers w).c) : Kept numThreads q := by
  obtain ⟨nodes,rep,all⟩ := kept
  refine ⟨nodes,by rw [heap,list,queue]; exact rep,fun a used => ?_⟩
  simpa only [held] using all a (heap ▸ used)

theorem keptEnqueue {fresh e} (linked : WorkerPool.Linked p) (kept : Kept numThreads p)
    (h : p.enqueue fresh e = some q) : Kept numThreads q := by
  obtain ⟨nodes,rep,all⟩ := kept
  obtain ⟨_,queue,_,heap,list,grown⟩ := enqueueLinked linked h
  simp only [WorkerPool.State.enqueue,bind,Option.bind_eq_some_iff] at h
  obtain ⟨⟨heap',list'⟩,added,last⟩ := h
  have unused : p.heap fresh = none := by
    by_contra used
    simp [addTail,newConnection,used] at added
  obtain ⟨_,_,spec,rep',frame⟩ := addTailSpec rep unused e.conn e.action
  cases Option.some.inj (added.symm.trans spec)
  cases Option.some.inj last
  refine ⟨nodes ++ [fresh],by rw [queue]; exact rep',fun a used => ?_⟩
  by_cases listed : a ∈ nodes ++ [fresh]
  · exact Or.inl listed
  · obtain ⟨old,new⟩ := not_or.mp (mt List.mem_append.mpr listed)
    have same : heap' a = p.heap a := frame a old fun eq => new (List.mem_singleton.mpr eq)
    exact Or.inr ((all a (same ▸ used)).resolve_left old)

theorem keptDequeue {w : Nat} (inv : WorkerPool.Inv numThreads p) (bound : w < numThreads)
    (kept : Kept numThreads p) (nonempty : p.queue ≠ []) (going : p.ended w = false)
    (pc : (p.workers w).pc = .removeHead) (none : (p.workers w).c = none) (h : workerStep p w = some q) :
    Kept numThreads q := by
  obtain ⟨nodes,rep,all⟩ := kept
  obtain ⟨a,c,list,found,queue,linked,moved⟩ := dequeueLinked inv.linked nonempty going pc h
  rw [queue] at rep
  obtain ⟨a',rest,list',c',rfl,removed,_,_,rep'⟩ := removeHeadSpec rep
  have same : a = a' ∧ list = list' := by
    simp only [workerStep,pc,removed,bind,Option.bind_some] at h
    have states := (Option.some.inj h).trans moved
    have mine := congrArg (fun s => (s.workers w).c) states
    have lists := congrArg WorkerPool.State.list states
    simp [WorkerPool.State.goto] at mine lists
    exact ⟨mine.symm,lists.symm⟩
  obtain ⟨rfl,rfl⟩ := same
  refine ⟨rest,by rw [moved] at rep' ⊢; exact rep',fun x used => ?_⟩
  rw [moved] at used
  rcases all x used with listed | ⟨v,his,held⟩
  · rcases List.mem_cons.mp listed with rfl | later
    · exact Or.inr ⟨w,bound,by rw [moved]; simp [WorkerPool.State.goto]⟩
    · exact Or.inl later
  · have other : v ≠ w := by rintro rfl; simp [none] at held
    exact Or.inr ⟨v,his,by rw [moved,gotoOthers _ _ _ _ other]; exact held⟩

theorem keptFree {w a : Nat} {pc : WorkerPc} (linked : WorkerPool.Linked p) (kept : Kept numThreads p)
    (held : (p.workers w).c = some a) :
    Kept numThreads (WorkerPool.State.goto {p with heap := free p.heap a} w ⟨pc,none⟩) := by
  obtain ⟨nodes,rep,all⟩ := kept
  obtain ⟨nodes',rep',away⟩ := linked.listed
  obtain ⟨rfl,_⟩ := chainUnique rep.chain rep'.chain
  refine ⟨nodes',freeRepresents rep (away w a held),fun x used => ?_⟩
  have other : x ≠ a := fun eq => used (by simp [WorkerPool.State.goto,free,eq])
  have was : p.heap x ≠ none := by simpa [WorkerPool.State.goto,free,other] using used
  rcases all x was with listed | ⟨v,his,holds⟩
  · exact Or.inl listed
  · have apart : v ≠ w := by rintro rfl; exact other (Option.some.inj (holds.symm.trans held))
    exact Or.inr ⟨v,his,by rw [gotoOthers _ _ _ _ apart]; exact holds⟩

theorem keptWorker {w : Nat} (inv : WorkerPool.Inv numThreads p) (bound : w < numThreads)
    (kept : Kept numThreads p) (h : workerStep p w = some q) : Kept numThreads q := by
  have ok := inv.workers w
  cases workerMove (inv.workers w) h with
  | lock | empty | nonempty | condWait | wake | unlock | client =>
    exact keptSame kept rfl rfl rfl (WorkerPool.gotoKeeps rfl)
  | removeHead pc own going nonempty takes =>
    simp only [WorkerOk,pc] at ok
    exact keptDequeue inv bound kept nonempty going pc ok.2.1 takes
  | last pc held => exact keptFree inv.linked kept held
  | serve pc held => exact keptFree inv.linked kept held

theorem keptMain {fresh answer} (inv : WorkerPool.Inv numThreads p) (kept : Kept numThreads p)
    (h : mainStep p fresh answer = some q) : Kept numThreads q := by
  cases mainMove h with
  | loop | idle | found | refused | accepted | lock | broadcast | unlock =>
    exact keptSame kept rfl rfl rfl fun _ => rfl
  | addTail pc added => exact keptSame (keptEnqueue inv.linked kept added) rfl rfl rfl fun _ => rfl

theorem keptHandler {fresh} (inv : WorkerPool.Inv numThreads p) (kept : Kept numThreads p)
    (h : handlerStep p fresh = some q) : Kept numThreads q := by
  cases handlerMove h with
  | loop | lock | broadcast | unlock => exact keptSame kept rfl rfl rfl fun _ => rfl
  | addTail pc added => exact keptSame (keptEnqueue inv.linked kept added) rfl rfl rfl fun _ => rfl

theorem keptStep {s t : State} {event} (ok : Inv numThreads s ∧ Kept numThreads s.pool)
    (h : step numThreads s event = some t) : Inv numThreads t ∧ Kept numThreads t.pool := by
  obtain ⟨inv,kept⟩ := ok
  refine ⟨stepInv inv h,?_⟩
  cases stepMove h with
  | sigint =>
    unfold catchInterrupt
    split
    · exact keptSame kept rfl rfl rfl fun _ => rfl
    · exact kept
  | main _ next => exact keptMain inv.pool kept next
  | handler next => exact keptHandler inv.pool kept next
  | worker _ bound next => exact keptWorker inv.pool bound kept next
  | spurious => exact keptSame kept rfl rfl rfl fun _ => rfl

theorem runKept {s : State} {events : List Event} (ran : run (step numThreads) initial events = some s) :
    Inv numThreads s ∧ Kept numThreads s.pool := by
  have start : Kept numThreads initial.pool := ⟨[],representsNew _,fun a used => absurd rfl used⟩
  obtain ⟨inv,kept⟩ := everyRun ⟨initialInv numThreads,start⟩ (fun _ _ _ => keptStep) ran
  exact ⟨inv,kept⟩

theorem keptFreed {s : State} (inv : Inv numThreads s) (kept : Kept numThreads s.pool) (joined : Joined numThreads s)
    {fuel : Nat} (enough : s.pool.queue.length ≤ fuel) :
    ∃ heap, destroyAll s.pool.heap fuel s.pool.list = some heap ∧ ∀ a, heap a = none := by
  obtain ⟨nodes,rep,all⟩ := kept
  obtain ⟨heap,ran,left⟩ := destroyLoopSpec rep.chain rep.distinct (Nat.le_trans (Nat.le_of_eq (chainLength rep.chain)) enough)
  refine ⟨heap,ran,fun a => ?_⟩
  rw [left]
  split
  · rfl
  · rename_i away
    by_contra used
    obtain ⟨w,bound,held⟩ := (all a used).resolve_left away
    have own := inv.pool.workers w
    simp only [WorkerOk,joined.2 w bound,held] at own
    exact absurd own.2 (by simp)

structure Placed (numThreads : Nat) (s : WorkerPool.State) (nodes : List Nat) : Prop where
  represents : Represents s.heap s.list nodes s.queue
  distinct : nodes.Nodup
  kept : ∀ a, s.heap a ≠ none → a ∈ nodes ∨ ∃ w < numThreads, (s.workers w).c = some a
  listed : ∀ a ∈ nodes, s.heap a ≠ none ∧ ∀ w, (s.workers w).c ≠ some a
  held : ∀ w a, (s.workers w).c = some a → s.heap a ≠ none
  apart : ∀ w v a, (s.workers w).c = some a → (s.workers v).c = some a → w = v

theorem keptPlaced {s : State} (inv : Inv numThreads s) (kept : Kept numThreads s.pool) :
    ∃ nodes, Placed numThreads s.pool nodes := by
  obtain ⟨nodes,rep,all⟩ := kept
  have linked := inv.pool.linked
  obtain ⟨nodes',rep',away⟩ := linked.listed
  obtain ⟨rfl,_⟩ := chainUnique rep.chain rep'.chain
  exact ⟨nodes',rep,rep.distinct,all,fun a mem => ⟨chainAllocated rep.chain a mem,fun w held => away w a held mem⟩,
    linked.held,linked.apart⟩

/-- In every state each node in use has one place, on the list or in one worker's hands, and once
the workers are joined destroyAll frees each of them once and leaves none. -/
theorem everyNodeFreed {s : State} {events : List Event} (ran : run (step numThreads) initial events = some s) :
    (∃ nodes, Placed numThreads s.pool nodes) ∧ (Joined numThreads s → ∀ fuel ≥ s.pool.queue.length,
      ∃ heap, destroyAll s.pool.heap fuel s.pool.list = some heap ∧ ∀ a, heap a = none) := by
  obtain ⟨inv,kept⟩ := runKept ran
  exact ⟨keptPlaced inv kept,fun joined _ enough => keptFreed inv kept joined enough⟩

end

theorem everyNodeFreedInHand : ∃ s, run (step 1) initial Shutdown.stoppedInHand = some s ∧ Joined 1 s ∧
    ∃ heap, destroyAll s.pool.heap s.pool.queue.length s.pool.list = some heap ∧ ∀ a, heap a = none := by
  have ran : (run (step 1) initial Shutdown.stoppedInHand).map Shutdown.outcome = some (.cleanUp,.exited,[4],[]) := by
    decide +kernel
  obtain ⟨s,hs,ends⟩ := Option.map_eq_some_iff.mp ran
  have joined := (Shutdown.joinedOne ends).1
  exact ⟨s,hs,joined,(everyNodeFreed hs).2 joined _ (Nat.le_refl _)⟩

end IttyBittyServer.Teardown
