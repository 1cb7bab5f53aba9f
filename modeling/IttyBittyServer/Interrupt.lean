import IttyBittyServer.WorkerPool

/-! SIGINT is taken by one of the server's threads, which runs catchInterrupt() and goes
on only when that returns. The pool is the one of `WorkerPool`; added are who runs the
handler, the sockets `accept` returned and those a worker closed. -/
namespace IttyBittyServer.Interrupt
open ConList Run
open WorkerPool (Tid Linked WorkerOk HandlerOk mainStep handlerStep workerStep mainMove handlerMove
  workerMove enqueueLinked dequeueLinked gotoOthers freedApart)

structure State where
  pool : WorkerPool.State
  interrupted : Option Tid
  accepted : List Int
  closed : List Int

def initial : State := ⟨WorkerPool.initial,none,[],[]⟩

/- The thread that takes the signal is main or a worker that has not ended. -/
inductive Event where
  | sigint (t : Tid)
  | main (fresh : Nat) (answer : Option Int)
  | handler (fresh : Nat)
  | worker (w : Nat)
  | spurious (w : Nat)
  deriving DecidableEq, Repr

def running (numThreads : Nat) (s : WorkerPool.State) : Tid → Bool
  | .main => true
  | .handler => false
  | .worker w => decide (w < numThreads) && (s.workers w).pc != .exited && (s.workers w).pc != .crashed

def catchInterrupt (numThreads : Nat) (s : State) (t : Tid) : State :=
  if s.pool.loop then
    {s with pool := {s.pool with loop := false, handler := ⟨.loop,numThreads⟩}, interrupted := some t}
  else s

def accepts (s : WorkerPool.State) (answer : Option Int) : List Int :=
  if s.main.pc = .accept then answer.toList else []

/- After checkAndSend the worker closes the socket it was handed, unless the entry
was SHARED. -/
def closes (s : WorkerPool.State) (w : Nat) : List Int :=
  match (s.workers w).pc, (s.workers w).c.bind s.heap with
  | .serve, some c => if c.action = .shared then [] else [c.conn]
  | _, _ => []

def step (numThreads : Nat) (s : State) : Event → Option State
  | .sigint t => if running numThreads s.pool t then some (catchInterrupt numThreads s t) else none
  | .main fresh answer =>
    if s.interrupted = some .main then none
    else do
      let pool ← WorkerPool.step numThreads s.pool (.main fresh answer)
      some {s with pool := pool, accepted := s.accepted ++ accepts s.pool answer}
  | .handler fresh => do
    let pool ← WorkerPool.step numThreads s.pool (.handler fresh)
    let interrupted := if pool.handler.pc = .idle then none else s.interrupted
    some {s with pool := pool, interrupted := interrupted}
  | .worker w =>
    if s.interrupted = some (.worker w) then none
    else do
      let pool ← WorkerPool.step numThreads s.pool (.worker w)
      some {s with pool := pool, closed := s.closed ++ closes s.pool w}
  | .spurious w => do
    let pool ← WorkerPool.step numThreads s.pool (.spurious w)
    some {s with pool := pool}

def mover : Event → Option Tid
  | .main _ _ => some .main
  | .handler _ => some .handler
  | .worker w => some (.worker w)
  | .sigint _ | .spurious _ => none

def inside (s : WorkerPool.State) : Tid → Nat
  | .main => match s.main.pc with
    | .addTail => 3
    | .broadcast => 2
    | .unlock => 1
    | _ => 0
  | .handler => match s.handler.pc with
    | .addTail => 3
    | .broadcast => 2
    | .unlock => 1
    | _ => 0
  | .worker w => match (s.workers w).pc with
    | .isEmpty => 3
    | .removeHead => 2
    | .condWait | .unlock => 1
    | _ => 0

def Passed (t : Tid) (s u : WorkerPool.State) : Prop :=
  s.mConList = none ∧ u.mConList = some t ∧ 0 < inside u t ∨
  s.mConList = some t ∧ u.mConList = none ∨
  u.mConList = s.mConList ∧ (s.mConList = some t → inside u t < inside s t ∧ 0 < inside u t)

def tokensAdded (s : WorkerPool.State) : Nat := s.enqueued.countP fun e => e.action == .terminate

def Bounded (heap : Heap) : Prop := ∃ n, ∀ a ≥ n, heap a = none

structure Owned (numThreads : Nat) (s : WorkerPool.State) : Prop where
  inside : ∀ t, s.mConList = some t → 0 < Interrupt.inside s t
  worker : ∀ w, s.mConList = some (.worker w) → w < numThreads

structure MainMoved (s u : WorkerPool.State) : Prop where
  loop : u.loop = s.loop
  handler : u.handler = s.handler
  workers : u.workers = s.workers
  dequeued : u.dequeued = s.dequeued
  enqueued : u.enqueued = s.enqueued ++ if s.main.pc = .addTail then [s.main.entry] else []
  passed : Passed .main s u
  bounded : Bounded s.heap → Bounded u.heap
  held : ∀ v a, (s.workers v).c = some a → u.heap a = s.heap a

def handlerRank (s : WorkerPool.State) : Nat := match s.handler.pc with
  | .idle => 0
  | .loop => 5 * s.handler.remaining + 1
  | .lock => 5 * s.handler.remaining
  | .addTail => 5 * s.handler.remaining - 1
  | .broadcast => 5 * s.handler.remaining + 3
  | .unlock => 5 * s.handler.remaining + 2

structure HandlerMoved (s u : WorkerPool.State) : Prop where
  loop : u.loop = s.loop
  main : u.main = s.main
  workers : u.workers = s.workers
  dequeued : u.dequeued = s.dequeued
  enqueued : u.enqueued = s.enqueued ++ if s.handler.pc = .addTail then [⟨0,.terminate⟩] else []
  remaining : u.handler.remaining + (if s.handler.pc = .addTail then 1 else 0) = s.handler.remaining
  returned : u.handler.pc = .idle → u.handler.remaining = 0
  rank : handlerRank u < handlerRank s
  passed : Passed .handler s u
  bounded : Bounded s.heap → Bounded u.heap
  held : ∀ v a, (s.workers v).c = some a → u.heap a = s.heap a

structure WorkerMoved (w : Nat) (s u : WorkerPool.State) : Prop where
  loop : u.loop = s.loop
  main : u.main = s.main
  handler : u.handler = s.handler
  others : ∀ v, v ≠ w → u.workers v = s.workers v
  enqueued : u.enqueued = s.enqueued
  passed : Passed (.worker w) s u
  bounded : Bounded s.heap → Bounded u.heap
  held : ∀ v a, v ≠ w → (s.workers v).c = some a → u.heap a = s.heap a
  dequeued : (s.workers w).pc ≠ .removeHead → u.dequeued = s.dequeued

theorem boundedUpdate {heap : Heap} (bounded : Bounded heap) (a : Nat) (c : Option Connection) :
    Bounded (Function.update heap a c) := by
  obtain ⟨n,above⟩ := bounded
  refine ⟨max n (a + 1),fun x hx => ?_⟩
  have other : x ≠ a := by omega
  rw [Function.update_of_ne other]
  exact above x (by omega)

theorem enqueueBounded {s u : WorkerPool.State} {fresh e} (h : s.enqueue fresh e = some u)
    (bounded : Bounded s.heap) : Bounded u.heap := by
  simp only [WorkerPool.State.enqueue,addTail,newConnection,setNext,bind,Option.bind_eq_some_iff] at h
  obtain ⟨⟨heap,list⟩,⟨alloc,made,linked⟩,last⟩ := h
  cases Option.some.inj last
  split at made <;> try contradiction
  cases Option.some.inj made
  have grown := boundedUpdate bounded fresh (some ⟨e.conn,e.action,none⟩)
  split at linked
  · cases Option.some.inj linked; exact grown
  · obtain ⟨later,set,rest⟩ := Option.bind_eq_some_iff.mp linked
    cases Option.some.inj rest
    obtain ⟨a,_,set⟩ := Option.bind_eq_some_iff.mp set
    obtain ⟨c,_,last⟩ := Option.bind_eq_some_iff.mp set
    cases Option.some.inj last
    exact boundedUpdate grown _ _

theorem mainMoved {numThreads} {s u : WorkerPool.State} {fresh answer}
    (inv : WorkerPool.Inv numThreads s) (owned : Owned numThreads s)
    (h : mainStep s fresh answer = some u) : MainMoved s u := by
  have own := inv.main.2
  have out := owned.inside .main
  cases mainMove h with
  | loop pc | idle pc | found pc | refused pc | accepted pc =>
    exact ⟨rfl,rfl,rfl,rfl,by simp [pc],Or.inr (Or.inr ⟨rfl,by simpa [inside,pc] using out⟩),id,
      fun _ _ _ => rfl⟩
  | lock pc free =>
    exact ⟨rfl,rfl,rfl,rfl,by simp [pc],Or.inl ⟨free,rfl,by simp [inside]⟩,id,fun _ _ _ => rfl⟩
  | addTail pc added =>
    have grown := enqueueBounded added
    obtain ⟨_,_,same,heap,list,rfl⟩ := enqueueLinked inv.linked added
    exact ⟨rfl,rfl,rfl,rfl,by simp [pc],Or.inr (Or.inr ⟨rfl,by simp [inside,pc]⟩),grown,same⟩
  | broadcast pc =>
    exact ⟨rfl,rfl,rfl,rfl,by simp [pc],Or.inr (Or.inr ⟨rfl,by simp [inside,pc]⟩),id,fun _ _ _ => rfl⟩
  | unlock pc =>
    simp only [pc] at own
    exact ⟨rfl,rfl,rfl,rfl,by simp [pc,WorkerPool.State.release],Or.inr (Or.inl ⟨own,rfl⟩),id,
      fun _ _ _ => rfl⟩

theorem handlerMoved {numThreads} {s u : WorkerPool.State} {fresh}
    (inv : WorkerPool.Inv numThreads s) (owned : Owned numThreads s)
    (h : handlerStep s fresh = some u) : HandlerMoved s u := by
  have own := inv.handler
  have out := owned.inside .handler
  cases handlerMove h with
  | loop pc =>
    refine ⟨rfl,rfl,rfl,rfl,by simp [pc],by simp [pc],?_,?_,
      Or.inr (Or.inr ⟨rfl,by simpa [inside,pc] using out⟩),id,fun _ _ _ => rfl⟩
    · by_cases none : s.handler.remaining = 0 <;> simp [none]
    · by_cases none : s.handler.remaining = 0 <;> simp [handlerRank,pc,none]
  | lock pc free =>
    simp only [HandlerOk,pc] at own
    refine ⟨rfl,rfl,rfl,rfl,by simp [pc],by simp [pc],by simp,?_,
      Or.inl ⟨free,rfl,by simp [inside]⟩,id,fun _ _ _ => rfl⟩
    simp only [handlerRank,pc]; omega
  | addTail pc added =>
    simp only [HandlerOk,pc] at own
    have grown := enqueueBounded added
    obtain ⟨_,_,same,heap,list,rfl⟩ := enqueueLinked inv.linked added
    have more := own.2
    refine ⟨rfl,rfl,rfl,rfl,by simp [pc],?_,by simp,?_,
      Or.inr (Or.inr ⟨rfl,by simp [inside,pc]⟩),grown,same⟩
    · simp only [pc,if_true]; omega
    · simp only [handlerRank,pc]; omega
  | broadcast pc =>
    exact ⟨rfl,rfl,rfl,rfl,by simp [pc],by simp [pc],by simp,by simp [handlerRank,pc],
      Or.inr (Or.inr ⟨rfl,by simp [inside,pc]⟩),id,fun _ _ _ => rfl⟩
  | unlock pc =>
    simp only [HandlerOk,pc] at own
    exact ⟨rfl,rfl,rfl,rfl,by simp [pc,WorkerPool.State.release],by simp [pc],by simp,
      by simp [handlerRank,pc],Or.inr (Or.inl ⟨own,rfl⟩),id,fun _ _ _ => rfl⟩

theorem workerMoved {numThreads} {s u : WorkerPool.State} {w}
    (inv : WorkerPool.Inv numThreads s) (owned : Owned numThreads s)
    (h : workerStep s w = some u) : WorkerMoved w s u := by
  have out := owned.inside (.worker w)
  cases workerMove (inv.workers w) h with
  | lock pc free | wake pc free =>
    exact ⟨rfl,rfl,rfl,gotoOthers _ _ _,rfl,
      Or.inl ⟨free,rfl,by simp [inside,WorkerPool.State.goto]⟩,id,fun _ _ _ _ => rfl,fun _ => rfl⟩
  | empty pc | nonempty pc =>
    exact ⟨rfl,rfl,rfl,gotoOthers _ _ _,rfl,
      Or.inr (Or.inr ⟨rfl,by simp [inside,pc,WorkerPool.State.goto]⟩),id,fun _ _ _ _ => rfl,
      fun _ => rfl⟩
  | condWait pc own | unlock pc own =>
    exact ⟨rfl,rfl,rfl,gotoOthers _ _ _,rfl,Or.inr (Or.inl ⟨own,rfl⟩),id,fun _ _ _ _ => rfl,
      fun _ => rfl⟩
  | removeHead pc own going nonempty moves =>
    obtain ⟨a,c,list,_,_,_,rfl⟩ := dequeueLinked inv.linked nonempty going pc moves
    exact ⟨rfl,rfl,rfl,gotoOthers _ _ _,rfl,
      Or.inr (Or.inr ⟨rfl,by simp [inside,pc,WorkerPool.State.goto]⟩),id,fun _ _ _ _ => rfl,
      fun other => absurd pc other⟩
  | last pc held | serve pc held =>
    exact ⟨rfl,rfl,rfl,gotoOthers _ _ _,rfl,Or.inr (Or.inr ⟨rfl,by simpa [inside,pc] using out⟩),
      fun bounded => boundedUpdate bounded _ _,freedApart inv.linked held,fun _ => rfl⟩
  | client pc =>
    exact ⟨rfl,rfl,rfl,gotoOthers _ _ _,rfl,Or.inr (Or.inr ⟨rfl,by simpa [inside,pc] using out⟩),id,
      fun _ _ _ _ => rfl,fun _ => rfl⟩

structure Inv (numThreads : Nat) (s : State) : Prop where
  pool : WorkerPool.Inv numThreads s.pool
  owned : Owned numThreads s.pool
  bounded : Bounded s.pool.heap
  interrupted : s.interrupted = none ↔ s.pool.handler.pc = .idle
  taker : s.interrupted ≠ some .handler
  returned : s.pool.loop = false → s.pool.handler.pc = .idle → s.pool.handler.remaining = 0
  added : s.pool.loop = false → tokensAdded s.pool + s.pool.handler.remaining = numThreads

theorem initialInv (numThreads) : Inv numThreads initial := by
  refine ⟨WorkerPool.initialInv numThreads,⟨?_,?_⟩,⟨0,fun _ _ => rfl⟩,?_,?_,?_,?_⟩ <;>
    simp [initial,WorkerPool.initial]

theorem ownedPassed {numThreads t} {s u : WorkerPool.State} (owned : Owned numThreads s)
    (passed : Passed t s u) (others : ∀ v, v ≠ t → inside u v = inside s v)
    (bound : ∀ w, t = .worker w → w < numThreads) : Owned numThreads u := by
  rcases passed with ⟨_,mine,entered⟩ | ⟨_,free⟩ | ⟨same,stays⟩
  · refine ⟨fun v hv => ?_,fun w hw => bound w (Option.some.inj (mine.symm.trans hw))⟩
    cases Option.some.inj (mine.symm.trans hv)
    exact entered
  · exact ⟨by simp [free],by simp [free]⟩
  · refine ⟨fun v hv => ?_,fun w hw => owned.worker w (by rw [← same,hw])⟩
    rw [same] at hv
    by_cases its : v = t
    · subst v; exact (stays hv).2
    · rw [others v its]; exact owned.inside v hv

theorem MainMoved.others {s u : WorkerPool.State} (moved : MainMoved s u) (t : Tid)
    (other : t ≠ .main) : inside u t = inside s t := by
  cases t <;> simp_all [inside,moved.handler,moved.workers]

theorem HandlerMoved.others {s u : WorkerPool.State} (moved : HandlerMoved s u) (t : Tid)
    (other : t ≠ .handler) : inside u t = inside s t := by
  cases t <;> simp_all [inside,moved.main,moved.workers]

theorem WorkerMoved.apart {w} {s u : WorkerPool.State} (moved : WorkerMoved w s u) (t : Tid)
    (other : t ≠ .worker w) : inside u t = inside s t := by
  cases t with
  | main => simp [inside,moved.main]
  | handler => simp [inside,moved.handler]
  | worker v => simp [inside,moved.others v (by simpa using other)]

inductive Move (numThreads : Nat) (s : State) : Event → State → Prop where
  | sigint {x} (runs : running numThreads s.pool x = true) :
      Move numThreads s (.sigint x) (catchInterrupt numThreads s x)
  | main {fresh answer pool} (free : s.interrupted ≠ some .main)
      (moves : mainStep s.pool fresh answer = some pool) : Move numThreads s (.main fresh answer)
      {s with pool := pool, accepted := s.accepted ++ accepts s.pool answer}
  | handler {fresh pool} (moves : handlerStep s.pool fresh = some pool) :
      Move numThreads s (.handler fresh)
      {s with pool := pool, interrupted := if pool.handler.pc = .idle then none else s.interrupted}
  | worker {w pool} (free : s.interrupted ≠ some (.worker w)) (bound : w < numThreads)
      (moves : workerStep s.pool w = some pool) : Move numThreads s (.worker w)
      {s with pool := pool, closed := s.closed ++ closes s.pool w}
  | spurious {w} (waits : w ∈ s.pool.freeConn) : Move numThreads s (.spurious w)
      {s with pool := {s.pool with freeConn := s.pool.freeConn.erase w}}

theorem stepMove {numThreads s event t} (h : step numThreads s event = some t) :
    Move numThreads s event t := by
  cases event with
  | sigint x =>
    simp only [step] at h
    split at h <;> try contradiction
    cases Option.some.inj h
    exact .sigint (by assumption)
  | main fresh answer =>
    simp only [step] at h
    split at h <;> try contradiction
    simp only [bind,Option.bind_eq_some_iff] at h
    obtain ⟨pool,moves,last⟩ := h
    cases Option.some.inj last
    exact .main (by assumption) moves
  | handler fresh =>
    simp only [step,bind,Option.bind_eq_some_iff] at h
    obtain ⟨pool,moves,last⟩ := h
    cases Option.some.inj last
    exact .handler moves
  | worker w =>
    simp only [step] at h
    split at h <;> try contradiction
    simp only [bind,Option.bind_eq_some_iff] at h
    obtain ⟨pool,moves,last⟩ := h
    cases Option.some.inj last
    simp only [WorkerPool.step] at moves
    split at moves <;> try contradiction
    exact .worker (by assumption) (by assumption) moves
  | spurious w =>
    simp only [step,bind,Option.bind_eq_some_iff] at h
    obtain ⟨pool,moves,last⟩ := h
    cases Option.some.inj last
    simp only [WorkerPool.step] at moves
    split at moves <;> try contradiction
    cases Option.some.inj moves
    exact .spurious (by assumption)

theorem mainTokens {numThreads} {s u : WorkerPool.State} (inv : WorkerPool.Inv numThreads s)
    (moved : MainMoved s u) : tokensAdded u = tokensAdded s := by
  simp only [tokensAdded,moved.enqueued]
  split <;> simp [inv.main.1]

theorem handlerTokens {s u : WorkerPool.State} (moved : HandlerMoved s u) :
    tokensAdded u = tokensAdded s + if s.handler.pc = .addTail then 1 else 0 := by
  simp only [tokensAdded,moved.enqueued]
  split <;> simp

theorem stepInv {numThreads s event t} (inv : Inv numThreads s)
    (h : step numThreads s event = some t) : Inv numThreads t := by
  cases stepMove h with
  | sigint runs =>
    unfold catchInterrupt
    split
    · rename_i x on
      obtain ⟨plain,idle⟩ := inv.pool.counted.before on
      have out : inside s.pool .handler = 0 := by simp [inside,idle]
      refine ⟨WorkerPool.interruptInv inv.pool on,⟨fun v hv => ?_,inv.owned.worker⟩,inv.bounded,
        by simp,fun same => ?_,by simp,fun _ => ?_⟩
      · have entered := inv.owned.inside v hv
        cases v with
        | handler => rw [out] at entered; contradiction
        | main => exact entered
        | worker w => exact entered
      · cases Option.some.inj same
        simp [running] at runs
      · have none : tokensAdded s.pool = 0 := by
          simp only [tokensAdded,List.countP_eq_zero,beq_iff_eq]
          exact plain
        change tokensAdded s.pool + numThreads = numThreads
        rw [none,Nat.zero_add]
    · exact inv
  | @main fresh answer pool free moves =>
    have moved := mainMoved inv.pool inv.owned moves
    refine ⟨WorkerPool.mainInv inv.pool moves,
      ownedPassed inv.owned moved.passed moved.others (by simp),
      moved.bounded inv.bounded,?_,inv.taker,?_,?_⟩
    · simpa only [moved.handler] using inv.interrupted
    · simpa only [moved.loop,moved.handler] using inv.returned
    · simpa only [moved.loop,moved.handler,mainTokens inv.pool moved] using inv.added
  | @handler fresh pool moves =>
    have moved := handlerMoved inv.pool inv.owned moves
    have going : s.pool.handler.pc ≠ .idle := by
      intro idle
      simp [handlerStep,idle] at moves
    refine ⟨WorkerPool.handlerInv inv.pool moves,
      ownedPassed inv.owned moved.passed moved.others (by simp),moved.bounded inv.bounded,?_,?_,
      fun _ => moved.returned,fun off => ?_⟩
    · have taken : s.interrupted ≠ none := fun none => going (inv.interrupted.mp none)
      by_cases idle : pool.handler.pc = .idle <;> simp [idle,taken]
    · by_cases idle : pool.handler.pc = .idle <;> simp [idle,inv.taker]
    · have before := inv.added (moved.loop.symm.trans off)
      have remaining := moved.remaining
      have added := handlerTokens moved
      simp only at added ⊢
      omega
  | @worker w pool free bound moves =>
    have moved := workerMoved inv.pool inv.owned moves
    have added : tokensAdded pool = tokensAdded s.pool := by simp only [tokensAdded,moved.enqueued]
    refine ⟨WorkerPool.workerInv inv.pool bound moves,
      ownedPassed inv.owned moved.passed moved.apart (fun v same => ?_),
      moved.bounded inv.bounded,?_,inv.taker,?_,?_⟩
    · cases same; exact bound
    · simpa only [moved.handler] using inv.interrupted
    · simpa only [moved.loop,moved.handler] using inv.returned
    · simpa only [moved.loop,moved.handler,added] using inv.added
  | @spurious w waits =>
    have moves : WorkerPool.step numThreads s.pool (.spurious w) =
        some {s.pool with freeConn := s.pool.freeConn.erase w} := if_pos waits
    exact ⟨WorkerPool.stepInv inv.pool moves,⟨inv.owned.inside,inv.owned.worker⟩,inv.bounded,
      inv.interrupted,inv.taker,inv.returned,inv.added⟩

theorem stepPassed {numThreads s event t} (inv : Inv numThreads s)
    (h : step numThreads s event = some t) :
    mover event = none ∧ t.pool.mConList = s.pool.mConList ∧
      (∀ x, inside t.pool x = inside s.pool x) ∨
    ∃ x, mover event = some x ∧ Passed x s.pool t.pool ∧
      ∀ y, y ≠ x → inside t.pool y = inside s.pool y := by
  cases stepMove h with
  | sigint runs =>
    refine Or.inl ⟨rfl,?_,fun y => ?_⟩
    · unfold catchInterrupt; split <;> rfl
    · unfold catchInterrupt
      split
      · rename_i on
        have idle := (inv.pool.counted.before on).2
        cases y <;> simp [inside,idle]
      · rfl
  | main free moves =>
    have moved := mainMoved inv.pool inv.owned moves
    exact Or.inr ⟨_,rfl,moved.passed,moved.others⟩
  | handler moves =>
    have moved := handlerMoved inv.pool inv.owned moves
    exact Or.inr ⟨_,rfl,moved.passed,moved.others⟩
  | worker free bound moves =>
    have moved := workerMoved inv.pool inv.owned moves
    exact Or.inr ⟨_,rfl,moved.passed,moved.apart⟩
  | spurious waits => exact Or.inl ⟨rfl,rfl,fun x => by cases x <;> rfl⟩

/-- The signal was taken by a thread that does not hold `mConList`, and while the handler
runs it does not come to hold it. -/
structure Delivered (numThreads : Nat) (s : State) : Prop extends Inv numThreads s where
  off : s.pool.loop = false
  apart : 0 < numThreads → ∀ t, s.interrupted = some t → s.pool.mConList ≠ some t

theorem lockingSome {numThreads s} (ok : Delivered numThreads s) (pc : s.pool.handler.pc = .lock) :
    0 < numThreads := by
  have more := ok.pool.handler
  simp only [HandlerOk,pc] at more
  have added := ok.added ok.off
  omega

theorem passedApart {t x} {s u : WorkerPool.State} (passed : Passed t s u) (other : x ≠ t)
    (apart : s.mConList ≠ some x) : u.mConList ≠ some x := by
  rcases passed with ⟨_,mine,_⟩ | ⟨_,free⟩ | ⟨same,_⟩
  · rw [mine]; exact fun eq => other (Option.some.inj eq).symm
  · simp [free]
  · rwa [same]

theorem deliveredStep {numThreads s event t} (ok : Delivered numThreads s)
    (h : step numThreads s event = some t) : Delivered numThreads t ∧
    handlerRank t.pool ≤ handlerRank s.pool ∧
    (mover event = some .handler → handlerRank t.pool < handlerRank s.pool) := by
  have inv := stepInv ok.toInv h
  cases stepMove h with
  | sigint runs =>
    simp only [catchInterrupt,ok.off]
    exact ⟨ok,Nat.le_refl _,by simp [mover]⟩
  | @main fresh answer pool suspended moves =>
    have moved := mainMoved ok.pool ok.owned moves
    have same : handlerRank pool = handlerRank s.pool := by simp [handlerRank,moved.handler]
    refine ⟨⟨inv,moved.loop.trans ok.off,fun more x taken => ?_⟩,Nat.le_of_eq same,by simp [mover]⟩
    exact passedApart moved.passed (fun eq => suspended (eq ▸ taken)) (ok.apart more x taken)
  | @handler fresh pool moves =>
    have moved := handlerMoved ok.pool ok.owned moves
    refine ⟨⟨inv,moved.loop.trans ok.off,fun more x taken => ?_⟩,Nat.le_of_lt moved.rank,
      fun _ => moved.rank⟩
    have same : s.interrupted = some x := by
      simp only at taken
      split at taken <;> simp_all
    exact passedApart moved.passed (fun eq => ok.taker (eq ▸ same)) (ok.apart more x same)
  | @worker w pool suspended bound moves =>
    have moved := workerMoved ok.pool ok.owned moves
    have same : handlerRank pool = handlerRank s.pool := by simp [handlerRank,moved.handler]
    refine ⟨⟨inv,moved.loop.trans ok.off,fun more x taken => ?_⟩,Nat.le_of_eq same,by simp [mover]⟩
    exact passedApart moved.passed (fun eq => suspended (eq ▸ taken)) (ok.apart more x taken)
  | spurious waits => exact ⟨⟨inv,ok.off,ok.apart⟩,Nat.le_refl _,by simp [mover]⟩

theorem enqueueEnabled {s : WorkerPool.State} (linked : Linked s) (bounded : Bounded s.heap) (e : Entry) :
    ∃ fresh u, s.enqueue fresh e = some u := by
  obtain ⟨nodes,rep,_⟩ := linked.listed
  obtain ⟨n,above⟩ := bounded
  obtain ⟨heap,list,added,_⟩ := addTailSpec rep (above n (Nat.le_refl n)) e.conn e.action
  exact ⟨n,_,by simp only [WorkerPool.State.enqueue,added]; rfl⟩

theorem mainEnabled {numThreads} {s : State} (inv : Inv numThreads s)
    (free : s.interrupted ≠ some .main) (own : s.pool.mConList = some .main) : ∃ event, mover event = some .main ∧
      (step numThreads s event).isSome := by
  have place := inv.owned.inside .main own
  suffices ∃ fresh u, mainStep s.pool fresh none = some u by
    obtain ⟨fresh,u,moves⟩ := this
    exact ⟨.main fresh none,rfl,by simp [step,free,WorkerPool.step,moves]⟩
  cases pc : s.pool.main.pc <;> simp only [inside,pc] at place <;> try contradiction
  case addTail =>
    obtain ⟨fresh,u,added⟩ := enqueueEnabled inv.pool.linked inv.bounded s.pool.main.entry
    exact ⟨fresh,_,by simp only [mainStep,pc,added]; rfl⟩
  case broadcast => exact ⟨0,_,by simp only [mainStep,pc]; rfl⟩
  case unlock => exact ⟨0,_,by simp only [mainStep,pc]; rfl⟩

theorem workerEnabled {numThreads w} {s : State} (inv : Inv numThreads s)
    (free : s.interrupted ≠ some (.worker w)) (own : s.pool.mConList = some (.worker w)) :
    ∃ event, mover event = some (.worker w) ∧ (step numThreads s event).isSome := by
  have place := inv.owned.inside (.worker w) own
  have bound := inv.owned.worker w own
  have ok := inv.pool.workers w
  suffices ∃ u, workerStep s.pool w = some u by
    obtain ⟨u,moves⟩ := this
    exact ⟨.worker w,rfl,by simp [step,free,WorkerPool.step,bound,moves]⟩
  cases pc : (s.pool.workers w).pc <;> simp only [inside,pc] at place <;> try contradiction
  case isEmpty => exact ⟨_,by simp only [workerStep,pc]; rfl⟩
  case condWait => exact ⟨_,by simp only [workerStep,pc]; rfl⟩
  case removeHead =>
    simp only [WorkerOk,pc] at ok
    obtain ⟨e,rest,queue⟩ := List.exists_cons_of_ne_nil ok.2.2.2
    obtain ⟨nodes,rep,_⟩ := inv.pool.linked.listed
    rw [queue] at rep
    obtain ⟨a,_,list,_,_,removed,_⟩ := removeHeadSpec rep
    exact ⟨_,by simp only [workerStep,pc,removed]; rfl⟩
  case unlock => exact ⟨_,by simp only [workerStep,pc]; rfl⟩

theorem handlerEnabled {numThreads} {s : State} (inv : Inv numThreads s)
    (going : s.pool.handler.pc ≠ .idle) (free : s.pool.handler.pc = .lock → s.pool.mConList = none) :
    ∃ event, mover event = some .handler ∧ (step numThreads s event).isSome := by
  suffices ∃ fresh u, handlerStep s.pool fresh = some u by
    obtain ⟨fresh,u,moves⟩ := this
    exact ⟨.handler fresh,rfl,by simp [step,WorkerPool.step,moves]⟩
  cases pc : s.pool.handler.pc with
  | idle => exact absurd pc going
  | loop => exact ⟨0,_,by simp only [handlerStep,pc]; rfl⟩
  | lock => exact ⟨0,_,by simp only [handlerStep,pc,WorkerPool.State.acquire,free pc]; rfl⟩
  | addTail =>
    obtain ⟨fresh,u,added⟩ := enqueueEnabled inv.pool.linked inv.bounded ⟨0,.terminate⟩
    exact ⟨fresh,_,by simp only [handlerStep,pc,added]; rfl⟩
  | broadcast => exact ⟨0,_,by simp only [handlerStep,pc]; rfl⟩
  | unlock => exact ⟨0,_,by simp only [handlerStep,pc]; rfl⟩

/- While the handler runs, it can go on or the holder of `mConList` can. -/
theorem someoneEnabled {numThreads s} (ok : Delivered numThreads s)
    (going : s.pool.handler.pc ≠ .idle) : ∃ event x, mover event = some x ∧ (step numThreads s event).isSome ∧
      (x ≠ .handler → s.pool.mConList = some x) := by
  by_cases blocked : s.pool.handler.pc = .lock ∧ s.pool.mConList ≠ none
  · obtain ⟨x,own⟩ := Option.ne_none_iff_exists'.mp blocked.2
    have free : s.interrupted ≠ some x := fun taken => ok.apart (lockingSome ok blocked.1) x taken own
    cases x with
    | handler =>
      have place := ok.owned.inside .handler own
      simp [inside,blocked.1] at place
    | main =>
      obtain ⟨event,moves,enabled⟩ := mainEnabled ok.toInv free own
      exact ⟨event,_,moves,enabled,fun _ => own⟩
    | worker w =>
      obtain ⟨event,moves,enabled⟩ := workerEnabled ok.toInv free own
      exact ⟨event,_,moves,enabled,fun _ => own⟩
  · have free : s.pool.handler.pc = .lock → s.pool.mConList = none := by
      simpa using blocked
    obtain ⟨event,moves,enabled⟩ := handlerEnabled ok.toInv going free
    exact ⟨event,_,moves,enabled,fun other => absurd rfl other⟩

def State.finished (numThreads : Nat) (s : State) : Prop :=
  s.pool.handler.pc = .idle ∧ tokensAdded s.pool = numThreads

theorem idleFinished {numThreads s} (ok : Delivered numThreads s) (idle : s.pool.handler.pc = .idle) :
    s.finished numThreads := by
  have returned := ok.returned ok.off idle
  have added := ok.added ok.off
  exact ⟨idle,by omega⟩

def holderLeft (s : WorkerPool.State) : Nat := match s.mConList with
  | some t => inside s t
  | none => 0

theorem insideLe (s : WorkerPool.State) (t : Tid) : inside s t ≤ 3 := by
  cases t <;> simp only [inside] <;> split <;> omega

theorem canFinish {numThreads s} (ok : Delivered numThreads s) :
    ∃ events t, run (step numThreads) s events = some t ∧ t.finished numThreads := by
  induction hr : 4 * handlerRank s.pool + holderLeft s.pool using Nat.strongRecOn generalizing s with
  | ind r ih =>
    by_cases idle : s.pool.handler.pc = .idle
    · exact ⟨[],s,rfl,idleFinished ok idle⟩
    · obtain ⟨event,x,moves,enabled,holder⟩ := someoneEnabled ok idle
      obtain ⟨t,next⟩ := Option.isSome_iff_exists.mp enabled
      obtain ⟨later,down,fell⟩ := deliveredStep ok next
      have less : 4 * handlerRank t.pool + holderLeft t.pool < r := by
        have small : holderLeft t.pool ≤ 3 := by
          unfold holderLeft; split
          · exact insideLe _ _
          · omega
        by_cases its : x = .handler
        · have := fell (its ▸ moves)
          omega
        · have own := holder its
          have place := ok.owned.inside x own
          rcases stepPassed ok.toInv next with ⟨none,_⟩ | ⟨y,mine,passed,_⟩
          · simp [moves] at none
          · cases Option.some.inj (moves.symm.trans mine)
            have closer : holderLeft t.pool < holderLeft s.pool := by
              rcases passed with ⟨free,_⟩ | ⟨_,free⟩ | ⟨same,stays⟩
              · simp [own] at free
              · simpa [holderLeft,free,own] using place
              · simpa [holderLeft,same,own] using (stays own).1
            omega
      obtain ⟨events,u,ran,finished⟩ := ih _ less later rfl
      exact ⟨event::events,u,by simp [run,next,ran],finished⟩

theorem heldOn {numThreads s event t x} (inv : Inv numThreads s) (h : step numThreads s event = some t)
    (own : s.pool.mConList = some x) (taken : t.pool.mConList ≠ none) :
    t.pool.mConList = some x ∧ inside t.pool x ≤ inside s.pool x ∧
      (mover event = some x → inside t.pool x < inside s.pool x) := by
  rcases stepPassed inv h with ⟨none,same,places⟩ | ⟨y,mine,passed,others⟩
  · exact ⟨same.trans own,Nat.le_of_eq (places x),by simp [none]⟩
  · rcases passed with ⟨free,_⟩ | ⟨_,free⟩ | ⟨same,stays⟩
    · simp [own] at free
    · exact absurd free taken
    · by_cases its : x = y
      · subst y
        have closer := (stays own).1
        exact ⟨same.trans own,Nat.le_of_lt closer,fun _ => closer⟩
      · refine ⟨same.trans own,Nat.le_of_eq (others x its),fun his => ?_⟩
        exact absurd (Option.some.inj (his.symm.trans mine)) its

theorem fairFinishes {numThreads states labels} (ok : Delivered numThreads (states 0))
    (exec : Execution (step numThreads) states labels)
    (fair : Fair (step numThreads) mover states labels) :
    ∃ n, (states n).finished numThreads := by
  have oks : ∀ n, Delivered numThreads (states n) :=
    executionKept exec ok fun _ _ _ held next => (deliveredStep held next).1
  by_contra never
  have going : ∀ n, (states n).pool.handler.pc ≠ .idle := fun n idle =>
    never ⟨n,idleFinished (oks n) idle⟩
  obtain ⟨n,_,rests⟩ := @restsAtLast (fun n => handlerRank (states n).pool)
    (fun n => mover (labels n) = some .handler) 0 fun m _ => (deliveredStep (oks m) (exec.next m)).2
  have seldom : ∃ k, ∀ m ≥ k, ∀ event, mover event = some .handler →
      (step numThreads (states m) event).isSome = false := by
    by_contra often
    simp only [not_exists,not_forall,Bool.not_eq_false] at often
    obtain ⟨m,later,moved⟩ := fair .handler (fun k => by
      obtain ⟨m,later,event,moves,enabled⟩ := often k
      exact ⟨m,later,event,moves,enabled⟩) n
    exact rests m later moved
  obtain ⟨k,disabled⟩ := seldom
  -- from here on someone else holds mConList, and it is always the same thread
  have taken : ∀ m ≥ k, (states m).pool.mConList ≠ none := by
    intro m later free
    obtain ⟨event,moves,enabled⟩ := handlerEnabled (oks m).toInv (going m) fun _ => free
    simp [disabled m later event moves] at enabled
  obtain ⟨x,own⟩ := Option.ne_none_iff_exists'.mp (taken k (Nat.le_refl k))
  have held : ∀ m ≥ k, (states m).pool.mConList = some x := by
    intro m later
    induction later with
    | refl => exact own
    | @step m later ih =>
      exact (heldOn (oks m).toInv (exec.next m) ih (taken _ (Nat.le_succ_of_le later))).1
  obtain ⟨l,after,stuck⟩ := @restsAtLast (fun m => inside (states m).pool x)
    (fun m => mover (labels m) = some x) k fun m later =>
      (heldOn (oks m).toInv (exec.next m) (held m later) (taken _ (by omega))).2
  obtain ⟨m,later,moved⟩ := fair x (fun j => by
    obtain ⟨event,y,moves,enabled,holder⟩ := someoneEnabled (oks (j + k)) (going (j + k))
    have other : y ≠ .handler := by
      rintro rfl
      simp [disabled (j + k) (by omega) event moves] at enabled
    cases Option.some.inj ((holder other).symm.trans (held (j + k) (by omega)))
    exact ⟨j + k,by omega,event,moves,enabled⟩) l
  exact stuck m later moved

def State.selfBlocked (s : State) : Prop :=
  s.pool.handler.pc = .lock ∧ ∃ t, s.interrupted = some t ∧ s.pool.mConList = some t

/-- Whatever the threads do next, the handler does not block itself, it can come to its
end with every TERMINATE entry added, and it does so in every fair execution. -/
structure Completes (numThreads : Nat) (s : State) : Prop where
  unblocked : ∀ events t, run (step numThreads) s events = some t → ¬ t.selfBlocked
  possible : ∀ events t, run (step numThreads) s events = some t →
    ∃ more u, run (step numThreads) t more = some u ∧ u.finished numThreads
  fair : ∀ states labels, states 0 = s → Execution (step numThreads) states labels →
    Fair (step numThreads) mover states labels → ∃ n, (states n).finished numThreads

/- What becomes of a signal: the handler that finds LOOP set completes, the one that
does not returns at once. -/
def Handled (numThreads : Nat) (s t : State) : Prop :=
  if s.pool.loop then Completes numThreads t else t = s

theorem deliveredCompletes {numThreads s} (ok : Delivered numThreads s) :
    Completes numThreads s := by
  have keeps : ∀ s a t, Delivered numThreads s → step numThreads s a = some t →
      Delivered numThreads t :=
    fun _ _ _ held next => (deliveredStep held next).1
  refine ⟨fun events t ran => ?_,fun events t ran => canFinish (everyRun ok keeps ran),
    fun states labels start exec fair => fairFinishes (start ▸ ok) exec fair⟩
  intro ⟨locks,x,taken,own⟩
  have held := everyRun ok keeps ran
  exact held.apart (lockingSome held locks) x taken own

theorem handledExact {numThreads events s x t} (ran : run (step numThreads) initial events = some s)
    (next : step numThreads s (.sigint x) = some t) :
    Handled numThreads s t ↔ (s.pool.loop = true → 0 < numThreads → s.pool.mConList ≠ some x) := by
  have inv := everyRun (initialInv numThreads) (fun _ _ _ => stepInv) ran
  have later := stepInv inv next
  simp only [step] at next
  split at next <;> try contradiction
  cases Option.some.inj next
  unfold Handled
  cases on : s.pool.loop with
  | false => simp [catchInterrupt,on]
  | true =>
    simp only [catchInterrupt,on,if_true] at later ⊢
    constructor
    · intro completes _ more own
      let locks : State := {s with
        pool := {s.pool with loop := false, handler := ⟨.lock,numThreads⟩}, interrupted := some x}
      have first : run (step numThreads) {s with
          pool := {s.pool with loop := false, handler := ⟨.loop,numThreads⟩}, interrupted := some x}
          [.handler 0] = some locks := by
        simp [run,step,WorkerPool.step,handlerStep,locks,Nat.ne_of_gt more]
      exact completes.unblocked _ locks first ⟨rfl,x,rfl,own⟩
    · intro apart
      refine deliveredCompletes ⟨later,rfl,fun more y taken own => ?_⟩
      cases Option.some.inj taken
      exact apart trivial more own

def beforeLock : List Event := [.main 0 none,.main 0 none,.main 0 (some 4)]

theorem handledBeforeLock : ∃ s t, run (step 1) initial beforeLock = some s ∧
    step 1 s (.sigint .main) = some t ∧
    (Handled 1 s t ↔ (s.pool.loop = true → 0 < 1 → s.pool.mConList ≠ some .main)) := by
  have ran : run (step 1) initial beforeLock = some _ := rfl
  exact ⟨_,_,ran,rfl,handledExact ran rfl⟩

theorem blockedAtBroadcast : ∃ s t,
    run (step 1) initial (beforeLock ++ [.main 0 none,.main 7 none]) = some s ∧
    step 1 s (.sigint .main) = some t ∧ s.pool.main.pc = .broadcast ∧ ¬ Handled 1 s t :=
  ⟨_,_,rfl,rfl,rfl,fun handled : Completes 1 _ =>
    handled.unblocked [.handler 0] _ rfl ⟨rfl,.main,rfl,rfl⟩⟩

end IttyBittyServer.Interrupt
