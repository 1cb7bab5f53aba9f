import IttyBittyServer.Teardown

/-! The proxy's pool. Its main() has no shared nodes to look for, and an accept that fails
before SIGINT ends the process; catchInterrupt() and the list are the server's. Each step of
it is a run of the server's pool, which carries over what holds there. -/
namespace IttyBittyServer.ProxyPool
open ConList Run Interrupt
open WorkerPool (Tid Linked mainMove handlerMove workerMove enqueueLinked dequeueLinked handlerStep workerStep)
open Shutdown (Accounted Attending Losing Joined Settled InTime inHand pending)
open Teardown (Kept Stopping Stuck Ended moves wakes destroyAll)

/- exit() leaves no next state. -/
def mainStep (s : WorkerPool.State) (fresh : Nat) (answer : Option Int) : Option WorkerPool.State :=
  match s.main.pc with
  | .loop => some {s with main := {s.main with pc := if s.loop then .accept else .cleanUp}}
  | .accept => match answer with
    | some clientSock => some {s with main := ⟨.lock,⟨clientSock,.process⟩⟩}
    | none => if s.loop then none else some {s with main := {s.main with pc := .cleanUp}}
  | .lock => do
    let s ← s.acquire .main
    some {s with main := {s.main with pc := .addTail}}
  | .addTail => do
    let s ← s.enqueue fresh s.main.entry
    some {s with main := {s.main with pc := .broadcast}}
  | .broadcast => some {s with freeConn := [], main := {s.main with pc := .unlock}}
  | .unlock => some {s.release with main := {s.main with pc := .loop}}
  | .poll | .cleanUp => none

def closes (s : WorkerPool.State) (w : Nat) : List Int :=
  match (s.workers w).pc, (s.workers w).c.bind s.heap with
  | .serve, some client => [client.conn]
  | _, _ => []

def step (numThreads : Nat) (s : State) : Event → Option State
  | .sigint t => if running numThreads s.pool t then some (catchInterrupt numThreads s t) else none
  | .main fresh answer =>
    if s.interrupted = some .main then none
    else do
      let pool ← mainStep s.pool fresh answer
      some {s with pool := pool, accepted := s.accepted ++ accepts s.pool answer}
  | .handler fresh => do
    let pool ← handlerStep s.pool fresh
    let interrupted := if pool.handler.pc = .idle then none else s.interrupted
    some {s with pool := pool, interrupted := interrupted}
  | .worker w =>
    if s.interrupted = some (.worker w) ∨ numThreads ≤ w then none
    else do
      let pool ← workerStep s.pool w
      some {s with pool := pool, closed := s.closed ++ closes s.pool w}
  | .spurious w =>
    if w ∈ s.pool.freeConn then some {s with pool := {s.pool with freeConn := s.pool.freeConn.erase w}} else none

structure Plain (s : WorkerPool.State) : Prop where
  entry : s.main.entry.action ≠ .shared
  poll : s.main.pc ≠ .poll
  enqueued : ∀ e ∈ s.enqueued, e.action ≠ .shared
  heap : ∀ a c, s.heap a = some c → c.action ≠ .shared

section
variable {numThreads : Nat} {p q : WorkerPool.State} {s t : State}

theorem updatePlain {heap : Heap} {a : Nat} {c : Option Connection} (plain : ∀ a c, heap a = some c → c.action ≠ .shared)
    (new : ∀ d, c = some d → d.action ≠ .shared) (x : Nat) (d : Connection)
    (found : Function.update heap a c x = some d) : d.action ≠ .shared := by
  by_cases same : x = a
  · subst x
    exact new d (by simpa using found)
  · rw [Function.update_of_ne same] at found
    exact plain x d found

theorem enqueuePlain {fresh e} (plain : Plain p) (new : e.action ≠ .shared) (h : p.enqueue fresh e = some q) :
    Plain q := by
  simp only [WorkerPool.State.enqueue,addTail,newConnection,setNext,bind,Option.bind_eq_some_iff] at h
  obtain ⟨⟨heap,list⟩,⟨alloc,made,linked⟩,last⟩ := h
  cases Option.some.inj last
  have enqueued : ∀ x ∈ p.enqueued ++ [e], x.action ≠ .shared := fun x mem =>
    (List.mem_append.mp mem).elim (plain.enqueued x) fun its => List.mem_singleton.mp its ▸ new
  split at made <;> try contradiction
  cases Option.some.inj made
  have grown := updatePlain (a := fresh) (c := some ⟨e.conn,e.action,none⟩) plain.heap
    fun d same => Option.some.inj same ▸ new
  split at linked
  · cases Option.some.inj linked
    exact ⟨plain.entry,plain.poll,enqueued,grown⟩
  · obtain ⟨later,set,rest⟩ := Option.bind_eq_some_iff.mp linked
    cases Option.some.inj rest
    obtain ⟨a,_,set⟩ := Option.bind_eq_some_iff.mp set
    obtain ⟨c,found,last⟩ := Option.bind_eq_some_iff.mp set
    cases Option.some.inj last
    exact ⟨plain.entry,plain.poll,enqueued,updatePlain grown fun d same =>
      Option.some.inj same ▸ grown a c found⟩

theorem mainServed {fresh answer} (plain : Plain p) (h : mainStep p fresh answer = some q) :
    (WorkerPool.mainStep p fresh answer = some q ∨
      p.main.pc = .loop ∧ p.loop = true ∧ q = {p with main := {p.main with pc := .accept}}) ∧ Plain q := by
  cases pc : p.main.pc with
  | loop =>
    simp only [mainStep,pc,Option.some.injEq] at h
    subst q
    refine ⟨?_,plain.entry,by split <;> simp,plain.enqueued,plain.heap⟩
    cases on : p.loop with
    | true => exact Or.inr ⟨rfl,rfl,rfl⟩
    | false => exact Or.inl (by simp [WorkerPool.mainStep,pc,on])
  | poll => exact absurd pc plain.poll
  | accept =>
    simp only [mainStep,pc] at h
    cases answer with
    | some clientSock =>
      cases Option.some.inj h
      exact ⟨Or.inl (by simp [WorkerPool.mainStep,pc]),by simp,by simp,plain.enqueued,plain.heap⟩
    | none =>
      cases on : p.loop with
      | true => simp [on] at h
      | false =>
        simp only [on,Bool.false_eq_true,if_false] at h
        cases Option.some.inj h
        exact ⟨Or.inl (by simp [WorkerPool.mainStep,pc,on]),plain.entry,by simp,plain.enqueued,plain.heap⟩
  | lock =>
    simp only [mainStep,pc,bind,Option.bind_eq_some_iff] at h
    obtain ⟨u,taken,last⟩ := h
    cases Option.some.inj last
    refine ⟨Or.inl (by simp [WorkerPool.mainStep,pc,taken]),?_⟩
    obtain ⟨_,rfl⟩ := WorkerPool.acquired taken
    exact ⟨plain.entry,by simp,plain.enqueued,plain.heap⟩
  | addTail =>
    simp only [mainStep,pc,bind,Option.bind_eq_some_iff] at h
    obtain ⟨u,added,last⟩ := h
    cases Option.some.inj last
    obtain ⟨entry,_,enqueued,heap⟩ := enqueuePlain plain plain.entry added
    exact ⟨Or.inl (by simp [WorkerPool.mainStep,pc,added]),entry,by simp,enqueued,heap⟩
  | broadcast =>
    simp only [mainStep,pc] at h
    cases Option.some.inj h
    exact ⟨Or.inl (by simp [WorkerPool.mainStep,pc]),plain.entry,by simp,plain.enqueued,plain.heap⟩
  | unlock =>
    simp only [mainStep,pc] at h
    cases Option.some.inj h
    exact ⟨Or.inl (by simp [WorkerPool.mainStep,pc,plain.entry]),plain.entry,by simp,plain.enqueued,plain.heap⟩
  | cleanUp => simp [mainStep,pc] at h

theorem handlerPlain {fresh} (plain : Plain p) (h : handlerStep p fresh = some q) : Plain q := by
  cases handlerMove h with
  | loop | lock | broadcast | unlock => exact ⟨plain.entry,plain.poll,plain.enqueued,plain.heap⟩
  | addTail _ added =>
    obtain ⟨entry,poll,enqueued,heap⟩ := enqueuePlain plain (by simp) added
    exact ⟨entry,poll,enqueued,heap⟩

theorem workerPlain {w} (inv : WorkerPool.Inv numThreads p) (plain : Plain p) (h : workerStep p w = some q) :
    Plain q := by
  cases workerMove (inv.workers w) h with
  | lock | empty | nonempty | condWait | wake | unlock | client =>
    exact ⟨plain.entry,plain.poll,plain.enqueued,plain.heap⟩
  | removeHead pc own going nonempty takes =>
    obtain ⟨_,_,_,_,_,_,rfl⟩ := dequeueLinked inv.linked nonempty going pc takes
    exact ⟨plain.entry,plain.poll,plain.enqueued,plain.heap⟩
  | last | serve =>
    exact ⟨plain.entry,plain.poll,plain.enqueued,updatePlain plain.heap fun _ none => nomatch none⟩

theorem closesSame (plain : Plain p) (w : Nat) : closes p w = Interrupt.closes p w := by
  unfold closes Interrupt.closes
  cases held : (p.workers w).c.bind p.heap with
  | none => cases (p.workers w).pc <;> rfl
  | some client =>
    obtain ⟨a,_,found⟩ := Option.bind_eq_some_iff.mp held
    have process := plain.heap a client found
    cases (p.workers w).pc <;> simp [process]

structure Served (numThreads : Nat) (s : State) : Prop where
  inv : Shutdown.Inv numThreads s
  plain : Plain s.pool

/- main() goes from the head of its loop to accept; the server looks at its shared nodes in between. -/
def toAccept (s : State) : State := {s with pool := {s.pool with main := {s.pool.main with pc := .accept}}}

theorem stepServed {event} (ok : Served numThreads s) (h : step numThreads s event = some t) :
    (Interrupt.step numThreads s event = some t ∨
      s.interrupted ≠ some .main ∧ s.pool.main.pc = .loop ∧ s.pool.loop = true ∧ t = toAccept s) ∧
    Plain t.pool := by
  have plain := ok.plain
  cases event with
  | sigint x =>
    refine ⟨Or.inl h,?_⟩
    simp only [step] at h
    split at h <;> try contradiction
    cases Option.some.inj h
    unfold catchInterrupt
    split
    · exact ⟨plain.entry,plain.poll,plain.enqueued,plain.heap⟩
    · exact plain
  | main fresh answer =>
    simp only [step] at h
    split at h <;> try contradiction
    rename_i free
    simp only [bind,Option.bind_eq_some_iff] at h
    obtain ⟨pool,moved,last⟩ := h
    cases Option.some.inj last
    obtain ⟨same | ⟨pc,on,rfl⟩,plain⟩ := mainServed plain moved
    · exact ⟨Or.inl (by simp [Interrupt.step,free,WorkerPool.step,same]),plain⟩
    · exact ⟨Or.inr ⟨free,pc,on,by simp [toAccept,accepts,pc]⟩,plain⟩
  | handler fresh =>
    refine ⟨Or.inl h,?_⟩
    simp only [step,bind,Option.bind_eq_some_iff] at h
    obtain ⟨pool,moved,last⟩ := h
    cases Option.some.inj last
    exact handlerPlain plain moved
  | worker w =>
    simp only [step] at h
    split at h <;> try contradiction
    rename_i free
    obtain ⟨free,bound⟩ := not_or.mp free
    simp only [bind,Option.bind_eq_some_iff] at h
    obtain ⟨pool,moved,last⟩ := h
    cases Option.some.inj last
    refine ⟨Or.inl ?_,workerPlain ok.inv.pool plain moved⟩
    simp [Interrupt.step,free,WorkerPool.step,Nat.lt_of_not_le bound,moved,closesSame plain]
  | spurious w =>
    simp only [step] at h
    split at h <;> try contradiction
    rename_i waits
    cases Option.some.inj h
    exact ⟨Or.inl (by simp [Interrupt.step,WorkerPool.step,waits]),plain.entry,plain.poll,plain.enqueued,plain.heap⟩

theorem toAcceptServed (free : s.interrupted ≠ some .main) (pc : s.pool.main.pc = .loop) (on : s.pool.loop = true) :
    ∃ u, Interrupt.step numThreads s (.main 0 none) = some u ∧ u.pool.main.pc = .poll ∧
      Interrupt.step numThreads u (.main 0 none) = some (toAccept s) := by
  refine ⟨{s with pool := {s.pool with main := {s.pool.main with pc := .poll}}},?_,rfl,?_⟩
  · simp [Interrupt.step,free,WorkerPool.step,WorkerPool.mainStep,pc,on,accepts]
  · simp [Interrupt.step,free,WorkerPool.step,WorkerPool.mainStep,accepts,toAccept]

theorem servedKeeps {kept : State → Prop} {event} (ok : Served numThreads s) (start : kept s)
    (mine : Interrupt.step numThreads s event = some t → kept t)
    (keeps : ∀ u v, kept u → u.pool.main.pc ≠ .addTail → Interrupt.step numThreads u (.main 0 none) = some v → kept v)
    (h : step numThreads s event = some t) : kept t := by
  obtain ⟨same | ⟨free,pc,on,rfl⟩,_⟩ := stepServed ok h
  · exact mine same
  · obtain ⟨u,first,poll,second⟩ := @toAcceptServed numThreads s free pc on
    exact keeps _ _ (keeps _ _ start (by simp [pc]) first) (by simp [poll]) second

theorem stepKept {event} (ok : Served numThreads s) (h : step numThreads s event = some t) : Served numThreads t :=
  ⟨servedKeeps ok ok.inv (Shutdown.stepInv ok.inv) (fun _ _ inv _ => Shutdown.stepInv inv) h,(stepServed ok h).2⟩

theorem initialServed (numThreads : Nat) : Served numThreads initial :=
  ⟨⟨initialInv numThreads,Shutdown.initialAccounted numThreads⟩,by simp [initial,WorkerPool.initial],
    by simp [initial,WorkerPool.initial],by simp [initial,WorkerPool.initial],by simp [initial,WorkerPool.initial]⟩

theorem runServed {events} (ran : run (step numThreads) initial events = some s) : Served numThreads s :=
  everyRun (initialServed numThreads) (fun _ _ _ => stepKept) ran

theorem stepRuns {event} (ok : Served numThreads s) (h : step numThreads s event = some t) :
    ∃ served, run (Interrupt.step numThreads) s served = some t := by
  obtain ⟨same | ⟨free,pc,on,rfl⟩,_⟩ := stepServed ok h
  · exact ⟨[event],by simp [run,same]⟩
  · obtain ⟨u,first,_,second⟩ := @toAcceptServed numThreads s free pc on
    exact ⟨[.main 0 none,.main 0 none],by simp [run,first,second]⟩

theorem attendingKept {event} (ok : Served numThreads s ∧ Attending numThreads s) (inTime : InTime numThreads s event)
    (h : step numThreads s event = some t) : Served numThreads t ∧ Attending numThreads t :=
  ⟨stepKept ok.1 h,servedKeeps ok.1 ok.2 (Shutdown.attendingStep ok.2 inTime)
    (fun _ _ held other => Shutdown.attendingStep held fun pc => absurd pc other) h⟩

theorem losingStarts {event} (ok : Served numThreads s ∧ Attending numThreads s) (late : ¬ InTime numThreads s event)
    (h : step numThreads s event = some t) : Served numThreads t ∧ Losing numThreads t := by
  refine ⟨stepKept ok.1 h,?_⟩
  obtain ⟨same | ⟨_,pc,_⟩,_⟩ := stepServed ok.1 h
  · exact Shutdown.losingStarts ok.2 late same
  · refine absurd ?_ late
    cases event <;> simp [InTime,pc]

theorem losingStays {event} (ok : Served numThreads s ∧ Losing numThreads s) (h : step numThreads s event = some t) :
    Served numThreads t ∧ Losing numThreads t :=
  ⟨stepKept ok.1 h,servedKeeps ok.1 ok.2 (Shutdown.losingStays ok.2)
    (fun _ _ held _ => Shutdown.losingStays held) h⟩

/- After SIGINT the two pools take the same steps. -/
theorem stoppedSame {event} (plain : Plain s.pool) (off : s.pool.loop = false) :
    step numThreads s event = Interrupt.step numThreads s event := by
  cases event with
  | sigint | handler => rfl
  | spurious w => by_cases waits : w ∈ s.pool.freeConn <;> simp [step,Interrupt.step,WorkerPool.step,waits]
  | main fresh answer =>
    have same : mainStep s.pool fresh answer = WorkerPool.mainStep s.pool fresh answer := by
      cases pc : s.pool.main.pc with
      | accept => cases answer <;> simp [mainStep,WorkerPool.mainStep,pc,off]
      | poll => exact absurd pc plain.poll
      | unlock => simp [mainStep,WorkerPool.mainStep,pc,plain.entry]
      | loop | lock | addTail | broadcast | cleanUp => simp [mainStep,WorkerPool.mainStep,pc,off]
    simp only [step,Interrupt.step,WorkerPool.step,same]
  | worker w =>
    by_cases bound : w < numThreads
    · simp [step,Interrupt.step,WorkerPool.step,bound,Nat.not_le_of_lt bound,closesSame plain]
    · simp [step,Interrupt.step,WorkerPool.step,bound,Nat.le_of_not_lt bound]

theorem stoppedRuns {more} (ok : Served numThreads s) (off : s.pool.loop = false)
    (later : run (step numThreads) s more = some t) :
    run (Interrupt.step numThreads) s more = some t ∧ Served numThreads t ∧ t.pool.loop = false := by
  induction more generalizing s with
  | nil =>
    cases Option.some.inj later
    exact ⟨rfl,ok,off⟩
  | cons event rest ih =>
    obtain ⟨u,first,rest⟩ := runCons later
    have same : Interrupt.step numThreads s event = some u := (stoppedSame ok.plain off).symm.trans first
    have still := (Teardown.stoppingKept ⟨ok.inv.toInv,off⟩ same).2
    obtain ⟨ran,served,off⟩ := ih (stepKept ok first) still rest
    exact ⟨by simp [run,same,ran],served,off⟩

/-- Every run of the proxy's pool is one of the server's, with no SHARED entry in it. A socket
that accept returned is in main's hands, on the list, in a worker's hands or closed, once for
each time that accept returned it. -/
theorem proxyRefined {events} (ran : run (step numThreads) initial events = some s) :
    (∃ served, run (Interrupt.step numThreads) initial served = some s) ∧
    WorkerPool.Dispatched numThreads s.pool ∧ (∀ e ∈ s.pool.enqueued, e.action ≠ .shared) ∧
    ∀ x, s.accepted.count x = (if pending s.pool x then 1 else 0) + s.pool.queue.count ⟨x,.process⟩ +
      (List.range numThreads).countP (inHand s.pool x) + s.closed.count x := by
  have ok := runServed ran
  refine ⟨?_,ok.inv.pool.dispatched,ok.plain.enqueued,fun x => ?_⟩
  · have each : ∀ s event t u, (s = u ∧ Served numThreads s) → step numThreads s event = some t →
        ∃ served v, run (Interrupt.step numThreads) u served = some v ∧ t = v ∧ Served numThreads t := by
      rintro s event t _ ⟨rfl,ok⟩ next
      obtain ⟨served,same⟩ := stepRuns ok next
      exact ⟨served,t,same,rfl,stepKept ok next⟩
    obtain ⟨served,_,same,rfl,_⟩ := simulated ⟨rfl,initialServed numThreads⟩ each ran
    exact ⟨served,same⟩
  · have accepted := ok.inv.accounted.accepted x
    have closed := ok.inv.accounted.closed x
    have order : s.pool.enqueued = s.pool.dequeued.map Prod.snd ++ s.pool.queue := by
      obtain ⟨later,eq⟩ := ok.inv.pool.linked.order
      simp [WorkerPool.State.queue,← eq]
    rw [order,List.count_append] at accepted
    omega

def servedOne : List Event :=
  [.main 0 none,.main 0 (some 4),.main 0 none,.main 7 none,.main 0 none,.main 0 none,
    .worker 0,.worker 0,.worker 0,.worker 0,.worker 0,.worker 0,.main 0 none]

theorem proxyRefinedOne : ∃ s, run (step 1) initial servedOne = some s ∧ s.accepted = [4] ∧ s.closed = [4] ∧
    (∃ served, run (Interrupt.step 1) initial served = some s) := by
  have ran : (run (step 1) initial servedOne).map Shutdown.outcome = some (.accept,.lock,[4],[4]) := by
    decide +kernel
  obtain ⟨s,hs,ends⟩ := Option.map_eq_some_iff.mp ran
  simp only [Shutdown.outcome,Prod.mk.injEq] at ends
  exact ⟨s,hs,ends.2.2.1,ends.2.2.2,(proxyRefined hs).1⟩

/-- After SIGINT the proxy's threads have only so many steps left. Where they come to rest every
worker has ended, unless the handler waits for its own thread, and destroyAll then finds every
node that is left. -/
theorem proxyShutdown {events more} (ran : run (step numThreads) initial events = some s)
    (off : s.pool.loop = false) (later : run (step numThreads) s more = some t) :
    (more.map moves).sum ≤ s.pool.handler.remaining * (3 * numThreads + 11) + 6 * s.pool.queue.length +
      15 * numThreads + 27 + 3 * (more.map wakes).sum ∧
    (Stuck (step numThreads) t ∧ ¬ t.selfBlocked ↔ Ended numThreads t) ∧
    (Joined numThreads t → ∀ fuel ≥ t.pool.queue.length,
      ∃ heap, destroyAll t.pool.heap fuel t.pool.list = some heap ∧ ∀ a, heap a = none) := by
  have ok := runServed ran
  obtain ⟨same,served,still⟩ := stoppedRuns ok off later
  obtain ⟨bound,rests⟩ := Teardown.teardownEnds ⟨ok.inv.toInv,off⟩ same
  have stuck : Stuck (step numThreads) t ↔ Stuck (Interrupt.step numThreads) t := by
    simp only [Stuck,stoppedSame served.plain still]
  refine ⟨bound,by rw [stuck]; exact rests,fun joined _ enough => ?_⟩
  have kept : Kept numThreads t.pool := by
    have every : ∀ s event t, (Served numThreads s ∧ Kept numThreads s.pool) → step numThreads s event = some t →
        Served numThreads t ∧ Kept numThreads t.pool := fun s event t held next =>
      ⟨stepKept held.1 next,(@servedKeeps numThreads s t (fun s => Inv numThreads s ∧ Kept numThreads s.pool) event
        held.1 ⟨held.1.inv.toInv,held.2⟩ (Teardown.keptStep ⟨held.1.inv.toInv,held.2⟩)
        (fun _ _ inv _ => Teardown.keptStep inv) next).2⟩
    have start : Kept numThreads initial.pool := ⟨[],representsNew _,fun _ used => absurd rfl used⟩
    exact (everyRun ⟨initialServed numThreads,start⟩ every (runAppend.mpr ⟨s,ran,later⟩)).2
  exact Teardown.keptFreed served.inv.toInv kept joined enough

def stopping : List Event :=
  [.handler 0,.handler 0,.handler 6,.handler 0,.handler 0,.handler 0,.worker 0,.worker 0,.worker 0,.worker 0,
    .worker 0,.main 0 none]

theorem proxyShutdownOne : ∃ s t, run (step 1) initial (servedOne ++ [.sigint .main]) = some s ∧
    run (step 1) s stopping = some t ∧ Ended 1 t ∧ Stuck (step 1) t ∧
    ∃ heap, destroyAll t.pool.heap t.pool.queue.length t.pool.list = some heap ∧ ∀ a, heap a = none := by
  have taken : (run (step 1) initial (servedOne ++ [.sigint .main])).map (fun s => s.pool.loop) = some false := by
    decide +kernel
  have ended : (run (step 1) initial ((servedOne ++ [.sigint .main]) ++ stopping)).map
      (fun t => (t.pool.handler.pc,Shutdown.outcome t)) = some (.idle,.cleanUp,.exited,[4],[4]) := by decide +kernel
  obtain ⟨s,hs,off⟩ := Option.map_eq_some_iff.mp taken
  obtain ⟨t,ht,ends⟩ := Option.map_eq_some_iff.mp ended
  obtain ⟨_,same,ht⟩ := runAppend.mp ht
  cases Option.some.inj (hs.symm.trans same)
  obtain ⟨idle,ends⟩ := Prod.mk.inj ends
  obtain ⟨joined,_⟩ := Shutdown.joinedOne ends
  obtain ⟨_,rests,freed⟩ := proxyShutdown hs off ht
  have ended : Ended 1 t := ⟨idle,joined.2,Or.inl joined.1⟩
  exact ⟨s,t,hs,ht,ended,(rests.mpr ended).1,freed joined _ (Nat.le_refl _)⟩

/-- When the proxy's workers are joined, every client that was accepted has been served if and
only if main never added one behind the last TERMINATE entry. -/
theorem proxyStranded {events} (ran : run (step numThreads) initial events = some s) (joined : Joined numThreads s) :
    Settled s ↔ Along (step numThreads) (InTime numThreads) initial events := by
  have ok := runServed ran
  obtain ⟨none,plain⟩ := Shutdown.joinedEmpty ok.inv joined
  have final : Settled s ↔ ¬ Shutdown.Lost numThreads s := by
    rw [Shutdown.settledExact ok.inv joined,← Shutdown.attendedExact plain]
    simp [Shutdown.Lost,none]
  rw [final]
  exact endExact ⟨initialServed numThreads,(initialServed numThreads).inv,fun _ => trivial⟩
    (fun _ _ _ => attendingKept) (fun _ _ _ => losingStarts) (fun _ _ _ => losingStays)
    (fun s ok => (fun lost => lost.2 (ok.2.attended lost.1) : ¬ Shutdown.Lost numThreads s))
    (fun _ losing kept => kept losing.2.lost) ran

def stranding : List Event :=
  [.main 0 none,.main 0 (some 4),.sigint .main,.handler 0,.handler 0,.handler 6,.handler 0,.handler 0,.handler 0,
    .main 0 none,.main 7 none,.main 0 none,.main 0 none,.main 0 none,
    .worker 0,.worker 0,.worker 0,.worker 0,.worker 0]

theorem proxyStrandedOne : ∃ s, run (step 1) initial stranding = some s ∧ Joined 1 s ∧ ¬ Settled s ∧
    ¬ Along (step 1) (InTime 1) initial stranding := by
  have ran : (run (step 1) initial stranding).map Shutdown.outcome = some (.cleanUp,.exited,[4],[]) := by
    decide +kernel
  obtain ⟨s,hs,ends⟩ := Option.map_eq_some_iff.mp ran
  obtain ⟨joined,accepted,closed⟩ := Shutdown.joinedOne ends
  have stranded : ¬ Settled s := fun settled => by
    have length := settled.1.length_eq
    simp [accepted,closed] at length
  exact ⟨s,hs,joined,stranded,fun inTime => stranded ((proxyStranded hs joined).mpr inTime)⟩

end

end IttyBittyServer.ProxyPool
