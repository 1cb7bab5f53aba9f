import IttyBittyServer.Interrupt

/-! The end of the server: cleanUpGlobals() joins the workers and then destroys the list
without closing the sockets that are still on it. -/
namespace IttyBittyServer.Shutdown
open ConList Run Interrupt
open WorkerPool (MainPc WorkerPc Linked WorkerOk mainStep workerStep mainMove workerMove enqueueLinked
  dequeueLinked)
open WorkerPool.State (goto)

def toCome (numThreads : Nat) (s : WorkerPool.State) : Nat :=
  if s.loop then numThreads else s.handler.remaining

def InTime (numThreads : Nat) (s : State) : Event → Prop
  | .main _ _ => s.pool.main.pc = .addTail → s.pool.main.entry.action = .process →
      0 < toCome numThreads s.pool
  | _ => True

def Joined (numThreads : Nat) (s : State) : Prop :=
  s.pool.main.pc = .cleanUp ∧ ∀ w < numThreads, (s.pool.workers w).pc = .exited

def Settled (s : State) : Prop :=
  s.accepted.Perm s.closed ∧
  ∀ nodes entries, Chain s.pool.heap s.pool.list.head nodes entries → ∀ e ∈ entries, e.action ≠ .process

def Attended : List Entry → Prop
  | [] => True
  | e::rest => (e.action = .process → ∃ later ∈ rest, later.action = .terminate) ∧ Attended rest

def Lost (numThreads : Nat) (s : State) : Prop :=
  toCome numThreads s.pool = 0 ∧ ¬ Attended s.pool.queue

theorem attendedToken {entries : List Entry} (conn : Int) : Attended (entries ++ [⟨conn,.terminate⟩]) := by
  induction entries with
  | nil => simp [Attended]
  | cons e rest ih => exact ⟨fun _ => ⟨⟨conn,.terminate⟩,by simp,rfl⟩,ih⟩

theorem attendedAppend {entries : List Entry} {e : Entry} (h : Attended entries)
    (other : e.action ≠ .process) : Attended (entries ++ [e]) := by
  induction entries with
  | nil => exact ⟨fun process => absurd process other,trivial⟩
  | cons x rest ih =>
    refine ⟨fun process => ?_,ih h.2⟩
    obtain ⟨later,mem,ends⟩ := h.1 process
    exact ⟨later,List.mem_append_left _ mem,ends⟩

theorem attendedLast {entries : List Entry} {e : Entry} (process : e.action = .process) :
    ¬ Attended (entries ++ [e]) := by
  induction entries with
  | nil => simp [Attended,process]
  | cons x rest ih => exact fun h => ih h.2

theorem attendedPrefix {entries : List Entry} {e : Entry} (h : Attended (entries ++ [e]))
    (plain : e.action ≠ .terminate) : Attended entries := by
  induction entries with
  | nil => trivial
  | cons x rest ih =>
    refine ⟨fun process => ?_,ih h.2⟩
    obtain ⟨later,mem,ends⟩ := h.1 process
    rcases List.mem_append.mp mem with old | new
    · exact ⟨later,old,ends⟩
    · exact absurd (List.mem_singleton.mp new ▸ ends) plain

theorem attendedExact {entries : List Entry} (none : ∀ e ∈ entries, e.action ≠ .terminate) :
    Attended entries ↔ ∀ e ∈ entries, e.action ≠ .process := by
  induction entries with
  | nil => simp [Attended]
  | cons x rest ih =>
    have later := ih fun e he => none e (List.mem_cons_of_mem _ he)
    simp only [Attended,later,List.forall_mem_cons]
    constructor
    · intro ⟨behind,plain⟩
      refine ⟨fun process => ?_,plain⟩
      obtain ⟨e,mem,ends⟩ := behind process
      exact none e (List.mem_cons_of_mem _ mem) ends
    · exact fun ⟨other,plain⟩ => ⟨fun process => absurd process other,plain⟩

def pending (s : WorkerPool.State) (x : Int) : Bool :=
  (s.main.pc == .lock || s.main.pc == .addTail) && s.main.entry == ⟨x,.process⟩

def inHand (s : WorkerPool.State) (x : Int) (w : Nat) : Bool := match (s.workers w).pc with
  | .unlock | .action | .serve =>
    ((s.workers w).c.bind s.heap).map Connection.entry == some ⟨x,.process⟩
  | _ => false

structure Accounted (numThreads : Nat) (s : State) : Prop where
  accepted : ∀ x, s.accepted.count x = s.pool.enqueued.count ⟨x,.process⟩ +
    if pending s.pool x then 1 else 0
  closed : ∀ x, (s.pool.dequeued.map Prod.snd).count ⟨x,.process⟩ = s.closed.count x +
    (List.range numThreads).countP (inHand s.pool x)
  served : ∀ w c, (s.pool.workers w).pc = .serve → (s.pool.workers w).c.bind s.pool.heap = some c →
    c.action ≠ .terminate
  off : s.pool.main.pc = .cleanUp → s.pool.loop = false

theorem initialAccounted (numThreads) : Accounted numThreads initial := by
  refine ⟨?_,fun x => ?_,?_,?_⟩
  · simp [initial,WorkerPool.initial,pending]
  · have none : (List.range numThreads).countP (inHand initial.pool x) = 0 :=
      List.countP_eq_zero.mpr fun w _ => by simp [inHand,initial,WorkerPool.initial]
    rw [none]
    rfl
  · simp [initial,WorkerPool.initial]
  · simp [initial,WorkerPool.initial]

theorem mainHands {numThreads} {s u : WorkerPool.State} {fresh answer} (inv : WorkerPool.Inv numThreads s)
    (h : mainStep s fresh answer = some u) (x : Int) :
    (accepts s answer).count x + (if pending s x then 1 else 0) =
      (if s.main.pc = .addTail then [s.main.entry] else []).count ⟨x,.process⟩ +
        if pending u x then 1 else 0 := by
  cases mainMove h with
  | loop pc | refused pc => cases s.loop <;> simp [accepts,pending,pc]
  | idle pc | found pc | lock pc _ | broadcast pc => simp [accepts,pending,pc]
  | @accepted clientSock pc => by_cases same : clientSock = x <;> simp [accepts,pending,pc,same]
  | addTail pc added =>
    obtain ⟨_,_,_,heap,list,rfl⟩ := enqueueLinked inv.linked added
    by_cases same : s.main.entry = ⟨x,.process⟩ <;> simp [accepts,pending,pc,same]
  | unlock pc => by_cases shared : s.main.entry.action = .shared <;> simp [accepts,pending,pc,shared]

theorem mainEnds {s u : WorkerPool.State} {fresh answer} (h : mainStep s fresh answer = some u)
    (ends : u.main.pc = .cleanUp) : s.loop = false := by
  cases mainMove h with
  | loop pc | refused pc => cases on : s.loop <;> simp [on] at ends ⊢
  | idle pc | found pc | accepted pc | lock pc _ | addTail pc _ | broadcast pc => simp at ends
  | unlock pc => by_cases shared : s.main.entry.action = .shared <;> simp [shared] at ends

theorem workerHands {numThreads} {s u : WorkerPool.State} {w} (inv : WorkerPool.Inv numThreads s)
    (served : ∀ c, (s.workers w).pc = .serve → (s.workers w).c.bind s.heap = some c →
      c.action ≠ .terminate)
    (h : workerStep s w = some u) : ∃ taken,
    u.dequeued.map Prod.snd = s.dequeued.map Prod.snd ++ taken ∧
    (∀ x, taken.count ⟨x,.process⟩ + (if inHand s x w then 1 else 0) =
      (closes s w).count x + if inHand u x w then 1 else 0) ∧
    ∀ c, (u.workers w).pc = .serve → (u.workers w).c.bind u.heap = some c → c.action ≠ .terminate := by
  cases workerMove (inv.workers w) h with
  | lock pc | empty pc | nonempty pc | condWait pc | wake pc =>
    exact ⟨[],by simp [goto,WorkerPool.State.release],by simp [inHand,closes,pc,goto],by simp [goto]⟩
  | removeHead pc own going nonempty moves =>
    obtain ⟨a,c,list,found,_,_,rfl⟩ := dequeueLinked inv.linked nonempty going pc moves
    refine ⟨[c.entry],by simp [goto],fun x => ?_,by simp [goto]⟩
    by_cases same : c.entry = ⟨x,.process⟩ <;> simp [inHand,closes,pc,goto,found,same]
  | unlock pc =>
    exact ⟨[],by simp [goto,WorkerPool.State.release],
      by simp [inHand,closes,pc,goto,WorkerPool.State.release],by simp [goto]⟩
  | last pc held found _ ends =>
    exact ⟨[],by simp [goto],
      by simp [inHand,closes,pc,goto,held,found,Connection.entry,ends],by simp [goto]⟩
  | client pc held found _ more =>
    refine ⟨[],by simp [goto],by simp [inHand,closes,pc,goto,held,found],fun c' _ same => ?_⟩
    cases Option.some.inj (found.symm.trans (by simpa [goto,held] using same))
    exact more
  | @serve a pc held going =>
    obtain ⟨c,found⟩ := Option.ne_none_iff_exists'.mp (inv.linked.held w a held)
    have open_ := served c pc (by simp [held,found])
    refine ⟨[],by simp [goto],fun x => ?_,by simp [goto]⟩
    cases action : c.action with
    | process =>
      by_cases same : c.conn = x <;>
        simp [inHand,closes,pc,goto,held,found,Connection.entry,action,same]
    | shared => simp [inHand,closes,pc,goto,held,found,Connection.entry,action]
    | terminate => exact absurd action open_

structure Inv (numThreads : Nat) (s : State) : Prop extends Interrupt.Inv numThreads s where
  accounted : Accounted numThreads s

theorem heldFrame {s u : WorkerPool.State} {w} (heap : ∀ a, (s.workers w).c = some a → u.heap a = s.heap a) :
    (s.workers w).c.bind u.heap = (s.workers w).c.bind s.heap := by
  cases held : (s.workers w).c with
  | none => rfl
  | some a => exact heap a held

theorem inHandFrame {s u : WorkerPool.State} {w} (worker : u.workers w = s.workers w)
    (heap : ∀ a, (s.workers w).c = some a → u.heap a = s.heap a) (x : Int) :
    inHand u x w = inHand s x w := by
  simp only [inHand,worker,heldFrame heap]

theorem stepInv {numThreads s event t} (inv : Inv numThreads s)
    (h : step numThreads s event = some t) : Inv numThreads t := by
  refine ⟨Interrupt.stepInv inv.toInv h,?_⟩
  have accounted := inv.accounted
  cases stepMove h with
  | sigint runs =>
    unfold catchInterrupt
    split
    · exact ⟨accounted.accepted,accounted.closed,accounted.served,fun _ => rfl⟩
    · exact accounted
  | @main fresh answer pool free moves =>
    have moved := mainMoved inv.pool inv.owned moves
    refine ⟨fun x => ?_,fun x => ?_,fun w c => ?_,fun ends => ?_⟩
    · have hands := mainHands inv.pool moves x
      have before := accounted.accepted x
      simp only [moved.enqueued,List.count_append]
      omega
    · have same : inHand pool x = inHand s.pool x := funext fun w =>
        inHandFrame (by rw [moved.workers]) (moved.held w) x
      simp only [moved.dequeued,same]
      exact accounted.closed x
    · simp only [moved.workers,heldFrame (moved.held w)]
      exact accounted.served w c
    · exact moved.loop.trans (mainEnds moves ends)
  | @handler fresh pool moves =>
    have moved := handlerMoved inv.pool inv.owned moves
    refine ⟨fun x => ?_,fun x => ?_,fun w c => ?_,?_⟩
    · have plain : (if s.pool.handler.pc = .addTail then [(⟨0,.terminate⟩ : Entry)] else []).count
          ⟨x,.process⟩ = 0 := by split <;> simp
      simp only [moved.enqueued,List.count_append,plain,pending,moved.main]
      exact accounted.accepted x
    · have same : inHand pool x = inHand s.pool x := funext fun w =>
        inHandFrame (by rw [moved.workers]) (moved.held w) x
      simp only [moved.dequeued,same]
      exact accounted.closed x
    · simp only [moved.workers,heldFrame (moved.held w)]
      exact accounted.served w c
    · simp only [moved.main,moved.loop]
      exact accounted.off
  | @worker w pool free bound moves =>
    have moved := workerMoved inv.pool inv.owned moves
    obtain ⟨taken,dequeued,hands,served⟩ := workerHands inv.pool (accounted.served w) moves
    refine ⟨fun x => ?_,fun x => ?_,fun v c => ?_,?_⟩
    · simp only [moved.enqueued,pending,moved.main]
      exact accounted.accepted x
    · have move := WorkerPool.countPMove (fun v other => inHandFrame (moved.others v other)
        (fun a => moved.held v a other) x) List.nodup_range (List.mem_range.mpr bound)
      have before := accounted.closed x
      have now := hands x
      simp only [dequeued,List.count_append]
      omega
    · by_cases mine : v = w
      · subst v; exact served c
      · simp only [moved.others v mine,heldFrame fun a => moved.held v a mine]
        exact accounted.served v c
    · simp only [moved.main,moved.loop]
      exact accounted.off
  | spurious waits => exact ⟨accounted.accepted,accounted.closed,accounted.served,accounted.off⟩

theorem queueAppend {s u : WorkerPool.State} {more} (linked : Linked s)
    (enqueued : u.enqueued = s.enqueued ++ more) (dequeued : u.dequeued = s.dequeued) :
    u.queue = s.queue ++ more := by
  have longer := WorkerPool.dequeuedLength linked
  simp [WorkerPool.State.queue,enqueued,dequeued,List.drop_append_of_le_length longer]

theorem workerTakes {numThreads} {s u : WorkerPool.State} {w} (inv : WorkerPool.Inv numThreads s)
    (moved : WorkerMoved w s u) (h : workerStep s w = some u) :
    u.queue = s.queue ∨ s.ended w = false ∧ ∃ e, s.queue = e::u.queue := by
  by_cases pc : (s.workers w).pc = .removeHead
  · have own := inv.workers w
    simp only [WorkerOk,pc] at own
    obtain ⟨_,c,_,_,queue,_,_⟩ := dequeueLinked inv.linked own.2.2.2 own.2.2.1 pc h
    exact Or.inr ⟨own.2.2.1,c.entry,queue⟩
  · exact Or.inl (by simp [WorkerPool.State.queue,moved.enqueued,moved.dequeued pc])

theorem tokenLeft {numThreads} {s : WorkerPool.State} {w} (inv : WorkerPool.Inv numThreads s)
    (bound : w < numThreads) (going : s.ended w = false) (none : toCome numThreads s = 0) :
    ∃ e ∈ s.queue, e.action = .terminate := by
  unfold toCome at none
  split at none
  · omega
  · rename_i off
    have sum := inv.counted.sum (by simpa using off)
    have less : (List.range numThreads).countP s.ended < numThreads := by
      have most : (List.range numThreads).countP s.ended ≤ numThreads := by
        simpa using List.countP_le_length (p := s.ended) (l := List.range numThreads)
      refine Nat.lt_of_le_of_ne most fun all => ?_
      have every := List.countP_eq_length.mp (all.trans (List.length_range).symm)
      simp [every w (List.mem_range.mpr bound)] at going
    have some : 0 < s.tokens := by omega
    obtain ⟨e,mem,ends⟩ := List.countP_pos_iff.mp some
    exact ⟨e,mem,by simpa using ends⟩

structure Attending (numThreads : Nat) (s : State) : Prop where
  inv : Inv numThreads s
  attended : toCome numThreads s.pool = 0 → Attended s.pool.queue

theorem toComeSame {numThreads} {s u : WorkerPool.State} (loop : u.loop = s.loop)
    (remaining : u.handler.remaining = s.handler.remaining) : toCome numThreads u = toCome numThreads s := by
  simp [toCome,loop,remaining]

theorem stepQueue {numThreads s event t} (inv : Inv numThreads s)
    (h : step numThreads s event = some t) :
    toCome numThreads t.pool = toCome numThreads s.pool ∧
      (t.pool.queue = s.pool.queue ∨
        (∃ e, s.pool.queue = e::t.pool.queue ∧
          (toCome numThreads s.pool = 0 → ∃ x ∈ s.pool.queue, x.action = .terminate)) ∨
        ∃ e, t.pool.queue = s.pool.queue ++ [e] ∧ e.action ≠ .terminate ∧
          (e.action = .process → (InTime numThreads s event ↔ 0 < toCome numThreads s.pool))) ∨
    0 < toCome numThreads s.pool ∧ t.pool.queue = s.pool.queue ++ [⟨0,.terminate⟩] := by
  cases stepMove h with
  | sigint runs =>
    unfold catchInterrupt
    split
    · rename_i on
      exact Or.inl ⟨by simp [toCome,on],Or.inl rfl⟩
    · exact Or.inl ⟨rfl,Or.inl rfl⟩
  | main free moves =>
    have moved := mainMoved inv.pool inv.owned moves
    have queue := queueAppend inv.pool.linked moved.enqueued moved.dequeued
    refine Or.inl ⟨toComeSame moved.loop (by rw [moved.handler]),?_⟩
    by_cases pc : s.pool.main.pc = .addTail
    · refine Or.inr (Or.inr ⟨s.pool.main.entry,by simpa [pc] using queue,inv.pool.main.1,
        fun process => ?_⟩)
      simp [InTime,pc,process]
    · exact Or.inl (by simpa [pc] using queue)
  | handler moves =>
    have moved := handlerMoved inv.pool inv.owned moves
    have queue := queueAppend inv.pool.linked moved.enqueued moved.dequeued
    have remaining := moved.remaining
    by_cases pc : s.pool.handler.pc = .addTail
    · have own := inv.pool.handler
      simp only [WorkerPool.HandlerOk,pc] at own
      have off : s.pool.loop = false := by
        by_contra on
        simp [(inv.pool.counted.before (by simpa using on)).2] at pc
      exact Or.inr ⟨by simpa [toCome,off] using own.2,by simpa [pc] using queue⟩
    · exact Or.inl ⟨toComeSame moved.loop (by simpa [pc] using remaining),
        Or.inl (by simpa [pc] using queue)⟩
  | worker free bound moves =>
    have moved := workerMoved inv.pool inv.owned moves
    refine Or.inl ⟨toComeSame moved.loop (by rw [moved.handler]),?_⟩
    rcases workerTakes inv.pool moved moves with same | ⟨going,e,queue⟩
    · exact Or.inl same
    · exact Or.inr (Or.inl ⟨e,queue,tokenLeft inv.pool bound going⟩)
  | spurious waits => exact Or.inl ⟨rfl,Or.inl rfl⟩

structure Losing (numThreads : Nat) (s : State) : Prop where
  inv : Inv numThreads s
  lost : Lost numThreads s

theorem attendingStep {numThreads s event t} (ok : Attending numThreads s) (guard : InTime numThreads s event)
    (h : step numThreads s event = some t) : Attending numThreads t := by
  refine ⟨stepInv ok.inv h,fun none => ?_⟩
  rcases stepQueue ok.inv h with ⟨same,queue⟩ | ⟨_,queue⟩
  · rw [same] at none
    have attended := ok.attended none
    rcases queue with queue | ⟨e,queue,_⟩ | ⟨e,queue,_,late⟩
    · rw [queue]; exact attended
    · rw [queue] at attended; exact attended.2
    · rw [queue]
      refine attendedAppend attended fun process => ?_
      have inTime := (late process).mp guard
      omega
  · rw [queue]; exact attendedToken 0

theorem losingStarts {numThreads s event t} (ok : Attending numThreads s) (late : ¬ InTime numThreads s event)
    (h : step numThreads s event = some t) : Losing numThreads t := by
  have inv := stepInv ok.inv h
  cases stepMove h with
  | main free moves =>
    have moved := mainMoved ok.inv.pool ok.inv.owned moves
    have queue := queueAppend ok.inv.pool.linked moved.enqueued moved.dequeued
    simp only [InTime,Classical.not_imp,Nat.not_lt,Nat.le_zero] at late
    obtain ⟨pc,process,none⟩ := late
    refine ⟨inv,(toComeSame moved.loop (by rw [moved.handler])).trans none,?_⟩
    rw [queue,if_pos pc]
    exact attendedLast process
  | sigint _ | handler _ | worker _ _ _ | spurious _ => exact absurd trivial late

theorem losingStays {numThreads s event t} (losing : Losing numThreads s)
    (h : step numThreads s event = some t) : Losing numThreads t := by
  obtain ⟨none,behind⟩ := losing.lost
  refine ⟨stepInv losing.inv h,?_⟩
  rcases stepQueue losing.inv h with ⟨same,queue⟩ | ⟨some,_⟩
  · refine ⟨same.trans none,fun attended => behind ?_⟩
    rcases queue with queue | ⟨e,queue,token⟩ | ⟨e,queue,plain,_⟩
    · rw [← queue]; exact attended
    · -- the worker that takes e has its TERMINATE entry behind it
      rw [queue] at token ⊢
      refine ⟨fun process => ?_,attended⟩
      obtain ⟨x,mem,ends⟩ := token none
      rcases List.mem_cons.mp mem with rfl | later
      · simp [process] at ends
      · exact ⟨x,later,ends⟩
    · rw [queue] at attended
      exact attendedPrefix attended plain
  · omega

theorem joinedEmpty {numThreads s} (inv : Inv numThreads s) (joined : Joined numThreads s) :
    toCome numThreads s.pool = 0 ∧ ∀ e ∈ s.pool.queue, e.action ≠ .terminate := by
  have off := inv.accounted.off joined.1
  have sum := inv.pool.counted.sum off
  have all : (List.range numThreads).countP s.pool.ended = numThreads := by
    refine (List.countP_eq_length.mpr fun w hw => ?_).trans List.length_range
    have own := inv.pool.workers w
    simp only [WorkerOk,joined.2 w (List.mem_range.mp hw)] at own
    exact own.1
  have tokens : s.pool.tokens = 0 := by omega
  refine ⟨by simp only [toCome,off]; simp; omega,?_⟩
  simpa [WorkerPool.State.tokens] using tokens

theorem settledExact {numThreads s} (inv : Inv numThreads s) (joined : Joined numThreads s) :
    Settled s ↔ ∀ e ∈ s.pool.queue, e.action ≠ .process := by
  obtain ⟨nodes,rep,_⟩ := inv.pool.linked.listed
  constructor
  · exact fun settled => settled.2 nodes _ rep.chain
  · intro plain
    refine ⟨List.perm_iff_count.mpr fun x => ?_,fun nodes' entries chain => ?_⟩
    · have accepted := inv.accounted.accepted x
      have closed := inv.accounted.closed x
      have none : (List.range numThreads).countP (inHand s.pool x) = 0 :=
        List.countP_eq_zero.mpr fun w hw => by simp [inHand,joined.2 w (List.mem_range.mp hw)]
      have order : s.pool.enqueued = s.pool.dequeued.map Prod.snd ++ s.pool.queue := by
        obtain ⟨later,eq⟩ := inv.pool.linked.order
        simp [WorkerPool.State.queue,← eq]
      have out : s.pool.queue.count ⟨x,.process⟩ = 0 :=
        List.count_eq_zero.mpr fun mem => plain _ mem rfl
      have added : pending s.pool x = false := by simp [pending,joined.1]
      rw [order,List.count_append] at accepted
      simp only [added] at accepted
      simp at accepted
      omega
    · obtain ⟨_,rfl⟩ := chainUnique rep.chain chain
      exact plain

theorem strandedExact {numThreads events s} (ran : run (step numThreads) initial events = some s)
    (joined : Joined numThreads s) :
    Settled s ↔ Along (step numThreads) (InTime numThreads) initial events := by
  have start : Attending numThreads initial :=
    ⟨⟨Interrupt.initialInv numThreads,initialAccounted numThreads⟩,fun _ => trivial⟩
  have inv := everyRun start.inv (fun _ _ _ => stepInv) ran
  obtain ⟨none,plain⟩ := joinedEmpty inv joined
  have final : Settled s ↔ ¬ Lost numThreads s := by
    rw [settledExact inv joined,← attendedExact plain]
    simp [Lost,none]
  rw [final]
  exact endExact start (fun _ _ _ => attendingStep) (fun _ _ _ => losingStarts)
    (fun _ _ _ => losingStays) (fun s ok => (fun lost => lost.2 (ok.attended lost.1) : ¬ Lost numThreads s))
    (fun _ losing kept => kept losing.lost) ran

def outcome (s : State) : MainPc × WorkerPc × List Int × List Int :=
  (s.pool.main.pc,(s.pool.workers 0).pc,s.accepted,s.closed)

theorem joinedOne {s accepted closed} (h : outcome s = (.cleanUp,.exited,accepted,closed)) :
    Joined 1 s ∧ s.accepted = accepted ∧ s.closed = closed := by
  simp only [outcome,Prod.mk.injEq] at h
  refine ⟨⟨h.1,fun w hw => ?_⟩,h.2.2⟩
  cases Nat.lt_one_iff.mp hw
  exact h.2.1

def servedAndStopped : List Event :=
  [.main 0 none,.main 0 none,.main 0 (some 4),.main 0 none,.main 7 none,.main 0 none,.main 0 none,
    .worker 0,.worker 0,.worker 0,.worker 0,.worker 0,.worker 0,.main 0 none,.main 0 none,
    .sigint .main,.handler 0,.handler 0,.handler 7,.handler 0,.handler 0,.handler 0,.main 0 none,
    .worker 0,.worker 0,.worker 0,.worker 0,.worker 0]

theorem strandedServed : ∃ s, run (step 1) initial servedAndStopped = some s ∧ Joined 1 s ∧
    s.accepted = [4] ∧ (Settled s ↔ Along (step 1) (InTime 1) initial servedAndStopped) := by
  have ran : (run (step 1) initial servedAndStopped).map outcome = some (.cleanUp,.exited,[4],[4]) := by
    decide +kernel
  obtain ⟨s,hs,ends⟩ := Option.map_eq_some_iff.mp ran
  obtain ⟨joined,accepted,_⟩ := joinedOne ends
  exact ⟨s,hs,joined,accepted,strandedExact hs joined⟩

def stoppedInHand : List Event :=
  [.main 0 none,.main 0 none,.main 0 (some 4),.sigint .main,.handler 0,.handler 0,.handler 6,.handler 0,
    .handler 0,.handler 0,.main 0 none,.main 7 none,.main 0 none,.main 0 none,.main 0 none,
    .worker 0,.worker 0,.worker 0,.worker 0,.worker 0]

theorem strandedInHand : ∃ s, run (step 1) initial stoppedInHand = some s ∧ Joined 1 s ∧
    s.accepted = [4] ∧ s.closed = [] ∧ ¬ Settled s := by
  have ran : (run (step 1) initial stoppedInHand).map outcome = some (.cleanUp,.exited,[4],[]) := by
    decide +kernel
  obtain ⟨s,hs,ends⟩ := Option.map_eq_some_iff.mp ran
  obtain ⟨joined,accepted,closed⟩ := joinedOne ends
  refine ⟨s,hs,joined,accepted,closed,fun settled => ?_⟩
  have length := settled.1.length_eq
  simp [accepted,closed] at length

end IttyBittyServer.Shutdown
