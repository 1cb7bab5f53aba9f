import IttyBittyServer.ConList
import IttyBittyServer.Run

/-! The server's pool: main() and catchInterrupt() add entries to the connection list,
the workers wait for them and take them, all under `mConList`. Allocation succeeds.
The interrupt handler runs beside the thread it interrupted, which covers every
order of its statements with those of all threads. -/
namespace IttyBittyServer.WorkerPool
open ConList Run

inductive Tid where
  | main | handler | worker (w : Nat)
  deriving DecidableEq, Repr

inductive MainPc where
  | loop | poll | accept | lock | addTail | broadcast | unlock | cleanUp
  deriving DecidableEq, Repr

structure Main where
  pc : MainPc
  entry : Entry
  deriving DecidableEq, Repr

inductive HandlerPc where
  | idle | loop | lock | addTail | broadcast | unlock
  deriving DecidableEq, Repr

/-- `remaining` is `numThreads - i`, counted when the entry is added. -/
structure Handler where
  pc : HandlerPc
  remaining : Nat
  deriving DecidableEq, Repr

inductive WorkerPc where
  | lock | isEmpty | condWait | waiting | removeHead | unlock | action | serve
  | exited | crashed
  deriving DecidableEq, Repr

structure Worker where
  pc : WorkerPc
  c : Option Nat
  deriving DecidableEq, Repr

/- `enqueued` and `dequeued` record every addTail and every removeHead. -/
structure State where
  heap : Heap
  list : Conlist
  mConList : Option Tid
  freeConn : List Nat
  loop : Bool
  main : Main
  handler : Handler
  workers : Nat → Worker
  enqueued : List Entry
  dequeued : List (Nat × Entry)

def initial : State :=
  ⟨fun _ => none,newConList,none,[],true,⟨.loop,⟨0,.process⟩⟩,⟨.idle,0⟩,fun _ => ⟨.lock,none⟩,[],[]⟩

/-- A step of main, of the handler or of a worker; `sigint` delivers the signal, and
`spurious` lets a waiting worker return from pthread_cond_wait unsignalled. -/
inductive Event where
  | sigint
  | main (fresh : Nat) (answer : Option Int)
  | handler (fresh : Nat)
  | worker (w : Nat)
  | spurious (w : Nat)
  deriving DecidableEq, Repr

def State.acquire (s : State) (t : Tid) : Option State :=
  if s.mConList = none then some {s with mConList := some t} else none

def State.release (s : State) : State := {s with mConList := none}

def State.enqueue (s : State) (fresh : Nat) (e : Entry) : Option State := do
  let (heap,list) ← addTail s.heap fresh e.conn e.action s.list
  some {s with heap := heap, list := list, enqueued := s.enqueued ++ [e]}

/- The accept loop of main(). `answer` is what the polling of the shared nodes or
`accept` yields: a new entry, or nothing. -/
def mainStep (s : State) (fresh : Nat) (answer : Option Int) : Option State :=
  match s.main.pc with
  | .loop => some {s with main := {s.main with pc := if s.loop then .poll else .cleanUp}}
  | .poll => match answer with
    | some _ => some {s with main := ⟨.lock,⟨0,.shared⟩⟩}
    | none => some {s with main := {s.main with pc := .accept}}
  | .accept => match answer with
    | some clientSock => some {s with main := ⟨.lock,⟨clientSock,.process⟩⟩}
    | none => some {s with main := {s.main with pc := if s.loop then .loop else .cleanUp}}
  | .lock => do
    let s ← s.acquire .main
    some {s with main := {s.main with pc := .addTail}}
  | .addTail => do
    let s ← s.enqueue fresh s.main.entry
    some {s with main := {s.main with pc := .broadcast}}
  | .broadcast => some {s with freeConn := [], main := {s.main with pc := .unlock}}
  | .unlock => some {s.release with
      main := {s.main with pc := if s.main.entry.action = .shared then .accept else .loop}}
  | .cleanUp => none

/- The test of LOOP and its clearing are one step. -/
def catchInterrupt (numThreads : Nat) (s : State) : Option State :=
  if s.mConList ≠ none then none
  else if s.loop then some {s with loop := false, handler := ⟨.loop,numThreads⟩}
  else some s

def handlerStep (s : State) (fresh : Nat) : Option State :=
  match s.handler.pc with
  | .idle => none
  | .loop => some {s with
      handler := {s.handler with pc := if s.handler.remaining = 0 then .idle else .lock}}
  | .lock => do
    let s ← s.acquire .handler
    some {s with handler := {s.handler with pc := .addTail}}
  | .addTail => do
    let s ← s.enqueue fresh ⟨0,.terminate⟩
    some {s with handler := ⟨.broadcast,s.handler.remaining - 1⟩}
  | .broadcast => some {s with freeConn := [], handler := {s.handler with pc := .unlock}}
  | .unlock => some {s.release with handler := {s.handler with pc := .loop}}

def State.goto (s : State) (w : Nat) (me : Worker) : State :=
  {s with workers := Function.update s.workers w me}

/- The worker loop of handleClient(); `serve` is checkAndSend and what follows it. -/
def workerStep (s : State) (w : Nat) : Option State :=
  let me := s.workers w
  match me.pc with
  | .lock => do
    let s ← s.acquire (.worker w)
    some (s.goto w {me with pc := .isEmpty})
  | .isEmpty => some (s.goto w {me with pc := if isEmpty s.list then .condWait else .removeHead})
  | .condWait => some ({s.release with freeConn := w::s.freeConn}.goto w {me with pc := .waiting})
  | .waiting =>
    if w ∈ s.freeConn then none
    else do
      let s ← s.acquire (.worker w)
      some (s.goto w {me with pc := .isEmpty})
  | .removeHead => do
    let (c,list) ← removeHead s.heap s.list
    let taken := (c.bind s.heap).toList.map fun n => (w,n.entry)
    some ({s with list := list, dequeued := s.dequeued ++ taken}.goto w ⟨.unlock,c⟩)
  | .unlock => some (s.release.goto w {me with pc := .action})
  | .action => match me.c.bind s.heap, me.c with
    | some c, some a =>
      if c.action = .terminate then some ({s with heap := free s.heap a}.goto w ⟨.exited,none⟩)
      else some (s.goto w {me with pc := .serve})
    | _, _ => some (s.goto w {me with pc := .crashed})
  | .serve => match me.c with
    | some a => some ({s with heap := free s.heap a}.goto w ⟨.lock,none⟩)
    | none => some (s.goto w {me with pc := .crashed})
  | .exited | .crashed => none

def step (numThreads : Nat) (s : State) : Event → Option State
  | .sigint => catchInterrupt numThreads s
  | .main fresh answer => mainStep s fresh answer
  | .handler fresh => handlerStep s fresh
  | .worker w => if w < numThreads then workerStep s w else none
  | .spurious w => if w ∈ s.freeConn then some {s with freeConn := s.freeConn.erase w} else none

def State.queue (s : State) : List Entry := s.enqueued.drop s.dequeued.length

def State.ended (s : State) (w : Nat) : Bool :=
  s.dequeued.any fun p => p.1 == w && p.2.action == .terminate

def State.tokens (s : State) : Nat := s.queue.countP fun e => e.action == .terminate

def State.signalling (s : State) : Prop :=
  s.main.pc = .broadcast ∨ s.handler.pc = .broadcast

structure Dispatched (numThreads : Nat) (s : State) : Prop where
  listed : ∃ nodes, Represents s.heap s.list nodes s.queue
  fifo : s.dequeued.map Prod.snd <+: s.enqueued
  notNull : ∀ w, (s.workers w).pc ≠ .crashed ∧
    ((s.workers w).pc = .unlock ∨ (s.workers w).pc = .action → (s.workers w).c ≠ none)
  last : ∀ xs w e ys, s.dequeued = xs ++ (w,e)::ys → e.action = .terminate → ∀ p ∈ ys, p.1 ≠ w
  ended : ∀ w, s.ended w = true ↔ (s.workers w).pc = .exited ∨
    ((s.workers w).pc = .unlock ∨ (s.workers w).pc = .action) ∧
      ((s.workers w).c.bind s.heap).map Connection.action = some .terminate
  counted : s.loop = false →
    (List.range numThreads).countP s.ended + s.tokens + s.handler.remaining = numThreads
  awake : s.queue ≠ [] → ¬ s.signalling → ∀ w, (s.workers w).pc = .waiting → w ∉ s.freeConn

def State.holding (s : State) (w : Nat) : Prop :=
  ∃ a c, (s.workers w).c = some a ∧ s.heap a = some c ∧ (c.action = .terminate ↔ s.ended w = true)

def WorkerOk (s : State) (w : Nat) : Prop := match (s.workers w).pc with
  | .lock | .waiting => (s.workers w).c = none ∧ s.ended w = false
  | .isEmpty => s.mConList = some (.worker w) ∧ (s.workers w).c = none ∧ s.ended w = false
  | .condWait => s.mConList = some (.worker w) ∧ (s.workers w).c = none ∧ s.ended w = false ∧
      s.queue = []
  | .removeHead => s.mConList = some (.worker w) ∧ (s.workers w).c = none ∧ s.ended w = false ∧
      s.queue ≠ []
  | .unlock => s.mConList = some (.worker w) ∧ s.holding w
  | .action => s.holding w
  | .serve => s.ended w = false ∧ ∃ a, (s.workers w).c = some a
  | .exited => s.ended w = true ∧ (s.workers w).c = none
  | .crashed => False

def MainOk (s : State) : Prop := s.main.entry.action ≠ .terminate ∧ match s.main.pc with
  | .addTail | .broadcast | .unlock => s.mConList = some .main
  | _ => True

def HandlerOk (s : State) : Prop := match s.handler.pc with
  | .lock => 0 < s.handler.remaining
  | .addTail => s.mConList = some .handler ∧ 0 < s.handler.remaining
  | .broadcast | .unlock => s.mConList = some .handler
  | _ => True

structure Linked (s : State) : Prop where
  listed : ∃ nodes, Represents s.heap s.list nodes s.queue ∧
    ∀ w a, (s.workers w).c = some a → a ∉ nodes
  apart : ∀ w v a, (s.workers w).c = some a → (s.workers v).c = some a → w = v
  held : ∀ w a, (s.workers w).c = some a → s.heap a ≠ none
  order : s.dequeued.map Prod.snd <+: s.enqueued
  last : ∀ xs w e ys, s.dequeued = xs ++ (w,e)::ys → e.action = .terminate → ∀ p ∈ ys, p.1 ≠ w

structure Counted (numThreads : Nat) (s : State) : Prop where
  sum : s.loop = false →
    (List.range numThreads).countP s.ended + s.tokens + s.handler.remaining = numThreads
  before : s.loop = true → (∀ e ∈ s.enqueued, e.action ≠ .terminate) ∧ s.handler.pc = .idle

structure Inv (numThreads : Nat) (s : State) : Prop where
  linked : Linked s
  counted : Counted numThreads s
  workers : ∀ w, WorkerOk s w
  main : MainOk s
  handler : HandlerOk s
  awake : s.queue ≠ [] → s.signalling ∨ s.freeConn = []

theorem initialInv (numThreads) : Inv numThreads initial := by
  refine ⟨⟨⟨[],representsNew _,by simp [initial]⟩,?_,?_,?_,?_⟩,⟨?_,?_⟩,?_,?_,?_,?_⟩ <;>
    simp [initial,WorkerOk,MainOk,HandlerOk,State.ended,State.queue]

theorem Inv.dispatched {numThreads s} (inv : Inv numThreads s) : Dispatched numThreads s := by
  obtain ⟨nodes,rep,_⟩ := inv.linked.listed
  refine ⟨⟨nodes,rep⟩,inv.linked.order,fun w => ?_,inv.linked.last,fun w => ?_,inv.counted.sum,
    fun some quiet w _ => ?_⟩
  · have ok := inv.workers w
    unfold WorkerOk at ok
    refine ⟨fun pc => ?_,?_⟩
    · rw [pc] at ok; exact ok
    · rintro (pc | pc) <;> rw [pc] at ok
      · obtain ⟨_,a,_,node,_⟩ := ok; simp [node]
      · obtain ⟨a,_,node,_⟩ := ok; simp [node]
  · have ok := inv.workers w
    unfold WorkerOk at ok
    cases pc : (s.workers w).pc <;> simp only [pc] at ok <;> try simp [ok]
    case unlock => obtain ⟨_,a,c,node,found,ends⟩ := ok; simp [node,found,ends]
    case action => obtain ⟨a,c,node,found,ends⟩ := ok; simp [node,found,ends]
  · rcases inv.awake some with loud | none
    · exact absurd loud quiet
    · simp [none]

/- What one thread does leaves the others as they are, unless it meddles with the
node, the queue or the mutex of one that holds `mConList`. -/
theorem workerFrame {s t : State} {w : Nat} (ok : WorkerOk s w)
    (worker : t.workers w = s.workers w)
    (owner : s.mConList = some (.worker w) → t.mConList = some (.worker w) ∧ t.queue = s.queue)
    (ended : t.ended w = s.ended w)
    (heap : ∀ a, (s.workers w).c = some a → t.heap a = s.heap a) : WorkerOk t w := by
  have hold : s.holding w → t.holding w := by
    rintro ⟨a,c,node,found,ends⟩
    exact ⟨a,c,by rw [worker]; exact node,by rw [heap a node]; exact found,by rw [ended]; exact ends⟩
  unfold WorkerOk at ok ⊢
  rw [worker]
  cases pc : (s.workers w).pc <;> simp only [pc] at ok ⊢ <;> rw [ended] at * <;> try exact ok
  case isEmpty => exact ⟨(owner ok.1).1,ok.2⟩
  case condWait => exact ⟨(owner ok.1).1,ok.2.1,ok.2.2.1,by rw [(owner ok.1).2]; exact ok.2.2.2⟩
  case removeHead => exact ⟨(owner ok.1).1,ok.2.1,ok.2.2.1,by rw [(owner ok.1).2]; exact ok.2.2.2⟩
  case unlock => exact ⟨(owner ok.1).1,hold ok.2⟩
  case action => exact hold ok

theorem linkedFrame {s t : State} (linked : Linked s)
    (heap : t.heap = s.heap) (list : t.list = s.list) (enqueued : t.enqueued = s.enqueued)
    (dequeued : t.dequeued = s.dequeued) (held : ∀ w, (t.workers w).c = (s.workers w).c) :
    Linked t := by
  have queue : t.queue = s.queue := by simp [State.queue,enqueued,dequeued]
  constructor
  case listed => simpa only [heap,list,queue,held] using linked.listed
  case apart => simpa only [held] using linked.apart
  case held => simpa only [heap,held] using linked.held
  case order => simpa only [enqueued,dequeued] using linked.order
  case last => simpa only [dequeued] using linked.last

theorem countedFrame {numThreads} {s t : State} (counted : Counted numThreads s)
    (enqueued : t.enqueued = s.enqueued) (dequeued : t.dequeued = s.dequeued)
    (loop : t.loop = s.loop) (remaining : t.handler.remaining = s.handler.remaining)
    (idle : s.handler.pc = .idle → t.handler.pc = .idle) : Counted numThreads t := by
  have queue : t.queue = s.queue := by simp [State.queue,enqueued,dequeued]
  have ended : t.ended = s.ended := by funext w; simp [State.ended,dequeued]
  constructor
  · rw [loop,ended,remaining]
    simpa only [State.tokens,queue] using counted.sum
  · rw [loop,enqueued]
    exact fun on => ⟨(counted.before on).1,idle (counted.before on).2⟩

theorem dequeuedLength {s} (linked : Linked s) : s.dequeued.length ≤ s.enqueued.length := by
  simpa using linked.order.length_le

theorem enqueueLinked {s t fresh e} (linked : Linked s) (h : s.enqueue fresh e = some t) :
    Linked t ∧ t.queue = s.queue ++ [e] ∧
    (∀ w a, (s.workers w).c = some a → t.heap a = s.heap a) ∧
    ∃ heap list, t = {s with heap := heap, list := list, enqueued := s.enqueued ++ [e]} := by
  obtain ⟨nodes,rep,away⟩ := linked.listed
  simp only [State.enqueue,bind,Option.bind_eq_some_iff] at h
  obtain ⟨⟨heap,list⟩,added,last⟩ := h
  have unused : s.heap fresh = none := by
    by_contra used
    simp [addTail,newConnection,used] at added
  obtain ⟨heap',list',spec,rep',frame⟩ := addTailSpec rep unused e.conn e.action
  cases Option.some.inj (added.symm.trans spec)
  cases Option.some.inj last
  have longer := dequeuedLength linked
  have queue : State.queue {s with heap := heap, list := list, enqueued := s.enqueued ++ [e]} =
      s.queue ++ [e] := by
    simp [State.queue,List.drop_append_of_le_length longer]
  have same : ∀ w a, (s.workers w).c = some a → heap a = s.heap a := fun w a hc =>
    frame a (away w a hc) fun eq => linked.held w a hc (eq ▸ unused)
  refine ⟨⟨⟨nodes ++ [fresh],by rw [queue]; exact rep',fun w a hc mem => ?_⟩,linked.apart,
    fun w a hc gone => linked.held w a hc ((same w a hc).symm.trans gone),?_,linked.last⟩,queue,
    same,_,_,rfl⟩
  · rcases List.mem_append.mp mem with old | new
    · exact away w a hc old
    · exact linked.held w a hc (List.mem_singleton.mp new ▸ unused)
  · exact linked.order.trans (List.prefix_append _ _)

theorem countedEnqueue {numThreads} {s t : State} {e : Entry} (counted : Counted numThreads s)
    (queue : t.queue = s.queue ++ [e]) (enqueued : t.enqueued = s.enqueued ++ [e])
    (dequeued : t.dequeued = s.dequeued) (loop : t.loop = s.loop)
    (remaining : t.handler.remaining + (if e.action = .terminate then 1 else 0) =
      s.handler.remaining)
    (plain : s.loop = true → e.action ≠ .terminate ∧ t.handler.pc = .idle) :
    Counted numThreads t := by
  have ended : t.ended = s.ended := by funext w; simp [State.ended,dequeued]
  have tokens : t.tokens = s.tokens + if e.action = .terminate then 1 else 0 := by
    simp [State.tokens,queue,List.countP_singleton]
  constructor
  · intro off
    have sum := counted.sum (by rw [← loop]; exact off)
    rw [ended,tokens]
    omega
  · intro on
    rw [loop] at on
    refine ⟨fun x hx => ?_,(plain on).2⟩
    rcases List.mem_append.mp (enqueued ▸ hx) with old | new
    · exact (counted.before on).1 x old
    · rw [List.mem_singleton.mp new]; exact (plain on).1

theorem Inv.advance {numThreads} {s t : State} (inv : Inv numThreads s)
    (heap : t.heap = s.heap) (list : t.list = s.list) (enqueued : t.enqueued = s.enqueued)
    (dequeued : t.dequeued = s.dequeued) (loop : t.loop = s.loop)
    (remaining : t.handler.remaining = s.handler.remaining)
    (idle : s.handler.pc = .idle → t.handler.pc = .idle) (workers : t.workers = s.workers)
    (owner : ∀ w, s.mConList = some (.worker w) → t.mConList = some (.worker w))
    (main : MainOk t) (handler : HandlerOk t)
    (awake : s.signalling ∨ s.freeConn = [] → t.signalling ∨ t.freeConn = []) :
    Inv numThreads t := by
  have queue : t.queue = s.queue := by simp [State.queue,enqueued,dequeued]
  have ended : t.ended = s.ended := by funext w; simp [State.ended,dequeued]
  refine ⟨linkedFrame inv.linked heap list enqueued dequeued (by simp [workers]),
    countedFrame inv.counted enqueued dequeued loop remaining idle,fun w => ?_,main,handler,?_⟩
  · exact workerFrame (inv.workers w) (by rw [workers]) (fun own => ⟨owner w own,queue⟩)
      (by rw [ended]) (by simp [heap])
  · rw [queue]; exact fun some => awake (inv.awake some)

theorem acquired {s t : State} {tid : Tid} (h : s.acquire tid = some t) :
    s.mConList = none ∧ t = {s with mConList := some tid} := by
  unfold State.acquire at h
  split at h <;> try contradiction
  exact ⟨by assumption,(Option.some.inj h).symm⟩

inductive MainMove (s : State) (fresh : Nat) : Option Int → State → Prop where
  | loop {answer} (pc : s.main.pc = .loop) : MainMove s fresh answer
      {s with main := {s.main with pc := if s.loop then .poll else .cleanUp}}
  | idle (pc : s.main.pc = .poll) : MainMove s fresh none {s with main := {s.main with pc := .accept}}
  | found {n} (pc : s.main.pc = .poll) : MainMove s fresh (some n) {s with main := ⟨.lock,⟨0,.shared⟩⟩}
  | refused (pc : s.main.pc = .accept) : MainMove s fresh none
      {s with main := {s.main with pc := if s.loop then .loop else .cleanUp}}
  | accepted {clientSock} (pc : s.main.pc = .accept) : MainMove s fresh (some clientSock)
      {s with main := ⟨.lock,⟨clientSock,.process⟩⟩}
  | lock {answer} (pc : s.main.pc = .lock) (free : s.mConList = none) : MainMove s fresh answer
      {s with mConList := some .main, main := {s.main with pc := .addTail}}
  | addTail {answer u} (pc : s.main.pc = .addTail) (added : s.enqueue fresh s.main.entry = some u) :
      MainMove s fresh answer {u with main := {u.main with pc := .broadcast}}
  | broadcast {answer} (pc : s.main.pc = .broadcast) : MainMove s fresh answer
      {s with freeConn := [], main := {s.main with pc := .unlock}}
  | unlock {answer} (pc : s.main.pc = .unlock) : MainMove s fresh answer {s.release with
      main := {s.main with pc := if s.main.entry.action = .shared then .accept else .loop}}

theorem mainMove {s fresh answer t} (h : mainStep s fresh answer = some t) : MainMove s fresh answer t := by
  cases pc : s.main.pc with
  | loop => simp only [mainStep,pc,Option.some.injEq] at h; subst t; exact .loop pc
  | poll =>
    simp only [mainStep,pc] at h
    cases answer <;> cases Option.some.inj h
    · exact .idle pc
    · exact .found pc
  | accept =>
    simp only [mainStep,pc] at h
    cases answer <;> cases Option.some.inj h
    · exact .refused pc
    · exact .accepted pc
  | lock =>
    simp only [mainStep,pc,bind,Option.bind_eq_some_iff] at h
    obtain ⟨u,hu,last⟩ := h
    obtain ⟨free,rfl⟩ := acquired hu
    cases Option.some.inj last
    exact .lock pc free
  | addTail =>
    simp only [mainStep,pc,bind,Option.bind_eq_some_iff] at h
    obtain ⟨u,hu,last⟩ := h
    cases Option.some.inj last
    exact .addTail pc hu
  | broadcast => simp only [mainStep,pc,Option.some.injEq] at h; subst t; exact .broadcast pc
  | unlock => simp only [mainStep,pc,Option.some.injEq] at h; subst t; exact .unlock pc
  | cleanUp => simp [mainStep,pc] at h

theorem mainInv {numThreads s fresh answer t} (inv : Inv numThreads s)
    (h : mainStep s fresh answer = some t) : Inv numThreads t := by
  obtain ⟨notEnd,ok⟩ := inv.main
  cases mainMove h with
  | loop pc =>
    refine inv.advance rfl rfl rfl rfl rfl rfl id rfl (fun _ => id) ⟨notEnd,?_⟩ inv.handler ?_
    · cases s.loop <;> trivial
    · simp only [State.signalling,pc]; cases s.loop <;> simp
  | idle pc =>
    exact inv.advance rfl rfl rfl rfl rfl rfl id rfl (fun _ => id) ⟨notEnd,trivial⟩ inv.handler
      (by simp [State.signalling,pc])
  | found pc | accepted pc =>
    exact inv.advance rfl rfl rfl rfl rfl rfl id rfl (fun _ => id) ⟨by simp,trivial⟩ inv.handler
      (by simp [State.signalling,pc])
  | refused pc =>
    refine inv.advance rfl rfl rfl rfl rfl rfl id rfl (fun _ => id) ⟨notEnd,?_⟩ inv.handler ?_
    · cases s.loop <;> trivial
    · simp only [State.signalling,pc]; cases s.loop <;> simp
  | lock pc free =>
    refine inv.advance rfl rfl rfl rfl rfl rfl id rfl (by simp [free]) ⟨notEnd,rfl⟩ ?_
      (by simp [State.signalling,pc])
    have hok := inv.handler
    unfold HandlerOk at hok ⊢
    cases hp : s.handler.pc <;> simp_all
  | addTail pc added =>
    simp only [pc] at ok
    obtain ⟨linked,queue,same,heap,list,rfl⟩ := enqueueLinked inv.linked added
    exact ⟨linkedFrame linked rfl rfl rfl rfl (fun _ => rfl),
      countedEnqueue inv.counted queue rfl rfl rfl (by simp [notEnd])
        (fun on => ⟨notEnd,(inv.counted.before on).2⟩),
      fun w => workerFrame (inv.workers w) rfl (fun own => absurd (ok.symm.trans own) (by simp)) rfl
        (same w),⟨notEnd,ok⟩,inv.handler,fun _ => Or.inl (Or.inl rfl)⟩
  | broadcast pc =>
    simp only [pc] at ok
    exact inv.advance rfl rfl rfl rfl rfl rfl id rfl (fun _ => id) ⟨notEnd,ok⟩ inv.handler
      (fun _ => Or.inr rfl)
  | unlock pc =>
    simp only [pc] at ok
    refine inv.advance rfl rfl rfl rfl rfl rfl id rfl
      (fun w own => absurd (ok.symm.trans own) (by simp)) ⟨notEnd,?_⟩ ?_ ?_
    · by_cases shared : s.main.entry.action = .shared <;> simp [shared]
    · have hok := inv.handler
      unfold HandlerOk at hok ⊢
      cases hp : s.handler.pc <;> simp_all [State.release]
    · simp only [State.signalling,pc,State.release]; split <;> simp

theorem interruptInv {numThreads s} (inv : Inv numThreads s) (on : s.loop = true) :
    Inv numThreads {s with loop := false, handler := ⟨.loop,numThreads⟩} := by
  obtain ⟨plain,idle⟩ := inv.counted.before on
  have none : ∀ w, s.ended w = false := by
    intro w
    simp only [State.ended,List.any_eq_false,Bool.and_eq_true,beq_iff_eq,not_and]
    intro p hp _
    exact plain p.2 (inv.linked.order.subset (List.mem_map.mpr ⟨p,hp,rfl⟩))
  have tokens : s.tokens = 0 := by
    simp only [State.tokens,State.queue,List.countP_eq_zero,beq_iff_eq]
    exact fun e he => plain e (List.mem_of_mem_drop he)
  refine ⟨linkedFrame inv.linked rfl rfl rfl rfl (fun _ => rfl),⟨fun _ => ?_,by simp⟩,
    fun w => workerFrame (inv.workers w) rfl (fun own => ⟨own,rfl⟩) rfl (fun _ _ => rfl),
    inv.main,trivial,fun some => ?_⟩
  · change (List.range numThreads).countP s.ended + s.tokens + numThreads = numThreads
    simp [tokens,none]
  · rcases inv.awake some with (main | handler) | quiet
    · exact Or.inl (Or.inl main)
    · simp [idle] at handler
    · exact Or.inr quiet

theorem catchInterruptInv {numThreads s t} (inv : Inv numThreads s)
    (h : catchInterrupt numThreads s = some t) : Inv numThreads t := by
  unfold catchInterrupt at h
  split at h <;> try contradiction
  split at h
  · rename_i on
    cases Option.some.inj h
    exact interruptInv inv on
  · cases Option.some.inj h; exact inv

inductive HandlerMove (s : State) (fresh : Nat) : State → Prop where
  | loop (pc : s.handler.pc = .loop) : HandlerMove s fresh {s with
      handler := {s.handler with pc := if s.handler.remaining = 0 then .idle else .lock}}
  | lock (pc : s.handler.pc = .lock) (free : s.mConList = none) : HandlerMove s fresh
      {s with mConList := some .handler, handler := {s.handler with pc := .addTail}}
  | addTail {u} (pc : s.handler.pc = .addTail) (added : s.enqueue fresh ⟨0,.terminate⟩ = some u) :
      HandlerMove s fresh {u with handler := ⟨.broadcast,u.handler.remaining - 1⟩}
  | broadcast (pc : s.handler.pc = .broadcast) : HandlerMove s fresh
      {s with freeConn := [], handler := {s.handler with pc := .unlock}}
  | unlock (pc : s.handler.pc = .unlock) : HandlerMove s fresh
      {s.release with handler := {s.handler with pc := .loop}}

theorem handlerMove {s fresh t} (h : handlerStep s fresh = some t) : HandlerMove s fresh t := by
  cases pc : s.handler.pc with
  | idle => simp [handlerStep,pc] at h
  | loop => simp only [handlerStep,pc,Option.some.injEq] at h; subst t; exact .loop pc
  | lock =>
    simp only [handlerStep,pc,bind,Option.bind_eq_some_iff] at h
    obtain ⟨u,hu,last⟩ := h
    obtain ⟨free,rfl⟩ := acquired hu
    cases Option.some.inj last
    exact .lock pc free
  | addTail =>
    simp only [handlerStep,pc,bind,Option.bind_eq_some_iff] at h
    obtain ⟨u,hu,last⟩ := h
    cases Option.some.inj last
    exact .addTail pc hu
  | broadcast => simp only [handlerStep,pc,Option.some.injEq] at h; subst t; exact .broadcast pc
  | unlock => simp only [handlerStep,pc,Option.some.injEq] at h; subst t; exact .unlock pc

theorem handlerInv {numThreads s fresh t} (inv : Inv numThreads s)
    (h : handlerStep s fresh = some t) : Inv numThreads t := by
  have ok := inv.handler
  cases handlerMove h with
  | loop pc =>
    refine inv.advance rfl rfl rfl rfl rfl rfl (by simp [pc]) rfl (fun _ => id) inv.main ?_ ?_
    · by_cases done : s.handler.remaining = 0
      · simp [HandlerOk,done]
      · simpa [HandlerOk,done] using Nat.pos_of_ne_zero done
    · simp only [State.signalling,pc]; split <;> simp
  | lock pc free =>
    simp only [HandlerOk,pc] at ok
    refine inv.advance rfl rfl rfl rfl rfl rfl (by simp [pc]) rfl (by simp [free]) ?_ ⟨rfl,ok⟩
      (by simp [State.signalling,pc])
    have mok := inv.main
    unfold MainOk at mok ⊢
    cases mp : s.main.pc <;> simp_all
  | addTail pc added =>
    simp only [HandlerOk,pc] at ok
    obtain ⟨linked,queue,same,heap,list,rfl⟩ := enqueueLinked inv.linked added
    have off : s.loop = false := by
      by_contra on
      simp [(inv.counted.before (by simpa using on)).2] at pc
    exact ⟨linkedFrame linked rfl rfl rfl rfl (fun _ => rfl),
      countedEnqueue inv.counted queue rfl rfl rfl (by have := ok.2; simp; omega) (by simp [off]),
      fun w => workerFrame (inv.workers w) rfl (fun own => absurd (ok.1.symm.trans own) (by simp))
        rfl (same w),inv.main,ok.1,fun _ => Or.inl (Or.inr rfl)⟩
  | broadcast pc =>
    simp only [HandlerOk,pc] at ok
    exact inv.advance rfl rfl rfl rfl rfl rfl (by simp [pc]) rfl (fun _ => id) inv.main ok
      (fun _ => Or.inr rfl)
  | unlock pc =>
    simp only [HandlerOk,pc] at ok
    refine inv.advance rfl rfl rfl rfl rfl rfl (by simp [pc]) rfl
      (fun w own => absurd (ok.symm.trans own) (by simp)) ?_ trivial
      (by simp [State.signalling,pc,State.release])
    have mok := inv.main
    unfold MainOk at mok ⊢
    cases mp : s.main.pc <;> simp_all [State.release]

theorem countPMove {p q : Nat → Bool} {w : Nat} (others : ∀ v, v ≠ w → q v = p v) {l : List Nat}
    (nodup : l.Nodup) (mem : w ∈ l) :
    l.countP q + (if p w then 1 else 0) = l.countP p + if q w then 1 else 0 := by
  induction l with
  | nil => simp at mem
  | cons v rest ih =>
    obtain ⟨away,nodup⟩ := List.nodup_cons.mp nodup
    by_cases here : v = w
    · subst v
      have same : rest.countP q = rest.countP p :=
        List.countP_congr fun x hx => by rw [others x fun eq => away (eq ▸ hx)]
      simp only [List.countP_cons,same]
      omega
    · have later := ih nodup ((List.mem_cons.mp mem).resolve_left fun eq => here eq.symm)
      simp only [List.countP_cons,others v here]
      omega

theorem endedAppend {s t : State} {w : Nat} {e : Entry} (h : t.dequeued = s.dequeued ++ [(w,e)])
    (v : Nat) : t.ended v = (s.ended v || (w == v && e.action == .terminate)) := by
  simp [State.ended,h]

theorem endedOfMem {s : State} {w : Nat} {e : Entry} (mem : (w,e) ∈ s.dequeued)
    (ends : e.action = .terminate) : s.ended w = true := by
  simp only [State.ended,List.any_eq_true,Bool.and_eq_true,beq_iff_eq]
  exact ⟨_,mem,rfl,ends⟩

theorem dequeueLinked {s t : State} {w : Nat} (linked : Linked s) (nonempty : s.queue ≠ [])
    (going : s.ended w = false) (pc : (s.workers w).pc = .removeHead)
    (h : workerStep s w = some t) :
    ∃ a c list, s.heap a = some c ∧ s.queue = c.entry::t.queue ∧ Linked t ∧
      t = {s with list := list, dequeued := s.dequeued ++ [(w,c.entry)]}.goto w ⟨.unlock,some a⟩ := by
  obtain ⟨e,rest,queue⟩ := List.exists_cons_of_ne_nil nonempty
  obtain ⟨nodes,rep,away⟩ := linked.listed
  rw [queue] at rep
  have distinct := rep.distinct
  obtain ⟨a,nodes,list,c,rfl,removed,found,rfl,rep'⟩ := removeHeadSpec rep
  have left : s.enqueued = s.dequeued.map Prod.snd ++ c.entry::rest := by
    obtain ⟨later,h⟩ := linked.order
    have same : s.queue = later := by simp [State.queue,← h]
    rw [← queue,same,h]
  simp only [workerStep,pc,removed,bind,Option.bind,found,Option.toList,List.map] at h
  cases Option.some.inj h
  have queue' : State.queue
      ({s with list := list, dequeued := s.dequeued ++ [(w,c.entry)]}.goto w ⟨.unlock,some a⟩) =
      rest := by
    simp [State.queue,State.goto,left,List.drop_append]
  refine ⟨a,c,list,found,queue.trans (by rw [queue']),⟨⟨nodes,?_,?_⟩,?_,?_,?_,?_⟩,rfl⟩
  · rw [queue']; exact rep'
  · intro v x held
    by_cases mine : v = w
    · subst v
      cases Option.some.inj ((by simp [State.goto] : _ = some a).symm.trans held)
      exact (List.nodup_cons.mp distinct).1
    · exact fun mem => away v x (by simpa [State.goto,mine] using held) (List.mem_cons_of_mem _ mem)
  · have fresh : ∀ v, (s.workers v).c ≠ some a := fun v held => away v a held (by simp)
    intro v u x hv hu
    by_cases mine : v = w <;> by_cases his : u = w
    · rw [mine,his]
    · simp only [State.goto,mine,Function.update_self,Option.some.injEq] at hv
      exact absurd (by simpa [State.goto,his,hv] using hu) (fresh u)
    · simp only [State.goto,his,Function.update_self,Option.some.injEq] at hu
      exact absurd (by simpa [State.goto,mine,hu] using hv) (fresh v)
    · exact linked.apart v u x (by simpa [State.goto,mine] using hv)
        (by simpa [State.goto,his] using hu)
  · intro v x held
    by_cases mine : v = w
    · simp only [State.goto,mine,Function.update_self,Option.some.injEq] at held
      simp [State.goto,← held,found]
    · exact linked.held v x (by simpa [State.goto,mine] using held)
  · simp [State.goto,left]
  · intro xs v e ys eq ends p hp
    change s.dequeued ++ [(w,c.entry)] = _ at eq
    rcases List.eq_nil_or_concat ys with rfl | ⟨ys,y,rfl⟩
    · simp at hp
    · rw [List.concat_eq_append,← List.cons_append,← List.append_assoc] at eq
      obtain ⟨before,newest⟩ := List.append_inj' eq rfl
      rcases List.mem_append.mp (by simpa only [List.concat_eq_append] using hp) with old | new
      · exact linked.last xs v e ys before ends p old
      · cases List.cons.inj newest |>.1
        rw [List.mem_singleton.mp new]
        rintro rfl
        have done := endedOfMem (show (w,e) ∈ s.dequeued by rw [before]; simp) ends
        simp [going] at done

theorem Inv.proceed {numThreads} {s t : State} {w : Nat} (inv : Inv numThreads s)
    (enqueued : t.enqueued = s.enqueued) (dequeued : t.dequeued = s.dequeued)
    (loop : t.loop = s.loop) (main : t.main = s.main) (handler : t.handler = s.handler)
    (others : ∀ v, v ≠ w → t.workers v = s.workers v)
    (linked : Linked t)
    (owner : ∀ tid, tid ≠ .worker w → s.mConList = some tid → t.mConList = some tid)
    (heap : ∀ v a, v ≠ w → (s.workers v).c = some a → t.heap a = s.heap a)
    (mine : WorkerOk t w) (awake : s.queue ≠ [] → s.freeConn = [] → t.freeConn = []) :
    Inv numThreads t := by
  have queue : t.queue = s.queue := by simp [State.queue,enqueued,dequeued]
  have ended : t.ended = s.ended := by funext v; simp [State.ended,dequeued]
  refine ⟨linked,countedFrame inv.counted enqueued dequeued loop (by rw [handler]) (by rw [handler]; exact id),
    fun v => ?_,?_,?_,?_⟩
  · by_cases eq : v = w
    · rw [eq]; exact mine
    · exact workerFrame (inv.workers v) (others v eq)
        (fun own => ⟨owner _ (by simp [eq]) own,queue⟩) (by rw [ended]) (fun a => heap v a eq)
  · have ok := inv.main
    unfold MainOk at ok ⊢
    rw [main]
    refine ⟨ok.1,?_⟩
    have ok := ok.2
    split at ok <;> first | exact owner _ (by simp) ok | trivial
  · have ok := inv.handler
    unfold HandlerOk at ok ⊢
    rw [handler]
    split at ok
    · exact ok
    · exact ⟨owner _ (by simp) ok.1,ok.2⟩
    · exact owner _ (by simp) ok
    · exact owner _ (by simp) ok
    · trivial
  · rw [queue]
    intro some
    rcases inv.awake some with loud | quiet
    · exact Or.inl (by simpa [State.signalling,main,handler] using loud)
    · exact Or.inr (awake some quiet)

theorem linkedFree {s t : State} {w a : Nat} (linked : Linked s) (held : (s.workers w).c = some a)
    (heap : t.heap = free s.heap a) (list : t.list = s.list) (enqueued : t.enqueued = s.enqueued)
    (dequeued : t.dequeued = s.dequeued) (mine : (t.workers w).c = none)
    (others : ∀ v, v ≠ w → t.workers v = s.workers v) : Linked t := by
  have queue : t.queue = s.queue := by simp [State.queue,enqueued,dequeued]
  have was : ∀ v x, (t.workers v).c = some x → v ≠ w ∧ (s.workers v).c = some x := by
    intro v x hv
    have other : v ≠ w := by rintro rfl; simp [mine] at hv
    exact ⟨other,by rwa [others v other] at hv⟩
  obtain ⟨nodes,rep,away⟩ := linked.listed
  refine ⟨⟨nodes,?_,fun v x hv => away v x (was v x hv).2⟩,?_,?_,?_,?_⟩
  · rw [heap,list,queue]; exact freeRepresents rep (away w a held)
  · exact fun v u x hv hu => linked.apart v u x (was v x hv).2 (was u x hu).2
  · intro v x hv
    obtain ⟨other,old⟩ := was v x hv
    have differ : x ≠ a := fun eq => other (linked.apart v w x old (eq ▸ held))
    rw [heap,free,Function.update_of_ne differ]
    exact linked.held v x old
  · rw [dequeued,enqueued]; exact linked.order
  · rw [dequeued]; exact linked.last

theorem gotoOthers (s : State) (w : Nat) (me : Worker) (v : Nat) (other : v ≠ w) :
    (s.goto w me).workers v = s.workers v := Function.update_of_ne other _ _

theorem gotoKeeps {s : State} {w : Nat} {me : Worker} (same : me.c = (s.workers w).c) (v : Nat) :
    ((s.goto w me).workers v).c = (s.workers v).c := by
  by_cases eq : v = w
  · subst v; simpa [State.goto] using same
  · rw [gotoOthers s w me v eq]

theorem freedApart {s : State} {w a : Nat} (linked : Linked s) (held : (s.workers w).c = some a)
    (v x : Nat) (other : v ≠ w) (old : (s.workers v).c = some x) : free s.heap a x = s.heap x :=
  Function.update_of_ne (fun eq : x = a => other (linked.apart v w x old (by rw [eq]; exact held))) _ _

theorem removeHeadInv {numThreads s w t} (inv : Inv numThreads s) (bound : w < numThreads)
    (own : s.mConList = some (.worker w)) (going : s.ended w = false) (nonempty : s.queue ≠ [])
    (pc : (s.workers w).pc = .removeHead) (h : workerStep s w = some t) : Inv numThreads t := by
  obtain ⟨a,c,list,found,queue,linked,rfl⟩ := dequeueLinked inv.linked nonempty going pc h
  generalize ht : State.goto _ _ _ = t at queue linked ⊢
  have dequeued : t.dequeued = s.dequeued ++ [(w,c.entry)] := by rw [← ht]; rfl
  have ended := endedAppend dequeued
  have other : ∀ v, v ≠ w → t.ended v = s.ended v := fun v hv => by
    simp [ended,Ne.symm hv]
  refine ⟨linked,⟨?_,?_⟩,fun v => ?_,?_,?_,?_⟩
  · intro off
    have sum := inv.counted.sum (by rw [← off,← ht]; rfl)
    have rem : t.handler.remaining = s.handler.remaining := by rw [← ht]; rfl
    rw [State.tokens,queue,List.countP_cons] at sum
    change _ + t.queue.countP _ + _ = _
    by_cases last : c.entry.action = .terminate
    · have raise := countPMove other List.nodup_range (List.mem_range.mpr bound)
      have now : t.ended w = true := by simp [ended,last]
      simp only [going,now,Bool.false_eq_true,if_false,if_true] at raise
      simp only [last,beq_self_eq_true,if_true] at sum
      omega
    · have same : t.ended = s.ended := by funext v; simp [ended,last]
      simp only [beq_iff_eq,last,if_false] at sum
      rw [same]; omega
  · intro on
    have before := inv.counted.before (by rw [← on,← ht]; rfl)
    rw [← ht]; exact before
  · by_cases mine : v = w
    · subst v
      have holding : t.holding w :=
        ⟨a,c,by simp [← ht,State.goto],by rw [← ht]; exact found,
          by simp [ended,going,Connection.entry]⟩
      rw [← ht] at holding ⊢
      simp only [WorkerOk,State.goto,Function.update_self]
      exact ⟨own,holding⟩
    · refine workerFrame (inv.workers v) ?_ (fun his => ?_) (other v mine) fun _ _ => ?_
      · rw [← ht]; exact gotoOthers _ _ _ _ mine
      · cases Option.some.inj (own.symm.trans his); exact absurd rfl mine
      · rw [← ht]; rfl
  · rw [← ht]; exact inv.main
  · rw [← ht]; exact inv.handler
  · rw [← ht]; exact fun _ => inv.awake nonempty

inductive WorkerMove (s : State) (w : Nat) : State → Prop where
  | lock (pc : (s.workers w).pc = .lock) (free : s.mConList = none) (held : (s.workers w).c = none)
      (going : s.ended w = false) : WorkerMove s w
      (State.goto {s with mConList := some (.worker w)} w {s.workers w with pc := .isEmpty})
  | empty (pc : (s.workers w).pc = .isEmpty) (own : s.mConList = some (.worker w))
      (held : (s.workers w).c = none) (going : s.ended w = false) (none : isEmpty s.list = true) :
      WorkerMove s w (s.goto w {s.workers w with pc := .condWait})
  | nonempty (pc : (s.workers w).pc = .isEmpty) (own : s.mConList = some (.worker w))
      (held : (s.workers w).c = none) (going : s.ended w = false) (some : isEmpty s.list = false) :
      WorkerMove s w (s.goto w {s.workers w with pc := .removeHead})
  | condWait (pc : (s.workers w).pc = .condWait) (own : s.mConList = some (.worker w))
      (held : (s.workers w).c = none) (going : s.ended w = false) (none : s.queue = []) : WorkerMove s w
      (State.goto {s.release with freeConn := w::s.freeConn} w {s.workers w with pc := .waiting})
  | wake (pc : (s.workers w).pc = .waiting) (free : s.mConList = none) (held : (s.workers w).c = none)
      (going : s.ended w = false) : WorkerMove s w
      (State.goto {s with mConList := some (.worker w)} w {s.workers w with pc := .isEmpty})
  | removeHead {t} (pc : (s.workers w).pc = .removeHead) (own : s.mConList = some (.worker w))
      (going : s.ended w = false) (nonempty : s.queue ≠ []) (moves : workerStep s w = some t) :
      WorkerMove s w t
  | unlock (pc : (s.workers w).pc = .unlock) (own : s.mConList = some (.worker w))
      (held : s.holding w) : WorkerMove s w (s.release.goto w {s.workers w with pc := .action})
  | last {a c} (pc : (s.workers w).pc = .action) (held : (s.workers w).c = some a)
      (found : s.heap a = some c) (ends : s.ended w = true) (last : c.action = .terminate) :
      WorkerMove s w (State.goto {s with heap := free s.heap a} w ⟨.exited,none⟩)
  | client {a c} (pc : (s.workers w).pc = .action) (held : (s.workers w).c = some a)
      (found : s.heap a = some c) (going : s.ended w = false) (more : c.action ≠ .terminate) :
      WorkerMove s w (s.goto w {s.workers w with pc := .serve})
  | serve {a} (pc : (s.workers w).pc = .serve) (held : (s.workers w).c = some a)
      (going : s.ended w = false) :
      WorkerMove s w (State.goto {s with heap := free s.heap a} w ⟨.lock,none⟩)

theorem workerMove {s w t} (ok : WorkerOk s w) (h : workerStep s w = some t) : WorkerMove s w t := by
  unfold WorkerOk at ok
  cases pc : (s.workers w).pc <;> simp only [pc] at ok
  case lock =>
    simp only [workerStep,pc,bind,Option.bind_eq_some_iff] at h
    obtain ⟨u,hu,last⟩ := h
    obtain ⟨free,rfl⟩ := acquired hu
    cases Option.some.inj last
    exact .lock pc free ok.1 ok.2
  case isEmpty =>
    simp only [workerStep,pc,Option.some.injEq] at h
    subst t
    cases empty : isEmpty s.list
    · exact .nonempty pc ok.1 ok.2.1 ok.2.2 empty
    · exact .empty pc ok.1 ok.2.1 ok.2.2 empty
  case condWait =>
    simp only [workerStep,pc,Option.some.injEq] at h
    subst t
    exact .condWait pc ok.1 ok.2.1 ok.2.2.1 ok.2.2.2
  case waiting =>
    simp only [workerStep,pc] at h
    split at h <;> try contradiction
    simp only [bind,Option.bind_eq_some_iff] at h
    obtain ⟨u,hu,last⟩ := h
    obtain ⟨free,rfl⟩ := acquired hu
    cases Option.some.inj last
    exact .wake pc free ok.1 ok.2
  case removeHead => exact .removeHead pc ok.1 ok.2.2.1 ok.2.2.2 h
  case unlock =>
    simp only [workerStep,pc,Option.some.injEq] at h
    subst t
    exact .unlock pc ok.1 ok.2
  case action =>
    obtain ⟨a,c,held,found,ends⟩ := ok
    simp only [workerStep,pc,held,Option.bind_some,found] at h
    split at h <;> cases Option.some.inj h
    · rename_i last
      exact .last pc held found (ends.mp last) last
    · rename_i more
      rw [← held]
      exact .client pc held found (by simpa using fun done => more (ends.mpr done)) more
  case serve =>
    obtain ⟨going,a,held⟩ := ok
    simp only [workerStep,pc,held,Option.some.injEq] at h
    subst t
    exact .serve pc held going
  case exited => simp [workerStep,pc] at h

theorem Inv.moves {numThreads} {s : State} {w : Nat} {pc : WorkerPc} (inv : Inv numThreads s)
    (mConList : Option Tid) (freeConn : List Nat)
    (owner : ∀ tid, tid ≠ .worker w → s.mConList = some tid → mConList = some tid)
    (awake : s.queue ≠ [] → s.freeConn = [] → freeConn = [])
    (mine : WorkerOk (State.goto {s with mConList, freeConn} w {s.workers w with pc}) w) :
    Inv numThreads (State.goto {s with mConList, freeConn} w {s.workers w with pc}) :=
  inv.proceed (w := w) rfl rfl rfl rfl rfl (gotoOthers _ _ _)
    (linkedFrame inv.linked rfl rfl rfl rfl (gotoKeeps rfl)) owner (fun _ _ _ _ => rfl) mine awake

theorem Inv.frees {numThreads} {s : State} {w a : Nat} {pc : WorkerPc} (inv : Inv numThreads s)
    (held : (s.workers w).c = some a)
    (mine : WorkerOk (State.goto {s with heap := free s.heap a} w ⟨pc,none⟩) w) :
    Inv numThreads (State.goto {s with heap := free s.heap a} w ⟨pc,none⟩) :=
  inv.proceed (w := w) rfl rfl rfl rfl rfl (gotoOthers _ _ _)
    (linkedFree inv.linked held rfl rfl rfl rfl (by simp [State.goto]) (gotoOthers _ _ _))
    (fun _ _ => id) (freedApart inv.linked held) mine (fun _ => id)

theorem workerInv {numThreads s w t} (inv : Inv numThreads s) (bound : w < numThreads)
    (h : workerStep s w = some t) : Inv numThreads t := by
  cases workerMove (inv.workers w) h with
  | lock pc free held going | wake pc free held going =>
    refine inv.moves _ s.freeConn (by simp [free]) (fun _ => id) ?_
    simp only [WorkerOk,State.goto,Function.update_self]
    exact ⟨trivial,held,going⟩
  | empty pc own held going none =>
    obtain ⟨nodes,rep,_⟩ := inv.linked.listed
    refine inv.moves s.mConList s.freeConn (fun _ _ => id) (fun _ => id) ?_
    simp only [WorkerOk,State.goto,Function.update_self]
    exact ⟨own,held,going,(isEmptyExact rep).mp none⟩
  | nonempty pc own held going some =>
    obtain ⟨nodes,rep,_⟩ := inv.linked.listed
    refine inv.moves s.mConList s.freeConn (fun _ _ => id) (fun _ => id) ?_
    simp only [WorkerOk,State.goto,Function.update_self]
    exact ⟨own,held,going,fun none => by simp [(isEmptyExact rep).mpr none] at some⟩
  | condWait pc own held going none =>
    refine inv.moves _ (w::s.freeConn) (fun tid other mine => ?_) (fun some => absurd none some) ?_
    · exact absurd (Option.some.inj (mine.symm.trans own)) other
    · simp only [WorkerOk,State.goto,Function.update_self]
      exact ⟨held,going⟩
  | removeHead pc own going nonempty moves => exact removeHeadInv inv bound own going nonempty pc moves
  | unlock pc own held =>
    refine inv.moves _ s.freeConn (fun tid other mine => ?_) (fun _ => id) ?_
    · exact absurd (Option.some.inj (mine.symm.trans own)) other
    · simp only [WorkerOk,State.holding,State.goto,Function.update_self]
      exact held
  | last pc held found ends last =>
    refine inv.frees held ?_
    simp only [WorkerOk,State.goto,Function.update_self]
    exact ⟨ends,trivial⟩
  | @client a _ pc held found going more =>
    refine inv.moves s.mConList s.freeConn (fun _ _ => id) (fun _ => id) ?_
    simp only [WorkerOk,State.goto,Function.update_self]
    exact ⟨going,a,held⟩
  | serve pc held going =>
    refine inv.frees held ?_
    simp only [WorkerOk,State.goto,Function.update_self]
    exact ⟨trivial,going⟩

theorem stepInv {numThreads s event t} (inv : Inv numThreads s)
    (h : step numThreads s event = some t) : Inv numThreads t := by
  cases event with
  | sigint => exact catchInterruptInv inv h
  | main fresh answer => exact mainInv inv h
  | handler fresh => exact handlerInv inv h
  | worker w =>
    simp only [step] at h
    split at h <;> try contradiction
    exact workerInv inv (by assumption) h
  | spurious w =>
    simp only [step] at h
    split at h <;> try contradiction
    cases Option.some.inj h
    exact inv.advance rfl rfl rfl rfl rfl rfl id rfl (fun _ => id) inv.main inv.handler
      (fun old => old.imp_right fun quiet => by simp [quiet])

/-- Every run of the pool dispatches in order, loses nothing and ends with the tokens. -/
theorem dispatchedAlways {numThreads events t}
    (ran : run (step numThreads) initial events = some t) : Dispatched numThreads t :=
  (everyRun (initialInv numThreads) (fun _ _ _ => stepInv) ran).dispatched

def oneClient : List Event :=
  [.worker 0,.worker 0,.worker 0,.main 0 none,.main 0 none,.main 0 (some 4),.main 0 none,.main 7 none,
    .main 0 none,.main 0 none,.worker 0,.worker 0,.worker 0,.worker 0,.worker 0,.worker 0,.sigint,
    .handler 0,.handler 0,.handler 7,.handler 0,.handler 0,.handler 0,.worker 0,.worker 0,.worker 0,
    .worker 0,.worker 0]

theorem dispatchedOneClient : ∃ t, run (step 1) initial oneClient = some t ∧
    t.dequeued = [(0,⟨4,.process⟩),(0,⟨0,.terminate⟩)] ∧ Dispatched 1 t := by
  have ran : run (step 1) initial oneClient = some _ := rfl
  exact ⟨_,ran,rfl,dispatchedAlways ran⟩

end IttyBittyServer.WorkerPool
