import IttyBittyServer.SharedNodes

/-! The entries of the connection list that the accept loop makes for marked nodes. An
entry does not name its node, so a worker searches again; the law below says when the
node that it finds is the marked one. -/
namespace IttyBittyServer.Entries
open MemList ProcessShared SharedNodes Run

def entry : Task → Option Nat
  | .search n _ | .at n _ => some n
  | _ => none

def Ticket (s : State) (n : Nat) : Prop :=
  s.main = .enqueue n ∨ n ∈ s.queue ∨ ∃ k, entry (s.tasks k) = some n

structure Claimed (s : State) : Prop where
  finds : ∀ k, s.tasks k ≠ .null
  alone : ∀ k l n n' m, s.tasks k = .at n m → s.tasks l = .at n' m → k = l
  kept : ∀ n, s.claimed n = true → s.main = .enqueue n ∨ n ∈ s.queue ∨
    (∃ k i, i ≤ n ∧ s.tasks k = .search n i) ∨ ∃ k e, s.tasks k = .at e n

def ownNode (s : State) : Event → Prop
  | .find k => ∀ n i, s.tasks k = .search n i →
    ((s.nodes i).node.proxyState = .waitingInitSrvr ↔ i = n)
  | _ => True

structure Inv (s : State) : Prop where
  tested : ∀ n, s.main = .test n → n < s.numNodes
  marking : ∀ n, s.main = .mark n → n < s.numNodes ∧ ¬ Ticket s n
  bound : ∀ n, Ticket s n → n < s.numNodes
  busy : ∀ n, Ticket s n → (s.nodes n).node.serverState ≠ .idle
  nodup : s.queue.Nodup
  leaving : ∀ n, s.main = .enqueue n → n ∉ s.queue ∧ ∀ k, entry (s.tasks k) ≠ some n
  queued : ∀ n ∈ s.queue, ∀ k, entry (s.tasks k) ≠ some n
  single : ∀ k l n, entry (s.tasks k) = some n → entry (s.tasks l) = some n → k = l
  own : ∀ k n m, s.tasks k = .at n m → m = n
  ahead : ∀ k n i, s.tasks k = .search n i → i ≤ n
  finds : ∀ k, s.tasks k ≠ .null
  there : ∀ k m, ((s.nodes m).servers k).pc ≠ .idle ↔ ∃ n, s.tasks k = .at n m
  ticket : ∀ n, s.claimed n = true ↔ Ticket s n

section
variable {s t : State}

theorem searchFound {flag : StateT} {i n : Nat} (found : search s flag i = .found n) :
    n = i ∧ i < s.numNodes ∧ (s.nodes i).node.proxyState = flag := by
  unfold search findState at found
  split at found <;> try contradiction
  split at found <;> try contradiction
  rename_i inside same
  exact ⟨(Found.found.inj found).symm,inside,same⟩

theorem searchNext {flag : StateT} {i n : Nat} (next : search s flag i = .next n) :
    n = i + 1 ∧ i < s.numNodes ∧ (s.nodes i).node.proxyState ≠ flag := by
  unfold search findState at next
  split at next <;> try contradiction
  split at next <;> try contradiction
  rename_i inside other
  exact ⟨(Found.next.inj next).symm,inside,other⟩

theorem searchNull {flag : StateT} {i : Nat} (null : search s flag i = .null) :
    s.numNodes ≤ i := by
  unfold search findState at null
  split at null
  · split at null <;> contradiction
  · omega

theorem Inv.claimed (inv : Inv s) : Claimed s where
  finds := inv.finds
  alone := fun k l n n' m here there => by
    obtain rfl := inv.own k n m here
    obtain rfl := inv.own l n' m there
    exact inv.single k l m (by rw [here]; rfl) (by rw [there]; rfl)
  kept := fun n marked => by
    rcases (inv.ticket n).mp marked with main | queued | ⟨k,task⟩
    · exact .inl main
    · exact .inr (.inl queued)
    · cases point : s.tasks k with
      | search n' i =>
        simp only [point,entry,Option.some.injEq] at task
        subst task
        exact .inr (.inr (.inl ⟨k,i,inv.ahead k n' i point,point⟩))
      | «at» n' m =>
        simp only [point,entry,Option.some.injEq] at task
        subst task
        obtain rfl := inv.own k n' m point
        exact .inr (.inr (.inr ⟨k,m,point⟩))
      | free | null => simp [point,entry] at task

theorem initialInv {numNodes : Nat} : Inv (initial numNodes) := by
  constructor <;> simp [initial,Ticket,entry,Server.rest]

structure Steady (s t : State) : Prop where
  numNodes : t.numNodes = s.numNodes
  main : t.main = s.main
  queue : t.queue = s.queue
  claimed : t.claimed = s.claimed
  entries : ∀ k, entry (t.tasks k) = entry (s.tasks k)
  busy : ∀ n, (s.nodes n).node.serverState ≠ .idle → (t.nodes n).node.serverState ≠ .idle

theorem Steady.ticket (steady : Steady s t) (n : Nat) : Ticket t n ↔ Ticket s n := by
  simp only [Ticket,steady.main,steady.queue,steady.entries]

theorem Steady.inv (steady : Steady s t) (inv : Inv s)
    (own : ∀ k n m, t.tasks k = .at n m → m = n)
    (ahead : ∀ k n i, t.tasks k = .search n i → i ≤ n) (finds : ∀ k, t.tasks k ≠ .null)
    (there : ∀ k m, ((t.nodes m).servers k).pc ≠ .idle ↔ ∃ n, t.tasks k = .at n m) : Inv t where
  own
  ahead
  finds
  there
  tested := by simpa only [steady.main,steady.numNodes] using inv.tested
  marking := by simpa only [steady.main,steady.numNodes,steady.ticket] using inv.marking
  bound := by simpa only [steady.ticket,steady.numNodes] using inv.bound
  busy := fun n ticket => steady.busy n (inv.busy n ((steady.ticket n).mp ticket))
  nodup := by simpa only [steady.queue] using inv.nodup
  leaving := by simpa only [steady.main,steady.queue,steady.entries] using inv.leaving
  queued := by simpa only [steady.queue,steady.entries] using inv.queued
  single := by simpa only [steady.entries] using inv.single
  ticket := fun n => by rw [steady.claimed,steady.ticket]; exact inv.ticket n

structure Aside (s t : State) : Prop where
  numNodes : t.numNodes = s.numNodes
  main : t.main = s.main
  queue : t.queue = s.queue
  tasks : t.tasks = s.tasks
  claimed : t.claimed = s.claimed
  servers : ∀ n, (t.nodes n).servers = (s.nodes n).servers
  busy : ∀ n, (s.nodes n).node.serverState ≠ .idle → (t.nodes n).node.serverState ≠ .idle

theorem Aside.steady (aside : Aside s t) : Steady s t :=
  ⟨aside.numNodes,aside.main,aside.queue,aside.claimed,fun k => by rw [aside.tasks],aside.busy⟩

theorem Aside.inv (aside : Aside s t) (inv : Inv s) : Inv t :=
  aside.steady.inv inv (by simpa only [aside.tasks] using inv.own)
    (by simpa only [aside.tasks] using inv.ahead) (by simpa only [aside.tasks] using inv.finds)
    (by simpa only [aside.servers,aside.tasks] using inv.there)

theorem arriveAside {w : Nat} {request : List UInt8}
    (next : step s (.arrive w request) = some t) : Aside s t := by
  cases stepMove next with
  | arrive => exact ⟨rfl,rfl,rfl,rfl,rfl,fun _ => rfl,fun _ busy => busy⟩

theorem chooseAside {w : Nat} (next : step s (.choose w) = some t) : Aside s t := by
  cases stepMove next with
  | @chosen _ _ _ n =>
    exact ⟨rfl,rfl,rfl,rfl,rfl,
      fun m => by by_cases same : m = n <;> simp [setClient,setNode,Function.update,same],
      fun m busy => by
        by_cases same : m = n <;> simp_all [setClient,setNode,Function.update]⟩
  | chooseNext | chooseNull => exact ⟨rfl,rfl,rfl,rfl,rfl,fun _ => rfl,fun _ busy => busy⟩

theorem proxyAside {w sent : Nat} {woken : Tid}
    (next : step s (.proxy w woken sent) = some t) : Aside s t := by
  cases stepMove next with
  | @proxy _ _ _ n node x _ moves =>
    have flags := (proxyFlags moves).2
    exact ⟨rfl,rfl,rfl,rfl,rfl,
      fun m => by by_cases same : m = n <;> simp [setClient,setNode,Function.update,same],
      fun m busy => by
        by_cases same : m = n
        · subst same
          simp only [setClient,setNode,Function.update_self]
          rcases flags with kept | changed
          · exact kept ▸ busy
          · exact changed.1
        · simpa [setClient,setNode,Function.update,same] using busy⟩

theorem polledInv {m : Main} (inv : Inv s) (was : ∀ n, s.main ≠ .enqueue n)
    (tested : ∀ n, m = .test n → n < s.numNodes)
    (marking : ∀ n, m = .mark n → n < s.numNodes ∧ ¬ Ticket s n)
    (notYet : ∀ n, m ≠ .enqueue n) : Inv { s with main := m } := by
  have same (n : Nat) : Ticket { s with main := m } n ↔ Ticket s n := by
    simp [Ticket,was n,notYet n]
  exact { inv with
    tested
    marking := fun n e => ⟨(marking n e).1,fun ticket => (marking n e).2 ((same n).mp ticket)⟩
    bound := fun n ticket => inv.bound n ((same n).mp ticket)
    busy := fun n ticket => inv.busy n ((same n).mp ticket)
    leaving := fun n e => absurd e (notYet n)
    ticket := fun n => (inv.ticket n).trans (same n).symm }

theorem markInv {n : Nat} (inv : Inv s) (main : s.main = .mark n) : Inv (acceptLoop s) := by
  obtain ⟨inside,fresh⟩ := inv.marking n main
  have tickets (m : Nat) : Ticket (acceptLoop s) m ↔ m = n ∨ Ticket s m := by
    simp [Ticket,acceptLoop,main,setNode,@eq_comm _ n m]
  have nodes (m : Nat) : ((acceptLoop s).nodes m).servers = (s.nodes m).servers := by
    by_cases same : m = n <;> simp [acceptLoop,main,setNode,Function.update,same]
  have fields : (acceptLoop s).queue = s.queue ∧ (acceptLoop s).tasks = s.tasks ∧
      (acceptLoop s).numNodes = s.numNodes ∧ (acceptLoop s).main = .enqueue n := by
    simp [acceptLoop,main,setNode]
  obtain ⟨queue,tasks,numNodes,after⟩ := fields
  exact {
    tested := fun m e => by rw [after] at e; cases e
    marking := fun m e => by rw [after] at e; cases e
    bound := fun m ticket => by
      rw [numNodes]
      rcases (tickets m).mp ticket with rfl | old
      · exact inside
      · exact inv.bound m old
    busy := fun m ticket => by
      by_cases same : m = n
      · subst same; simp [acceptLoop,main,setNode]
      · have old := ((tickets m).mp ticket).resolve_left same
        simpa [acceptLoop,main,setNode,Function.update,same] using inv.busy m old
    nodup := queue ▸ inv.nodup
    leaving := fun m e => by
      rw [after] at e
      cases e
      rw [queue,tasks]
      exact ⟨fun mem => fresh (.inr (.inl mem)),fun k task => fresh (.inr (.inr ⟨k,task⟩))⟩
    queued := by rw [queue,tasks]; exact inv.queued
    single := by rw [tasks]; exact inv.single
    own := by rw [tasks]; exact inv.own
    ahead := by rw [tasks]; exact inv.ahead
    finds := by rw [tasks]; exact inv.finds
    there := fun k m => by rw [nodes,tasks]; exact inv.there k m
    ticket := fun m => by
      rw [tickets m,← inv.ticket m]
      by_cases same : m = n <;> simp [acceptLoop,main,setNode,Function.update,same] }

theorem enqueueInv {n : Nat} (inv : Inv s) (main : s.main = .enqueue n) :
    Inv { s with main := .search 0, queue := s.queue ++ [n] } := by
  obtain ⟨out,untaken⟩ := inv.leaving n main
  have tickets (m : Nat) :
      Ticket { s with main := .search 0, queue := s.queue ++ [n] } m ↔ Ticket s m := by
    simp only [Ticket,main,reduceCtorEq,false_or,List.mem_append,List.mem_singleton,
      Main.enqueue.injEq,@eq_comm _ n m]
    tauto
  exact { inv with
    tested := fun m e => by cases e
    marking := fun m e => by cases e
    bound := fun m ticket => inv.bound m ((tickets m).mp ticket)
    busy := fun m ticket => inv.busy m ((tickets m).mp ticket)
    nodup := by
      refine List.nodup_append.mpr ⟨inv.nodup,by simp,fun a old b new same => ?_⟩
      rw [same,List.mem_singleton.mp new] at old
      exact out old
    leaving := fun m e => by cases e
    queued := fun m mem => by
      rcases List.mem_append.mp mem with old | new
      · exact inv.queued m old
      · cases List.mem_singleton.mp new; exact untaken
    ticket := fun m => (inv.ticket m).trans (tickets m).symm }

theorem acceptInv (inv : Inv s) (next : step s .accept = some t) : Inv t := by
  cases Option.some.inj next
  cases main : s.main with
  | search i =>
    have was (n : Nat) : s.main ≠ .enqueue n := by simp [main]
    simp only [acceptLoop,main]
    split
    · rename_i n found
      obtain ⟨rfl,inside,_⟩ := searchFound found
      exact polledInv inv was (fun m e => by cases e; exact inside) (by simp) (by simp)
    · exact polledInv inv was (by simp) (by simp) (by simp)
    · exact polledInv inv was (by simp) (by simp) (by simp)
  | test n =>
    have was (n : Nat) : s.main ≠ .enqueue n := by simp [main]
    simp only [acceptLoop,main]
    split
    · rename_i idle
      exact polledInv inv was (by simp) (fun m e => by
        cases e
        exact ⟨inv.tested n main,fun ticket => inv.busy n ticket idle⟩) (by simp)
    · exact polledInv inv was (by simp) (by simp) (by simp)
  | mark n => exact markInv inv main
  | enqueue n =>
    have step : acceptLoop s = { s with main := .search 0, queue := s.queue ++ [n] } := by
      simp [acceptLoop,main]
    rw [step]
    exact enqueueInv inv main

theorem dequeueInv {k n : Nat} {rest : List Nat} (inv : Inv s) (task : s.tasks k = .free)
    (queue : s.queue = n::rest) : Inv (setTask { s with queue := rest } k (.search n 0)) := by
  have nodup := inv.nodup
  rw [queue,List.nodup_cons] at nodup
  have first : n ∈ s.queue := by simp [queue]
  have others (m l : Nat) : entry (Function.update s.tasks k (.search n 0) l) = some m ↔
      l = k ∧ m = n ∨ entry (s.tasks l) = some m := by
    by_cases same : l = k
    · subst same; simp [entry,task,@eq_comm _ n m]
    · simp [Function.update,same]
  have tickets (m : Nat) :
      Ticket (setTask { s with queue := rest } k (.search n 0)) m ↔ Ticket s m := by
    simp only [Ticket,setTask,queue,List.mem_cons,others]
    constructor
    · rintro (main | mem | ⟨l,⟨_,rfl⟩ | old⟩)
      · exact .inl main
      · exact .inr (.inl (.inr mem))
      · exact .inr (.inl (.inl rfl))
      · exact .inr (.inr ⟨l,old⟩)
    · rintro (main | (rfl | mem) | ⟨l,old⟩)
      · exact .inl main
      · exact .inr (.inr ⟨k,.inl ⟨rfl,rfl⟩⟩)
      · exact .inr (.inl mem)
      · exact .inr (.inr ⟨l,.inr old⟩)
  exact { inv with
    marking := fun m e => ⟨(inv.marking m e).1,fun ticket => (inv.marking m e).2 ((tickets m).mp ticket)⟩
    bound := fun m ticket => inv.bound m ((tickets m).mp ticket)
    busy := fun m ticket => inv.busy m ((tickets m).mp ticket)
    nodup := nodup.2
    leaving := fun m e => by
      obtain ⟨out,untaken⟩ := inv.leaving m e
      refine ⟨fun mem => out (queue ▸ List.mem_cons_of_mem n mem),fun l held => ?_⟩
      rcases (others m l).mp held with ⟨_,rfl⟩ | old
      · exact out first
      · exact untaken l old
    queued := fun m mem l held => by
      rcases (others m l).mp held with ⟨_,rfl⟩ | old
      · exact nodup.1 mem
      · exact inv.queued m (queue ▸ List.mem_cons_of_mem n mem) l old
    single := fun a b m ha hb => by
      rcases (others m a).mp ha with ⟨rfl,rfl⟩ | oldA <;>
        rcases (others m b).mp hb with ⟨rfl,same⟩ | oldB
      · rfl
      · exact absurd oldB (inv.queued m first b)
      · exact absurd oldA (inv.queued m (same ▸ first) a)
      · exact inv.single a b m oldA oldB
    own := fun l m m' e => by
      by_cases same : l = k
      · subst same; simp [setTask] at e
      · exact inv.own l m m' (by simpa [setTask,Function.update,same] using e)
    ahead := fun l m i e => by
      by_cases same : l = k
      · subst same; simp [setTask] at e; omega
      · exact inv.ahead l m i (by simpa [setTask,Function.update,same] using e)
    finds := fun l => by
      by_cases same : l = k
      · subst same; simp [setTask]
      · simpa [setTask,Function.update,same] using inv.finds l
    there := fun l m => by
      rw [show ((setTask { s with queue := rest } k (.search n 0)).nodes m) = s.nodes m from rfl,
        inv.there l m]
      by_cases same : l = k
      · subst same; simp [setTask,task]
      · simp [setTask,Function.update,same]
    ticket := fun m => (inv.ticket m).trans (tickets m).symm }

theorem foundInv {k n i : Nat} (inv : Inv s) (task : s.tasks k = .search n i)
    (here : i = n) : Inv (setTask (setNode s i { s.nodes i with
      servers := Function.update (s.nodes i).servers k .start }) k (.at n i)) := by
  subst here
  have steady : Steady s (setTask (setNode s i { s.nodes i with
      servers := Function.update (s.nodes i).servers k .start }) k (.at i i)) :=
    ⟨rfl,rfl,rfl,rfl,fun l => by
      by_cases same : l = k
      · subst same; simp [setTask,entry,task]
      · simp [setTask,setNode,Function.update,same],
    fun a busy => by
      by_cases same : a = i <;> simp_all [setTask,setNode,Function.update]⟩
  refine steady.inv inv (fun l a b e => ?_) (fun l a b e => ?_) (fun l => ?_) (fun l a => ?_)
  · by_cases same : l = k
    · subst same; simp [setTask] at e; omega
    · exact inv.own l a b (by simpa [setTask,setNode,Function.update,same] using e)
  · by_cases same : l = k
    · subst same; simp [setTask] at e
    · exact inv.ahead l a b (by simpa [setTask,setNode,Function.update,same] using e)
  · by_cases same : l = k
    · subst same; simp [setTask]
    · simpa [setTask,setNode,Function.update,same] using inv.finds l
  · have old := inv.there l a
    by_cases same : l = k <;> by_cases here : a = i
    · subst same here; simp [setTask,setNode,Server.start]
    · subst same
      simp only [task,reduceCtorEq,exists_false,iff_false] at old
      simpa [setTask,setNode,Function.update,here,@eq_comm _ i a] using old
    · subst here; simpa [setTask,setNode,Function.update,same] using old
    · simpa [setTask,setNode,Function.update,same,here] using old

theorem findNextInv {k n i : Nat} (inv : Inv s) (task : s.tasks k = .search n i)
    (before : i < n) : Inv (setTask s k (.search n (i + 1))) := by
  have steady : Steady s (setTask s k (.search n (i + 1))) :=
    ⟨rfl,rfl,rfl,rfl,fun l => by
      by_cases same : l = k
      · subst same; simp [setTask,entry,task]
      · simp [setTask,Function.update,same],
    fun _ busy => busy⟩
  refine steady.inv inv (fun l a b e => ?_) (fun l a b e => ?_) (fun l => ?_) (fun l a => ?_)
  · by_cases same : l = k
    · subst same; simp [setTask] at e
    · exact inv.own l a b (by simpa [setTask,Function.update,same] using e)
  · by_cases same : l = k
    · subst same; simp [setTask] at e; omega
    · exact inv.ahead l a b (by simpa [setTask,Function.update,same] using e)
  · by_cases same : l = k
    · subst same; simp [setTask]
    · simpa [setTask,Function.update,same] using inv.finds l
  · refine (inv.there l a).trans ?_
    by_cases same : l = k
    · subst same; simp [setTask,task]
    · simp [setTask,Function.update,same]

theorem findInv {k : Nat} (inv : Inv s) (held : ownNode s (.find k))
    (next : step s (.find k) = some t) : Inv t := by
  cases stepMove next with
  | @found _ n i m task found =>
    obtain ⟨rfl,_,posted⟩ := searchFound found
    exact foundInv inv task ((held n m task).mp posted)
  | @findNext _ n i j task further =>
    obtain ⟨rfl,_,other⟩ := searchNext further
    have passed : i ≠ n := fun same => other ((held n i task).mpr same)
    exact findNextInv inv task (Nat.lt_of_le_of_ne (inv.ahead k n i task) passed)
  | @findNull _ n i task null =>
    have below := inv.ahead k n i task
    have inside : n < s.numNodes := inv.bound n (.inr (.inr ⟨k,by rw [task]; rfl⟩))
    have beyond := searchNull null
    omega

structure Served (s t : State) (k n : Nat) : Prop where
  numNodes : t.numNodes = s.numNodes
  main : t.main = s.main
  queue : t.queue = s.queue
  others : ∀ m, m ≠ n → t.nodes m = s.nodes m ∧ t.claimed m = s.claimed m
  workers : ∀ l, l ≠ k → t.tasks l = s.tasks l ∧ (t.nodes n).servers l = (s.nodes n).servers l
  task : (((t.nodes n).servers k).pc ≠ .idle ∧ t.tasks k = s.tasks k ∧ t.claimed n = s.claimed n ∧
      ((s.nodes n).node.serverState ≠ .idle → (t.nodes n).node.serverState ≠ .idle)) ∨
    ((t.nodes n).servers k).pc = .idle ∧ t.tasks k = .free ∧ t.claimed n = false

theorem serverServed {k n m : Nat} {woken : Tid} {header body : List UInt8}
    (task : s.tasks k = .at n m) (next : step s (.server k woken header body) = some t) :
    Served s t k m := by
  cases stepMove next with
  | served task' ended moves =>
    cases task.symm.trans task'
    exact ⟨rfl,rfl,rfl,
      fun a other => by simp [setTask,setNode,Function.update,other],
      fun l other => by simp [setTask,setNode,Function.update,other],
      .inr (by simp [setTask,setNode,ended])⟩
  | serves task' going moves =>
    cases task.symm.trans task'
    obtain ⟨last,_,flag,_⟩ := serverFlags moves
    exact ⟨rfl,rfl,rfl,
      fun a other => by simp [setTask,setNode,Function.update,other],
      fun l other => by simp [setTask,setNode,Function.update,other],
      .inl ⟨by simpa [setTask,setNode] using going,by simp [setTask,task],rfl,fun busy => by
        simp only [setTask,setNode,Function.update_self]
        rcases flag with kept | leaves | busy
        · exact kept ▸ busy
        · exact absurd ((serverFlags moves).2.1 leaves).1 going
        · exact busy⟩⟩

theorem Served.entries {k n : Nat} (served : Served s t k n) (free : t.tasks k = .free) (l a : Nat) :
    entry (t.tasks l) = some a ↔ l ≠ k ∧ entry (s.tasks l) = some a := by
  by_cases same : l = k
  · subst same; simp [free,entry]
  · simp [(served.workers l same).1,same]

theorem Served.tickets {k m : Nat} (served : Served s t k m) (inv : Inv s) (held : entry (s.tasks k) = some m)
    (free : t.tasks k = .free) (a : Nat) : Ticket t a ↔ Ticket s a ∧ a ≠ m := by
  simp only [Ticket,served.main,served.queue,served.entries free]
  constructor
  · rintro (main | mem | ⟨l,other,old⟩)
    · exact ⟨.inl main,fun same => (inv.leaving a main).2 k (same ▸ held)⟩
    · exact ⟨.inr (.inl mem),fun same => inv.queued a mem k (same ▸ held)⟩
    · exact ⟨.inr (.inr ⟨l,old⟩),fun same => other (inv.single l k a old (same ▸ held))⟩
  · rintro ⟨main | mem | ⟨l,old⟩,other⟩
    · exact .inl main
    · exact .inr (.inl mem)
    · refine .inr (.inr ⟨l,fun same => other ?_,old⟩)
      rw [same,held] at old
      exact (Option.some.inj old).symm

theorem serverInv {k n m : Nat} {woken : Tid} {header body : List UInt8} (inv : Inv s)
    (task : s.tasks k = .at n m) (next : step s (.server k woken header body) = some t) :
    Inv t := by
  obtain rfl := inv.own k n m task
  have served := serverServed task next
  have held : entry (s.tasks k) = some m := by rw [task]; rfl
  rcases served.task with ⟨stays,kept,claim,busy⟩ | ⟨ended,free,unclaimed⟩
  · have tasks (l : Nat) : t.tasks l = s.tasks l := by
      by_cases same : l = k
      · rw [same,kept]
      · exact (served.workers l same).1
    have steady : Steady s t := ⟨served.numNodes,served.main,served.queue,
      funext fun a => by
        by_cases same : a = m
        · rw [same,claim]
        · exact (served.others a same).2,
      fun l => by rw [tasks],
      fun a => by
        by_cases same : a = m
        · subst same; exact busy
        · rw [(served.others a same).1]; exact id⟩
    refine steady.inv inv (by simpa only [tasks] using inv.own)
      (by simpa only [tasks] using inv.ahead) (by simpa only [tasks] using inv.finds)
      (fun l a => ?_)
    rw [tasks,← inv.there l a]
    by_cases here : a = m
    · subst here
      by_cases same : l = k
      · subst same
        simp only [stays,not_false_eq_true,true_iff,ne_eq]
        exact (inv.there l a).mpr ⟨a,task⟩
      · rw [(served.workers l same).2]
    · rw [(served.others a here).1]
  · have entries := served.entries free
    have tickets := served.tickets inv held free
    exact {
      tested := by rw [served.main,served.numNodes]; exact inv.tested
      marking := fun a e => by
        rw [served.numNodes]
        rw [served.main] at e
        exact ⟨(inv.marking a e).1,fun ticket => (inv.marking a e).2 ((tickets a).mp ticket).1⟩
      bound := fun a ticket => by
        rw [served.numNodes]; exact inv.bound a ((tickets a).mp ticket).1
      busy := fun a ticket => by
        obtain ⟨old,other⟩ := (tickets a).mp ticket
        rw [(served.others a other).1]; exact inv.busy a old
      nodup := served.queue ▸ inv.nodup
      leaving := fun a e => by
        rw [served.main] at e
        obtain ⟨out,untaken⟩ := inv.leaving a e
        exact ⟨served.queue ▸ out,fun l task => untaken l ((entries l a).mp task).2⟩
      queued := fun a mem l task =>
        inv.queued a (served.queue ▸ mem) l ((entries l a).mp task).2
      single := fun a b c ha hb =>
        inv.single a b c ((entries a c).mp ha).2 ((entries b c).mp hb).2
      own := fun l a b e => by
        by_cases same : l = k
        · rw [same,free] at e; cases e
        · exact inv.own l a b ((served.workers l same).1 ▸ e)
      ahead := fun l a b e => by
        by_cases same : l = k
        · rw [same,free] at e; cases e
        · exact inv.ahead l a b ((served.workers l same).1 ▸ e)
      finds := fun l => by
        by_cases same : l = k
        · simp [same,free]
        · rw [(served.workers l same).1]; exact inv.finds l
      there := fun l a => by
        have old := inv.there l a
        by_cases same : l = k
        · subst same
          by_cases here : a = m
          · subst here; simp [ended,free]
          · rw [(served.others a here).1,old]
            simp [task,free,@eq_comm _ m a,here]
        · rw [(served.workers l same).1,← old]
          by_cases here : a = m
          · subst here; rw [(served.workers l same).2]
          · rw [(served.others a here).1]
      ticket := fun a => by
        rw [tickets a]
        by_cases same : a = m
        · simp [same,unclaimed]
        · rw [(served.others a same).2,inv.ticket a]; simp [same] }

theorem stepInv {e : Event} (inv : Inv s) (held : ownNode s e) (next : step s e = some t) :
    Inv t := by
  cases stepMove next with
  | arrive => exact (arriveAside next).inv inv
  | chosen | chooseNext | chooseNull => exact (chooseAside next).inv inv
  | proxy => exact (proxyAside next).inv inv
  | accept => exact acceptInv inv next
  | dequeue task queue => exact dequeueInv inv task queue
  | found | findNext | findNull => exact findInv inv held next
  | serves task | served task => exact serverInv inv task next

theorem abandoned {k n i : Nat} (inv : Inv s) (task : s.tasks k = .search n i)
    (main : t.main = s.main) (queue : t.queue = s.queue) (claimed : t.claimed = s.claimed)
    (workers : ∀ l, l ≠ k → t.tasks l = s.tasks l)
    (searches : ∀ j, t.tasks k = .search n j → n < j) (serves : ∀ e, t.tasks k ≠ .at e n) :
    ¬ Claimed t := by
  intro law
  have held : entry (s.tasks k) = some n := by rw [task]; rfl
  have marked : t.claimed n = true := by rw [claimed]; exact (inv.ticket n).mpr (.inr (.inr ⟨k,held⟩))
  rcases law.kept n marked with enqueues | mem | ⟨l,j,before,searching⟩ | ⟨l,e,serving⟩
  · exact (inv.leaving n (main ▸ enqueues)).2 k held
  · exact inv.queued n (queue ▸ mem) k held
  · by_cases same : l = k
    · have after := searches j (same ▸ searching)
      omega
    · rw [workers l same] at searching
      exact same (inv.single l k n (by rw [searching]; rfl) held)
  · by_cases same : l = k
    · exact serves e (same ▸ serving)
    · rw [workers l same] at serving
      obtain rfl := inv.own l e n serving
      exact same (inv.single l k n (by rw [serving]; rfl) held)

theorem misses {e : Event} (inv : Inv s) (broken : ¬ ownNode s e) (next : step s e = some t) :
    ¬ Claimed t := by
  cases stepMove next with
  | @found k n i m task found =>
    obtain ⟨rfl,_,posted⟩ := searchFound found
    have elsewhere : m ≠ n := fun same => broken fun a b e => by
      cases task.symm.trans e
      exact ⟨fun _ => same,fun _ => posted⟩
    refine abandoned inv task rfl rfl rfl (fun l other => ?_) (fun j e => ?_) (fun e same => ?_)
    · simp [setTask,setNode,Function.update,other]
    · simp [setTask] at e
    · simp only [setTask,Function.update_self,Task.at.injEq] at same
      exact elsewhere same.2
  | @findNext k n i j task further =>
    obtain ⟨rfl,_,other⟩ := searchNext further
    have here : i = n := Classical.byContradiction fun elsewhere => broken fun a b e => by
      cases task.symm.trans e
      exact ⟨fun posted => absurd posted other,fun same => absurd same elsewhere⟩
    refine abandoned inv task rfl rfl rfl (fun l other => ?_) (fun j e => ?_) (fun e same => ?_)
    · simp [setTask,Function.update,other]
    · simp [setTask] at e; omega
    · simp [setTask] at same
  | @findNull k n i task null =>
    have below := inv.ahead k n i task
    have inside : n < s.numNodes := inv.bound n (.inr (.inr ⟨k,by rw [task]; rfl⟩))
    have beyond := searchNull null
    omega
  | _ => exact absurd trivial broken

end

theorem claimedExact {numNodes : Nat} {es : List Event} {s : State}
    (ran : run step (initial numNodes) es = some s) :
    Throughout step Claimed (initial numNodes) es ↔ Along step ownNode (initial numNodes) es :=
  throughoutExact initialInv (fun _ _ _ inv held next => stepInv inv held next)
    (fun _ inv => inv.claimed) (fun _ _ _ inv broken next => misses inv broken next) ran

def attended : List Event :=
  [.arrive 0 [1],.choose 0,.proxy 0 (.server 0) 0,.proxy 0 (.server 0) 0] ++
    [.accept,.accept,.accept,.accept,.dequeue 0,.find 0]

theorem claimedAttended : ∃ s, run step (initial 1) attended = some s ∧ s.tasks 0 = .at 0 0 ∧
    (Throughout step Claimed (initial 1) attended ↔ Along step ownNode (initial 1) attended) := by
  have ran : ((run step (initial 1) attended).map fun s => s.tasks 0) = some (.at 0 0) := by
    decide +kernel
  obtain ⟨s,hs,task⟩ := Option.map_eq_some_iff.mp ran
  exact ⟨s,hs,task,claimedExact hs⟩

def worker : Event → Option Nat
  | .dequeue k | .find k | .server k _ _ _ => some k
  | _ => none

theorem stepTasks {s t : State} {e : Event} {k : Nat} (other : worker e ≠ some k)
    (next : step s e = some t) : t.tasks k = s.tasks k := by
  have away {l : Nat} (mine : worker e = some l) : k ≠ l := fun same => other (same ▸ mine)
  cases stepMove next with
  | arrive | chosen | chooseNext | chooseNull | proxy => rfl
  | accept => cases main : s.main <;> simp only [acceptLoop,main,setNode] <;> split <;> rfl
  | dequeue | found | findNext | findNull => simp [setTask,setNode,Function.update,away rfl]
  | serves task | served task => exact ((serverServed task next).workers k (away rfl)).1

theorem runTasks {s t : State} {es : List Event} {k : Nat}
    (other : ∀ e ∈ es, worker e ≠ some k) (ran : run step s es = some t) :
    t.tasks k = s.tasks k := by
  induction es generalizing s with
  | nil => cases Option.some.inj ran; rfl
  | cons e rest ih =>
    obtain ⟨u,next,later⟩ := runCons ran
    exact (ih (fun a mem => other a (List.mem_cons_of_mem e mem)) later).trans
      (stepTasks (other e List.mem_cons_self) next)

/- The accept loop has read node 0 before its request is posted, so it marks node 1, and
the worker finds node 0. -/
def bypassed : List Event :=
  let post (w : Nat) : List Event := [.proxy w (.server 0) 0,.proxy w (.server 0) 0]
  [.accept,.arrive 0 [1],.choose 0] ++ post 0 ++ [.arrive 1 [2],.choose 1,.choose 1] ++ post 1 ++
    [.accept,.accept,.accept,.accept,.dequeue 0,.find 0]

theorem bypassedNode : ∃ s, run step (initial 2) bypassed = some s ∧ s.claimed 1 = true ∧
    ¬ Claimed s := by
  have ran : ((run step (initial 2) bypassed).map fun s =>
      (s.main,s.queue,s.tasks 0,s.claimed 1)) = some (.search 0,[],.at 1 0,true) := by
    decide +kernel
  obtain ⟨s,hs,same⟩ := Option.map_eq_some_iff.mp ran
  simp only [Prod.mk.injEq] at same
  obtain ⟨main,queue,task,marked⟩ := same
  have resting {k : Nat} (other : k ≠ 0) : s.tasks k = .free :=
    runTasks (by simp [bypassed,worker,@eq_comm _ 0 k,other]) hs
  refine ⟨s,hs,marked,fun law => ?_⟩
  rcases law.kept 1 marked with enqueues | mem | ⟨k,i,_,searching⟩ | ⟨k,e,serving⟩
  · rw [main] at enqueues; cases enqueues
  · rw [queue] at mem; cases mem
  · by_cases first : k = 0
    · rw [first,task] at searching; cases searching
    · rw [resting first] at searching; cases searching
  · by_cases first : k = 0
    · rw [first,task] at serving; cases serving
    · rw [resting first] at serving; cases serving

end IttyBittyServer.Entries
