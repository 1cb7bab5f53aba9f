import IttyBittyServer.Entries

/-! Which proxy worker uses which node. A worker that has found a node IDLE takes it two
steps later; the node is its own if nobody else finds it in between. -/
namespace IttyBittyServer.ExclusiveNodes
open MemList ProcessShared Rendezvous Coupling Transfer SharedNodes Entries Run

def Exclusive (s : State) : Prop := ∀ w v n, s.clients w = .at n → s.clients v = .at n → w = v

def taking : ProxyPC → Bool
  | .lock | .post => true
  | _ => false

/- A node that a worker finds IDLE has not been found by another that has yet to say so. -/
def untaken (s : State) : Event → Prop
  | .choose w => ∀ request i n v, s.clients w = .search request i →
    search s .idle i = .found n → s.clients v = .at n →
    taking ((s.nodes n).proxies v).pc = false
  | _ => True

def mover : Event → Option Nat
  | .arrive w _ | .choose w | .proxy w _ _ => some w
  | _ => none

def unspoiled (s : State) (e : Event) : Prop :=
  ∀ t w v n, step s e = some t → mover e = some w → v ≠ w → s.clients v = .at n →
    t.clients v = .at n ∧ (t.nodes n).node = (s.nodes n).node ∧
    (t.nodes n).proxies v = (s.nodes n).proxies v

def Own (s : State) : Prop := ∀ w n, s.clients w = .at n →
  let x := (s.nodes n).proxies w
  (x.received ≠ [] → ∃ response, (s.nodes n).replied = some (x.request.drop (lost x),response) ∧
    x.received <+: response) ∧
  (closing x.pc = true → (s.nodes n).replied = some (x.request.drop (lost x),x.received))

structure Used (s : State) : Prop where
  exclusive : Exclusive s
  there : ∀ w n, ((s.nodes n).proxies w).pc ≠ .idle ↔ s.clients w = .at n
  flagged : ∀ w n, s.clients w = .at n → taking ((s.nodes n).proxies w).pc = false →
    (s.nodes n).node.proxyState ≠ .idle

section
variable {s t : State}

theorem initialUsed {numNodes : Nat} : Used (initial numNodes) := by
  constructor <;> simp [initial,Exclusive,Proxy.rest]

structure Beside (s t : State) : Prop where
  clients : t.clients = s.clients
  proxies : ∀ n, (t.nodes n).proxies = (s.nodes n).proxies
  flag : ∀ n, (s.nodes n).node.proxyState ≠ .idle → (t.nodes n).node.proxyState ≠ .idle

theorem Beside.used (beside : Beside s t) (used : Used s) : Used t where
  exclusive := by simpa only [Exclusive,beside.clients] using used.exclusive
  there := by simpa only [beside.clients,beside.proxies] using used.there
  flagged := fun w n here taken => beside.flag n (used.flagged w n (beside.clients ▸ here)
    (beside.proxies n ▸ taken))

theorem acceptBeside (next : step s .accept = some t) : Beside s t := by
  cases Option.some.inj next
  cases main : s.main with
  | mark n =>
    exact ⟨by simp [acceptLoop,main,setNode],
      fun m => by by_cases same : m = n <;> simp [acceptLoop,main,setNode,Function.update,same],
      fun m flag => by
        by_cases same : m = n <;> simp_all [acceptLoop,setNode,Function.update]⟩
  | enqueue n => simp only [acceptLoop,main]; exact ⟨rfl,fun _ => rfl,fun _ flag => flag⟩
  | search i =>
    simp only [acceptLoop,main]
    split <;> exact ⟨rfl,fun _ => rfl,fun _ flag => flag⟩
  | test n =>
    simp only [acceptLoop,main]
    split <;> exact ⟨rfl,fun _ => rfl,fun _ flag => flag⟩

theorem findBeside {k : Nat} (next : step s (.find k) = some t) : Beside s t := by
  cases stepMove next with
  | @found _ _ _ m =>
    exact ⟨rfl,
      fun a => by by_cases same : a = m <;> simp [setTask,setNode,Function.update,same],
      fun a flag => by by_cases same : a = m <;> simp_all [setTask,setNode,Function.update]⟩
  | findNext | findNull => exact ⟨rfl,fun _ => rfl,fun _ flag => flag⟩

theorem serverBeside {k : Nat} {woken : Tid} {header body : List UInt8}
    (next : step s (.server k woken header body) = some t) : Beside s t := by
  have kept {m : Nat} {node : Memnode} {y : Server}
      (moves : handleClient k woken header body (s.nodes m).node ((s.nodes m).servers k) = some (node,y))
      (a : Nat) (busy : (s.nodes a).node.proxyState ≠ .idle) :
      (Function.update s.nodes m { s.nodes m with
        node
        servers := Function.update (s.nodes m).servers k y
        replied := if ((s.nodes m).servers k).pc = .respond then
            some (((s.nodes m).servers k).line,header ++ body)
          else (s.nodes m).replied } a).node.proxyState ≠ .idle := by
    by_cases same : a = m
    · subst same
      simp only [Function.update_self]
      rcases (serverFlags moves).2.2.2 with same | changed
      · exact same ▸ busy
      · exact changed
    · simpa [Function.update,same] using busy
  cases stepMove next with
  | @serves _ _ _ _ _ m _ _ _ _ moves =>
    exact ⟨rfl,fun a => by by_cases same : a = m <;> simp [setTask,setNode,Function.update,same],
      kept moves⟩
  | @served _ _ _ _ _ m _ _ _ _ moves =>
    exact ⟨rfl,fun a => by by_cases same : a = m <;> simp [setTask,setNode,Function.update,same],
      kept moves⟩

theorem dequeueBeside {k : Nat} (next : step s (.dequeue k) = some t) : Beside s t := by
  cases stepMove next with
  | dequeue => exact ⟨rfl,fun _ => rfl,fun _ flag => flag⟩

theorem takesFlag {w sent : Nat} {woken : Tid} {node next : Memnode} {x x' : Proxy}
    (moves : sharedProxy w woken sent node x = some (next,x'))
    (flagged : taking x.pc = false → node.proxyState ≠ .idle) (going : x'.pc ≠ .idle)
    (taken : taking x'.pc = false) : next.proxyState ≠ .idle := by
  cases point : x.pc with
  | lock =>
    unfold sharedProxy at moves
    simp only [point,bind,Option.bind_eq_some_iff,Option.some.injEq,Prod.mk.injEq] at moves
    obtain ⟨_,_,_,rfl⟩ := moves
    cases taken
  | post =>
    unfold sharedProxy at moves
    simp only [point,Option.some.injEq,Prod.mk.injEq] at moves
    obtain ⟨rfl,_⟩ := moves
    simp
  | _ =>
    rcases (proxyFlags moves).1 with same | ⟨_,leaves⟩ | busy
    · rw [same]; exact flagged (by rw [point]; rfl)
    · exact absurd leaves going
    · exact busy

structure Moved (s t : State) (w n : Nat) : Prop where
  nodes : ∀ m, m ≠ n → t.nodes m = s.nodes m
  clients : ∀ v, v ≠ w → t.clients v = s.clients v
  proxies : ∀ v, v ≠ w → (t.nodes n).proxies v = (s.nodes n).proxies v
  here : (((t.nodes n).proxies w).pc ≠ .idle ∧ t.clients w = .at n ∧
      (taking ((t.nodes n).proxies w).pc = false → (t.nodes n).node.proxyState ≠ .idle)) ∨
    ((t.nodes n).proxies w).pc = .idle ∧ t.clients w = .free

theorem proxyMoved {w n sent : Nat} {woken : Tid} (used : Used s) (client : s.clients w = .at n)
    (next : step s (.proxy w woken sent) = some t) : Moved s t w n := by
  cases stepMove next with
  | @proxy _ _ _ m node x client' moves =>
    cases client.symm.trans client'
    refine ⟨fun m other => ?_,fun v other => ?_,fun v other => ?_,?_⟩
    · simp [setClient,setNode,Function.update,other]
    · simp [setClient,setNode,Function.update,other]
    · simp [setClient,setNode,Function.update,other]
    · by_cases ended : x.pc = .idle
      · exact .inr (by simp [setClient,setNode,ended])
      · refine .inl ⟨?_,?_,fun taken => ?_⟩
        · simpa [setClient,setNode] using ended
        · simp [setClient,ended]
        · simp only [setClient,setNode,Function.update_self] at taken ⊢
          exact takesFlag moves (used.flagged w n client) ended taken

theorem Moved.used {w n : Nat} (moved : Moved s t w n) (used : Used s)
    (client : s.clients w = .at n) : Used t := by
  have still (v m : Nat) (at_ : t.clients v = .at m) : s.clients v = .at m ∧ (v = w → m = n) := by
    by_cases same : v = w
    · subst same
      rcases moved.here with here | away
      · rw [here.2.1] at at_
        cases at_
        exact ⟨client,fun _ => rfl⟩
      · rw [away.2] at at_; cases at_
    · exact ⟨moved.clients v same ▸ at_,fun e => absurd e same⟩
  exact {
    exclusive := fun v u m hv hu => used.exclusive v u m (still v m hv).1 (still u m hu).1
    there := fun v m => by
      have old := used.there v m
      by_cases same : v = w
      · subst same
        by_cases here : m = n
        · subst here
          rcases moved.here with stays | leaves
          · simp [stays.1,stays.2.1]
          · simp [leaves.1,leaves.2]
        · rw [moved.nodes m here,old,client]
          rcases moved.here with stays | leaves
          · rw [stays.2.1]
          · simp [leaves.2,@eq_comm _ n m,here]
      · rw [moved.clients v same,← old]
        by_cases here : m = n
        · subst here; rw [moved.proxies v same]
        · rw [moved.nodes m here]
    flagged := fun v m at_ taken => by
      obtain ⟨old,_⟩ := still v m at_
      by_cases here : m = n
      · subst here
        obtain rfl := used.exclusive v w m old client
        rcases moved.here with stays | leaves
        · exact stays.2.2 taken
        · rw [leaves.2] at at_; cases at_
      · rw [moved.nodes m here] at taken ⊢
        exact used.flagged v m old taken }

theorem Used.vacant {w i n : Nat} {request : List UInt8} (used : Used s)
    (held : untaken s (.choose w)) (client : s.clients w = .search request i)
    (found : search s .idle i = .found n) (v : Nat) : s.clients v ≠ .at n := fun at_ => by
  obtain ⟨rfl,_,idle⟩ := searchFound found
  exact used.flagged v n at_ (held request n n v client found at_) idle

theorem Used.search {w : Nat} {c : Client} (used : Used s) (here : ∀ n, s.clients w ≠ .at n)
    (there : ∀ n, c ≠ .at n) : Used (setClient s w c) := by
  have same (v n : Nat) : (setClient s w c).clients v = .at n ↔ s.clients v = .at n := by
    by_cases self : v = w
    · subst self; simp [setClient,here,there]
    · simp [setClient,Function.update,self]
  exact ⟨fun v u n hv hu => used.exclusive v u n ((same v n).mp hv) ((same u n).mp hu),
    fun v n => (used.there v n).trans (same v n).symm,
    fun v n at_ => used.flagged v n ((same v n).mp at_)⟩

theorem chosenUsed {w i n : Nat} {request : List UInt8} (used : Used s)
    (client : s.clients w = .search request i) (vacant : ∀ v, s.clients v ≠ .at n) :
    Used (setClient (setNode s n { s.nodes n with
      proxies := Function.update (s.nodes n).proxies w (.start request)
      replied := none }) w (.at n)) := by
  have away (m : Nat) : ((s.nodes m).proxies w).pc = .idle := by
    have old := used.there w m
    rw [client] at old
    simpa using old
  exact {
    exclusive := fun v u m hv hu => by
      by_cases selfV : v = w <;> by_cases selfU : u = w
      · rw [selfV,selfU]
      · subst selfV
        simp [setClient,setNode,Function.update,selfU] at hv hu
        exact absurd (hv ▸ hu) (vacant u)
      · subst selfU
        simp [setClient,setNode,Function.update,selfV] at hv hu
        exact absurd (hu ▸ hv) (vacant v)
      · simp [setClient,setNode,Function.update,selfV,selfU] at hv hu
        exact used.exclusive v u m hv hu
    there := fun v m => by
      have old := used.there v m
      by_cases self : v = w <;> by_cases here : m = n
      · subst self here; simp [setClient,setNode,Proxy.start]
      · subst self
        simpa [setClient,setNode,Function.update,here,@eq_comm _ n m] using away m
      · subst here; simpa [setClient,setNode,Function.update,self] using old
      · simpa [setClient,setNode,Function.update,self,here] using old
    flagged := fun v m at_ taken => by
      by_cases self : v = w <;> by_cases here : m = n
      · subst self here; simp [setClient,setNode,Proxy.start,taking] at taken
      · subst self; simp [setClient,setNode] at at_; exact absurd at_.symm here
      · subst here
        simp [setClient,setNode,Function.update,self] at at_
        exact absurd at_ (vacant v)
      · simp [setClient,setNode,Function.update,self,here] at at_ taken ⊢
        exact used.flagged v m at_ taken }

theorem stepUsed {e : Event} (used : Used s) (held : untaken s e) (next : step s e = some t) :
    Used t := by
  cases stepMove next with
  | arrive free => exact used.search (by simp [free]) (by simp)
  | chosen client found => exact chosenUsed used client (used.vacant held client found)
  | chooseNext client => exact used.search (by simp [client]) (by simp)
  | chooseNull client => exact used.search (by simp [client]) (by simp)
  | proxy client => exact (proxyMoved used client next).used used client
  | accept => exact (acceptBeside next).used used
  | dequeue => exact (dequeueBeside next).used used
  | found | findNext | findNull => exact (findBeside next).used used
  | serves | served => exact (serverBeside next).used used

theorem collides {e : Event} (broken : ¬ untaken s e)
    (next : step s e = some t) : ¬ Exclusive t := by
  cases e with
  | choose w =>
    simp only [untaken,not_forall] at broken
    obtain ⟨request,i,n,v,client,found,there,_⟩ := broken
    have other : v ≠ w := fun same => by rw [same,client] at there; cases there
    simp only [step,client,found] at next
    cases Option.some.inj next
    intro exclusive
    exact other (exclusive v w n (by simp [setClient,setNode,Function.update,other,there])
      (by simp [setClient]))
  | _ => exact absurd trivial broken

theorem Exclusive.unspoiled (exclusive : Exclusive s) (e : Event) : unspoiled s e := by
  intro t w v n next moves other there
  cases stepMove next with
  | arrive | chooseNext | chooseNull =>
    cases Option.some.inj moves
    exact ⟨by simp [setClient,Function.update,other,there],rfl,rfl⟩
  | @chosen _ _ _ m =>
    cases Option.some.inj moves
    refine ⟨by simp [setClient,setNode,Function.update,other,there],?_,?_⟩ <;>
      by_cases same : n = m <;> simp [setClient,setNode,Function.update,same,other]
  | @proxy _ _ _ m _ _ client =>
    cases Option.some.inj moves
    have apart : n ≠ m := fun same => other (exclusive v w n there (same ▸ client))
    exact ⟨by simp [setClient,setNode,Function.update,other,there],
      by simp [setClient,setNode,Function.update,apart],
      by simp [setClient,setNode,Function.update,apart]⟩
  | accept | dequeue | found | findNext | findNull | serves | served => cases moves

structure Pair (s : State) (n p i : Nat) (c : Waiter) : Prop where
  proxies : ∀ w, w ≠ p → ((s.nodes n).proxies w).pc = .idle
  servers : ∀ k, k ≠ i → ((s.nodes n).servers k).pc = .idle
  coupled : Coupled p i c (s.nodes n).node ((s.nodes n).proxies p) ((s.nodes n).servers i)
    (s.nodes n).replied
  marked : ((s.nodes n).servers i).pc = .idle → s.claimed n = true →
    (s.nodes n).node.serverState = .busy

structure Settled (s : State) : Prop where
  used : Used s
  asks : ∀ w request i, s.clients w = .search request i → request ≠ []
  entries : Inv s
  paired : ∀ n, ∃ p i c, Pair s n p i c

theorem initialSettled {numNodes : Nat} : Settled (initial numNodes) where
  used := initialUsed
  asks := fun _ _ _ e => by cases e
  entries := initialInv
  paired := fun _ => ⟨0,0,.nobody,fun _ _ => rfl,fun _ _ => rfl,createdCoupled,
    fun _ e => by cases e⟩

theorem Pair.same {n p i : Nat} {c : Waiter} (pair : Pair s n p i c)
    (node : t.nodes n = s.nodes n) (claimed : t.claimed n = true → s.claimed n = true) :
    Pair t n p i c where
  proxies := node ▸ pair.proxies
  servers := node ▸ pair.servers
  coupled := node ▸ pair.coupled
  marked := fun idle marked => by rw [node] at idle ⊢; exact pair.marked idle (claimed marked)

theorem choosePaired {w : Nat} (settled : Settled s) (held : untaken s (.choose w))
    (next : step s (.choose w) = some t) (n : Nat) : ∃ p i c, Pair t n p i c := by
  obtain ⟨p,i,c,pair⟩ := settled.paired n
  cases stepMove next with
  | chooseNext | chooseNull => exact ⟨p,i,c,pair.same rfl id⟩
  | @chosen _ request j m client found =>
    by_cases here : n = m
    · subst here
      have vacant := settled.used.vacant held client found
      have resting (v : Nat) : ((s.nodes n).proxies v).pc = .idle :=
        Classical.byContradiction fun busy => vacant v ((settled.used.there v n).mp busy)
      have asks := settled.asks w request j client
      refine ⟨w,i,c,fun v other => ?_,fun k other => ?_,?_,fun idle marked => ?_⟩
      · simpa [setClient,setNode,Function.update,other] using resting v
      · simpa [setClient,setNode] using pair.servers k other
      · simpa [setClient,setNode] using startCoupled pair.coupled (resting p) asks
      · simp only [setClient,setNode,Function.update_self] at idle ⊢
        exact pair.marked idle marked
    · exact ⟨p,i,c,pair.same (by simp [setClient,setNode,Function.update,here]) id⟩

theorem proxyPaired {w sent : Nat} {woken : Tid} (settled : Settled s)
    (next : step s (.proxy w woken sent) = some t) (n : Nat) : ∃ p i c, Pair t n p i c := by
  obtain ⟨p,i,c,pair⟩ := settled.paired n
  cases stepMove next with
  | @proxy _ _ _ m node x client moves =>
    by_cases here : n = m
    · subst here
      obtain rfl : w = p := Classical.byContradiction fun other =>
        (settled.used.there w n).mpr client (pair.proxies w other)
      obtain ⟨c',coupled⟩ := proxyCoupled pair.coupled moves
      refine ⟨w,i,c',fun v other => ?_,fun k other => ?_,?_,fun idle marked => ?_⟩
      · simpa [setClient,setNode,Function.update,other] using pair.proxies v other
      · simpa [setClient,setNode] using pair.servers k other
      · simpa [setClient,setNode] using coupled
      · simp only [setClient,setNode,Function.update_self] at idle ⊢
        exact (pair.coupled.control.serverStateKept moves).trans (pair.marked idle marked)
    · exact ⟨p,i,c,pair.same (by simp [setClient,setNode,Function.update,here]) id⟩

theorem acceptPaired (settled : Settled s) (next : step s .accept = some t) (n : Nat) :
    ∃ p i c, Pair t n p i c := by
  obtain ⟨p,i,c,pair⟩ := settled.paired n
  cases Option.some.inj next
  cases main : s.main with
  | enqueue m => simp only [acceptLoop,main]; exact ⟨p,i,c,pair.same rfl id⟩
  | search j => simp only [acceptLoop,main]; split <;> exact ⟨p,i,c,pair.same rfl id⟩
  | test m => simp only [acceptLoop,main]; split <;> exact ⟨p,i,c,pair.same rfl id⟩
  | mark m =>
    by_cases here : n = m
    · subst here
      have idle : ((s.nodes n).servers i).pc = .idle := Classical.byContradiction fun busy => by
        obtain ⟨a,task⟩ := (settled.entries.there i n).mp busy
        obtain rfl := settled.entries.own i a n task
        exact (settled.entries.marking n main).2 (.inr (.inr ⟨i,by rw [task]; rfl⟩))
      refine ⟨p,i,c,fun v other => ?_,fun k other => ?_,?_,fun _ _ => ?_⟩
      · simpa [acceptLoop,main,setNode] using pair.proxies v other
      · simpa [acceptLoop,main,setNode] using pair.servers k other
      · simpa [acceptLoop,main,setNode] using markedCoupled pair.coupled idle (.inr rfl)
      · simp [acceptLoop,main,setNode]
    · exact ⟨p,i,c,pair.same (by simp [acceptLoop,main,setNode,Function.update,here])
        (by simp [acceptLoop,main,setNode,Function.update,here])⟩

theorem findPaired {k : Nat} (settled : Settled s) (held : ownNode s (.find k))
    (next : step s (.find k) = some t) (n : Nat) : ∃ p i c, Pair t n p i c := by
  obtain ⟨p,i,c,pair⟩ := settled.paired n
  cases stepMove next with
  | findNext | findNull => exact ⟨p,i,c,pair.same rfl id⟩
  | @found _ m j a task found =>
    obtain ⟨rfl,_,posted⟩ := searchFound found
    obtain rfl := (held m a task).mp posted
    by_cases here : n = a
    · subst here
      have ours : entry (s.tasks k) = some n := by rw [task]; rfl
      have idle : ((s.nodes n).servers i).pc = .idle := Classical.byContradiction fun busy => by
        obtain ⟨b,serves⟩ := (settled.entries.there i n).mp busy
        obtain rfl := settled.entries.own i b n serves
        obtain rfl := settled.entries.single i k n (by rw [serves]; rfl) ours
        rw [serves] at task; cases task
      have claimed := (settled.entries.ticket n).mpr (.inr (.inr ⟨k,ours⟩))
      have taken : Coupled p k c _ _ _ _ :=
        claimCoupled pair.coupled idle posted (pair.marked idle claimed)
      refine ⟨p,k,c,fun v other => ?_,fun l other => ?_,?_,fun idle _ => ?_⟩
      · simpa [setTask,setNode] using pair.proxies v other
      · by_cases same : l = i
        · subst same; simpa [setTask,setNode,Function.update,other] using idle
        · simpa [setTask,setNode,Function.update,other] using pair.servers l same
      · simpa [setTask,setNode] using taken
      · simp [setTask,setNode,Server.start] at idle
    · exact ⟨p,i,c,pair.same (by simp [setTask,setNode,Function.update,here]) id⟩

theorem servedPaired {k a m : Nat} {woken : Tid} {header body : List UInt8} (settled : Settled s)
    (task : s.tasks k = .at a m) (next : step s (.server k woken header body) = some t) (n : Nat) :
    ∃ p i c, Pair t n p i c := by
  obtain ⟨p,i,c,pair⟩ := settled.paired n
  have served := serverServed task next
  by_cases here : n = m
  · subst here
    obtain rfl : k = i := Classical.byContradiction fun other =>
      (settled.entries.there k n).mpr ⟨a,task⟩ (pair.servers k other)
    simp only [step,task,bind,Option.bind_eq_some_iff,Option.some.injEq] at next
    obtain ⟨⟨node,y'⟩,moves,rfl⟩ := next
    obtain ⟨c',coupled⟩ := serverCoupled pair.coupled moves
    refine ⟨p,k,c',fun v other => ?_,fun l other => ?_,?_,fun idle marked => ?_⟩
    · split <;> simpa [setTask,setNode] using pair.proxies v other
    · rw [(served.workers l other).2]; exact pair.servers l other
    · split <;> simpa [setTask,setNode] using coupled
    · rcases served.task with stays | leaves
      · exact absurd idle stays.1
      · rw [leaves.2.2] at marked; cases marked
  · exact ⟨p,i,c,pair.same (served.others n here).1 fun marked =>
      (served.others n here).2 ▸ marked⟩

theorem asksKept {w : Nat} {c : Client} (settled : Settled s)
    (mine : ∀ request i, c = .search request i → request ≠ []) :
    ∀ v request i, Function.update s.clients w c v = .search request i → request ≠ [] := by
  intro v request i client
  by_cases same : v = w
  · subst same
    exact mine request i (by simpa using client)
  · exact settled.asks v request i (by simpa [Function.update,same] using client)

theorem stepAsks {e : Event} (settled : Settled s) (next : step s e = some t) :
    ∀ w request i, t.clients w = .search request i → request ≠ [] := by
  cases stepMove next with
  | accept => rw [(acceptBeside next).clients]; exact settled.asks
  | dequeue | found | findNext | findNull | serves | served => exact settled.asks
  | proxy => exact @asksKept s _ _ settled fun _ _ e => by split at e <;> cases e
  | arrive free asks => exact asksKept settled fun _ _ e => by cases e; exact asks
  | chosen => exact @asksKept s _ _ settled fun _ _ e => by cases e
  | chooseNext client => exact asksKept settled fun _ _ e => by cases e; exact settled.asks _ _ _ client
  | chooseNull => exact asksKept settled fun _ _ e => by cases e

theorem stepSettled {e : Event} (settled : Settled s) (held : untaken s e ∧ ownNode s e)
    (next : step s e = some t) : Settled t := by
  refine ⟨stepUsed settled.used held.1 next,stepAsks settled next,
    stepInv settled.entries held.2 next,fun n => ?_⟩
  cases stepMove next with
  | arrive | dequeue =>
    obtain ⟨p,i,c,pair⟩ := settled.paired n
    exact ⟨p,i,c,pair.same rfl id⟩
  | chosen | chooseNext | chooseNull => exact choosePaired settled held.1 next n
  | proxy => exact proxyPaired settled next n
  | accept => exact acceptPaired settled next n
  | found | findNext | findNull => exact findPaired settled held.2 next n
  | serves task | served task => exact servedPaired settled task next n

theorem answered {p i : Nat} {c : Waiter} {node : Memnode} {x : Proxy} {y : Server}
    {replied : Option (List UInt8 × List UInt8)} (h : Coupled p i c node x y replied)
    (some_ : x.received ≠ []) (busy : x.pc ≠ .idle) : ∃ response,
    replied = some (x.request.drop (lost x),response) ∧ x.received <+: response := by
  have heard : unanswered y.pc x.pc = false := Bool.eq_false_iff.mpr fun e => some_ (h.silent e)
  have replying : inReply x.pc = true := by
    have sane := h.control.law.sane.1
    cases point : x.pc <;> simp_all [unanswered,opening,inReply]
  rcases h.control.law.replies replying with sends | silent | closed
  · have point : ∃ pc, y.pc = .send pc := by
      cases here : y.pc <;> simp_all [isSend]
    obtain ⟨pc,point⟩ := point
    have here : sendAt x.sending false .returned := by
      have at_ := h.control.proxyAt
      cases here : x.pc <;> simp_all [Coupling.proxyAt,inReply]
    have all : x.sending.totalBytes = x.request.length := h.asked ▸ here.2
    have engages : engaged x.pc y.pc = true := by rw [point]; exact replying
    have quiet : unread .request (posts c x y) node = [] := by
      refine if_neg fun e => ?_
      cases pc <;> simp only [posts,pending,point,reduceCtorEq] at e
      split at e <;> try contradiction
      split at e <;> contradiction
    have line := h.line engages
    have late : early y.pc = false := by rw [point]; rfl
    rw [quiet,List.append_nil,all,List.take_length,late] at line
    have replied := h.reply sends replying
    rw [line] at replied
    exact ⟨_,replied,h.soFar replying replied⟩
  · exact absurd silent (by simp [heard])
  · exact ⟨_,h.finished closed,List.prefix_refl _⟩

theorem Settled.own (settled : Settled s) : Own s := by
  intro w n client
  obtain ⟨p,i,c,pair⟩ := settled.paired n
  have busy := (settled.used.there w n).mpr client
  obtain rfl : w = p := Classical.byContradiction fun other => busy (pair.proxies w other)
  exact ⟨fun some_ => answered pair.coupled some_ busy,pair.coupled.finished⟩

end

theorem exclusiveExact {numNodes : Nat} {es : List Event} {s : State}
    (ran : run step (initial numNodes) es = some s) :
    (Throughout step Exclusive (initial numNodes) es ↔ Along step untaken (initial numNodes) es) ∧
    (Along step untaken (initial numNodes) es → Along step unspoiled (initial numNodes) es) ∧
    (Along step untaken (initial numNodes) es → Along step ownNode (initial numNodes) es →
      Throughout step Own (initial numNodes) es) :=
  ⟨throughoutExact initialUsed (fun _ _ _ used held next => stepUsed used held next)
      (fun _ used => used.exclusive) (fun _ _ _ _ broken next => collides broken next) ran,
    fun held => alongKept initialUsed (fun _ _ _ used held next => stepUsed used held next)
      (fun _ e used => used.exclusive.unspoiled e) held,
    fun held entries => throughoutKept initialSettled
      (fun _ _ _ settled held next => stepSettled settled held next)
      (fun _ settled => settled.own) (alongBoth held entries)⟩

def inTurn : List Event :=
  [.arrive 0 [1],.choose 0,.proxy 0 (.server 0) 0,.proxy 0 (.server 0) 0,
    .arrive 1 [2],.choose 1,.choose 1]

theorem exclusiveInTurn : ∃ s, run step (initial 2) inTurn = some s ∧
    s.clients 0 = .at 0 ∧ s.clients 1 = .at 1 ∧
    (Throughout step Exclusive (initial 2) inTurn ↔ Along step untaken (initial 2) inTurn) ∧
    (Along step untaken (initial 2) inTurn → Along step unspoiled (initial 2) inTurn) ∧
    (Along step untaken (initial 2) inTurn → Along step ownNode (initial 2) inTurn →
      Throughout step Own (initial 2) inTurn) := by
  have ran : ((run step (initial 2) inTurn).map fun s => (s.clients 0,s.clients 1)) =
      some (.at 0,.at 1) := by decide +kernel
  obtain ⟨s,hs,same⟩ := Option.map_eq_some_iff.mp ran
  obtain ⟨first,second⟩ := Prod.mk.inj same
  exact ⟨s,hs,first,second,exclusiveExact hs⟩

def atOnce : List Event := [.arrive 0 [1],.arrive 1 [2],.choose 0,.choose 1]

theorem sharedAtOnce : ∃ s, run step (initial 1) atOnce = some s ∧ ¬ Exclusive s := by
  have ran : ((run step (initial 1) atOnce).map fun s => (s.clients 0,s.clients 1)) =
      some (.at 0,.at 0) := by decide +kernel
  obtain ⟨s,hs,same⟩ := Option.map_eq_some_iff.mp ran
  obtain ⟨first,second⟩ := Prod.mk.inj same
  exact ⟨s,hs,fun exclusive => by cases exclusive 0 1 0 first second⟩

end IttyBittyServer.ExclusiveNodes
