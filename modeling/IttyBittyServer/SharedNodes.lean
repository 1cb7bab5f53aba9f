import IttyBittyServer.Segment

/-! All memnodes, all proxy workers, the server's accept loop and its workers. A search
with findState reads one node per step. An entry of the connection list does not name a
node in the code; here it records the node that the accept loop has marked for it. -/
namespace IttyBittyServer.SharedNodes
open MemList ProcessShared Rendezvous Coupling Transfer Run

structure Node where
  node : Memnode
  proxies : Nat → Proxy
  servers : Nat → Server
  replied : Option (List UInt8 × List UInt8)

inductive Client where
  | free
  | search (request : List UInt8) (i : Nat)
  | at (n : Nat)
  deriving DecidableEq, Repr

/- A server worker works off the entry for node `n`. -/
inductive Task where
  | free
  | search (n i : Nat)
  | at (n m : Nat)
  | null
  deriving DecidableEq, Repr

inductive Main where
  | search (i : Nat)
  | test (n : Nat)
  | mark (n : Nat)
  | enqueue (n : Nat)
  deriving DecidableEq, Repr

/- `claimed n`: the accept loop has marked node `n`, and no worker has reset it since. -/
structure State where
  numNodes : Nat
  nodes : Nat → Node
  clients : Nat → Client
  main : Main
  queue : List Nat
  tasks : Nat → Task
  claimed : Nat → Bool

def initial (numNodes : Nat) : State where
  numNodes
  nodes := fun _ => ⟨created,fun _ => Proxy.rest,fun _ => Server.rest,none⟩
  clients := fun _ => .free
  main := .search 0
  queue := []
  tasks := fun _ => .free
  claimed := fun _ => false

inductive Event where
  | arrive (w : Nat) (request : List UInt8)
  | choose (w : Nat)
  | proxy (w : Nat) (woken : Tid) (sent : Nat)
  | accept
  | dequeue (k : Nat)
  | find (k : Nat)
  | server (k : Nat) (woken : Tid) (header body : List UInt8)
  deriving DecidableEq, Repr

def search (s : State) (flag : StateT) (i : Nat) : Found :=
  findState (fun n => (s.nodes n).node.proxyState) s.numNodes flag i

def setClient (s : State) (w : Nat) (c : Client) : State :=
  { s with clients := Function.update s.clients w c }

def setTask (s : State) (k : Nat) (t : Task) : State :=
  { s with tasks := Function.update s.tasks k t }

def setNode (s : State) (n : Nat) (node : Node) : State :=
  { s with nodes := Function.update s.nodes n node }

def acceptLoop (s : State) : State :=
  match s.main with
  | .search i =>
    match search s .waitingInitSrvr i with
    | .found n => { s with main := .test n }
    | .next i => { s with main := .search i }
    | .null => { s with main := .search 0 }
  | .test n =>
    if (s.nodes n).node.serverState = .idle then { s with main := .mark n }
    else { s with main := .search 0 }
  | .mark n =>
    let at_ := s.nodes n
    { setNode s n { at_ with node := { at_.node with serverState := .busy } } with
      main := .enqueue n
      claimed := Function.update s.claimed n true }
  | .enqueue n => { s with main := .search 0, queue := s.queue ++ [n] }

def step (s : State) : Event → Option State
  | .arrive w request =>
    if s.clients w = .free ∧ request ≠ [] then some (setClient s w (.search request 0)) else none
  | .choose w =>
    match s.clients w with
    | .search request i =>
      match search s .idle i with
      | .found n =>
        let at_ := s.nodes n
        some (setClient (setNode s n { at_ with
          proxies := Function.update at_.proxies w (.start request)
          replied := none }) w (.at n))
      | .next i => some (setClient s w (.search request i))
      | .null => some (setClient s w .free)
    | _ => none
  | .proxy w woken sent =>
    match s.clients w with
    | .at n => do
      let at_ := s.nodes n
      let (node,x) ← sharedProxy w woken sent at_.node (at_.proxies w)
      some (setClient (setNode s n { at_ with
        node
        proxies := Function.update at_.proxies w x }) w (if x.pc = .idle then .free else .at n))
    | _ => none
  | .accept => some (acceptLoop s)
  | .dequeue k =>
    match s.tasks k,s.queue with
    | .free,n::rest => some (setTask { s with queue := rest } k (.search n 0))
    | _,_ => none
  | .find k =>
    match s.tasks k with
    | .search n i =>
      match search s .waitingInitSrvr i with
      | .found m =>
        let at_ := s.nodes m
        some (setTask (setNode s m { at_ with
          servers := Function.update at_.servers k .start }) k (.at n m))
      | .next i => some (setTask s k (.search n i))
      | .null => some (setTask s k .null)
    | _ => none
  | .server k woken header body =>
    match s.tasks k with
    | .at n m => do
      let at_ := s.nodes m
      let y := at_.servers k
      let (node,y') ← handleClient k woken header body at_.node y
      let next := setNode s m { at_ with
        node
        servers := Function.update at_.servers k y'
        replied := if y.pc = .respond then some (y.line,header ++ body) else at_.replied }
      some (if y'.pc = .idle then
          { setTask next k .free with claimed := Function.update s.claimed m false }
        else setTask next k (.at n m))
    | _ => none

section
variable {s t : State}

inductive Move (s : State) : Event → State → Prop where
  | arrive {w request} (free : s.clients w = .free) (asks : request ≠ []) :
      Move s (.arrive w request) (setClient s w (.search request 0))
  | chosen {w request i n} (client : s.clients w = .search request i)
      (found : search s .idle i = .found n) : Move s (.choose w) (setClient (setNode s n { s.nodes n with
        proxies := Function.update (s.nodes n).proxies w (.start request)
        replied := none }) w (.at n))
  | chooseNext {w request i j} (client : s.clients w = .search request i)
      (next : search s .idle i = .next j) : Move s (.choose w) (setClient s w (.search request j))
  | chooseNull {w request i} (client : s.clients w = .search request i)
      (null : search s .idle i = .null) : Move s (.choose w) (setClient s w .free)
  | proxy {w woken sent n node x} (client : s.clients w = .at n)
      (moves : sharedProxy w woken sent (s.nodes n).node ((s.nodes n).proxies w) = some (node,x)) :
      Move s (.proxy w woken sent) (setClient (setNode s n { s.nodes n with
        node
        proxies := Function.update (s.nodes n).proxies w x }) w (if x.pc = .idle then .free else .at n))
  | accept : Move s .accept (acceptLoop s)
  | dequeue {k n rest} (task : s.tasks k = .free) (queue : s.queue = n::rest) :
      Move s (.dequeue k) (setTask { s with queue := rest } k (.search n 0))
  | found {k n i m} (task : s.tasks k = .search n i) (found : search s .waitingInitSrvr i = .found m) :
      Move s (.find k) (setTask (setNode s m { s.nodes m with
        servers := Function.update (s.nodes m).servers k .start }) k (.at n m))
  | findNext {k n i j} (task : s.tasks k = .search n i) (next : search s .waitingInitSrvr i = .next j) :
      Move s (.find k) (setTask s k (.search n j))
  | findNull {k n i} (task : s.tasks k = .search n i) (null : search s .waitingInitSrvr i = .null) :
      Move s (.find k) (setTask s k .null)
  | serves {k woken header body n m node y} (task : s.tasks k = .at n m) (going : y.pc ≠ .idle)
      (moves : handleClient k woken header body (s.nodes m).node ((s.nodes m).servers k) = some (node,y)) :
      Move s (.server k woken header body) (setTask (setNode s m { s.nodes m with
        node
        servers := Function.update (s.nodes m).servers k y
        replied := if ((s.nodes m).servers k).pc = .respond then
            some (((s.nodes m).servers k).line,header ++ body)
          else (s.nodes m).replied }) k (.at n m))
  | served {k woken header body n m node y} (task : s.tasks k = .at n m) (ended : y.pc = .idle)
      (moves : handleClient k woken header body (s.nodes m).node ((s.nodes m).servers k) = some (node,y)) :
      Move s (.server k woken header body) { setTask (setNode s m { s.nodes m with
        node
        servers := Function.update (s.nodes m).servers k y
        replied := if ((s.nodes m).servers k).pc = .respond then
            some (((s.nodes m).servers k).line,header ++ body)
          else (s.nodes m).replied }) k .free with
        claimed := Function.update s.claimed m false }

theorem stepMove {e : Event} (next : step s e = some t) : Move s e t := by
  cases e with
  | arrive w request =>
    simp only [step] at next
    split at next <;> try contradiction
    rename_i free
    cases Option.some.inj next
    exact .arrive free.1 free.2
  | choose w =>
    simp only [step] at next
    split at next <;> try contradiction
    rename_i client
    split at next <;> cases Option.some.inj next
    · exact .chosen client (by assumption)
    · exact .chooseNext client (by assumption)
    · exact .chooseNull client (by assumption)
  | proxy w woken sent =>
    simp only [step] at next
    split at next <;> try contradiction
    rename_i client
    simp only [bind,Option.bind_eq_some_iff,Option.some.injEq] at next
    obtain ⟨⟨node,x⟩,moves,rfl⟩ := next
    exact .proxy client moves
  | accept => cases Option.some.inj next; exact .accept
  | dequeue k =>
    simp only [step] at next
    split at next <;> try contradiction
    rename_i task queue
    cases Option.some.inj next
    exact .dequeue task queue
  | find k =>
    simp only [step] at next
    split at next <;> try contradiction
    rename_i task
    split at next <;> cases Option.some.inj next
    · exact .found task (by assumption)
    · exact .findNext task (by assumption)
    · exact .findNull task (by assumption)
  | server k woken header body =>
    simp only [step] at next
    split at next <;> try contradiction
    rename_i task
    simp only [bind,Option.bind_eq_some_iff,Option.some.injEq] at next
    obtain ⟨⟨node,y⟩,moves,rfl⟩ := next
    by_cases ended : y.pc = .idle
    · rw [if_pos ended]; exact .served task ended moves
    · rw [if_neg ended]; exact .serves task ended moves

end

end IttyBittyServer.SharedNodes
