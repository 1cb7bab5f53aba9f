import IttyBittyServer.ConList
import IttyBittyServer.Run

/-! The connection list as a deque, over every sequence of its operations. malloc fails
or gives an address that is not in use; nothing is freed. -/
namespace IttyBittyServer.Deque
open ConList Run

def addHead (heap : Heap) (fresh : Nat) (conID : Int) (a : Instruction) (list : Conlist) :
    Option (Heap × Conlist) := do
  let heap ← newConnection heap fresh conID a
  let heap ← setNext heap (some fresh) list.head
  let tail := if list.tail = none then some fresh else list.tail
  some (heap,⟨some fresh,tail,list.numNodes + 1⟩)

def findLoop (heap : Heap) (conID : Int) : Nat → Option Nat → Option (Option Nat)
  | _,none => some none
  | 0,some _ => none
  | fuel + 1,some a => do
    let node ← heap a
    if node.conn = conID then some (some a) else findLoop heap conID fuel node.next

def findCon (heap : Heap) (fuel : Nat) (conID : Int) (list : Conlist) : Option (Option Nat) :=
  findLoop heap conID fuel list.head

inductive Op where
  | addHead (fresh : Option Nat) (conID : Int) (a : Instruction)
  | addTail (fresh : Option Nat) (conID : Int) (a : Instruction)
  | removeHead | isEmpty
  | findCon (conID : Int) (fuel : Nat)
  deriving DecidableEq, Repr

/- `returned` are the nodes that removeHead gave out. -/
structure State where
  heap : Heap
  list : Conlist
  returned : List Nat

def initial : State := ⟨fun _ => none,newConList,[]⟩

/- Where newConnection fails the list is left alone. -/
def State.add (s : State) (add : Heap → Nat → Int → Instruction → Conlist → Option (Heap × Conlist))
    (fresh : Option Nat) (conID : Int) (a : Instruction) : Option State :=
  match fresh with
  | none => some s
  | some fresh => do
    let (heap,list) ← add s.heap fresh conID a s.list
    some {s with heap := heap, list := list}

def step (s : State) : Op → Option State
  | .addHead fresh conID a => s.add addHead fresh conID a
  | .addTail fresh conID a => s.add addTail fresh conID a
  | .removeHead => do
    let (node,list) ← removeHead s.heap s.list
    some {s with list := list, returned := s.returned ++ node.toList}
  | .isEmpty => some s
  | .findCon conID fuel => do
    let _ ← findCon s.heap fuel conID s.list
    some s

def applyOp (entries : List Entry) : Op → List Entry
  | .addHead (some _) conID a => ⟨conID,a⟩::entries
  | .addTail (some _) conID a => entries ++ [⟨conID,a⟩]
  | .removeHead => entries.tail
  | _ => entries

structure Refines (s : State) (entries : List Entry) : Prop where
  listed : ∃ nodes, Chain s.heap s.list.head nodes entries ∧ nodes.Nodup ∧
    s.list.tail = nodes.getLast? ∧
    (∀ a ∈ nodes.getLast?, ∃ c, s.heap a = some c ∧ c.next = none) ∧
    ∀ conID fuel, nodes.length ≤ fuel → findCon s.heap fuel conID s.list =
      some (((nodes.zip entries).find? fun x => x.2.conn == conID).map Prod.fst)
  ends : (s.list.head = none ↔ entries = []) ∧ (s.list.tail = none ↔ entries = [])
  empty : isEmpty s.list = true ↔ entries = []
  front : ∃ node list, removeHead s.heap s.list = some (node,list) ∧
    (node.bind s.heap).map Connection.entry = entries.head? ∧ (node = none ↔ entries = []) ∧
    ∀ a ∈ node, a ∉ s.returned
  goesOn : ∀ conID a fresh, (∀ x ∈ fresh, s.heap x = none) →
    (step s (.addHead fresh conID a)).isSome ∧ (step s (.addTail fresh conID a)).isSome

theorem addHeadSpec {heap list nodes entries} (rep : Represents heap list nodes entries)
    {fresh : Nat} (unused : heap fresh = none) (conID : Int) (a : Instruction) :
    ∃ heap' list', addHead heap fresh conID a list = some (heap',list') ∧
      Represents heap' list' (fresh::nodes) (⟨conID,a⟩::entries) ∧
      ∀ x, x ≠ fresh → heap' x = heap x := by
  obtain ⟨chain,distinct,tail⟩ := rep
  have away : fresh ∉ nodes := fun mem => chainAllocated chain fresh mem unused
  let alloc : Heap := Function.update (Function.update heap fresh (some ⟨conID,a,none⟩)) fresh
    (some ⟨conID,a,list.head⟩)
  have frame : ∀ x, x ≠ fresh → alloc x = heap x := fun x other => by simp [alloc,other]
  have kept : Chain alloc list.head nodes entries :=
    chainFrame chain fun x hx => frame x fun same => away (same ▸ hx)
  have made : alloc fresh = some ⟨conID,a,list.head⟩ := by simp [alloc]
  let added : Conlist :=
    ⟨some fresh,if list.tail = none then some fresh else list.tail,list.numNodes + 1⟩
  refine ⟨alloc,added,?_,⟨.cons made kept,List.nodup_cons.mpr ⟨away,distinct⟩,?_⟩,frame⟩
  · simp [addHead,newConnection,unused,setNext,alloc,added]
  · simp only [added,tail]
    cases nodes with
    | nil => rfl
    | cons b rest =>
      obtain ⟨last,atLast⟩ : ∃ last, (b::rest).getLast? = some last :=
        ⟨_,List.getLast?_eq_some_getLast (by simp)⟩
      simp [atLast]

theorem findLoopChain {heap p nodes entries} (h : Chain heap p nodes entries) (conID : Int) {fuel : Nat}
    (enough : nodes.length ≤ fuel) : findLoop heap conID fuel p =
      some (((nodes.zip entries).find? fun x => x.2.conn == conID).map Prod.fst) := by
  induction h generalizing fuel with
  | nil => cases fuel <;> rfl
  | @cons a c nodes entries here rest ih =>
    obtain ⟨fuel,rfl⟩ := Nat.exists_eq_succ_of_ne_zero (Nat.ne_of_gt (Nat.lt_of_lt_of_le (by simp) enough))
    have later := ih (Nat.le_of_succ_le_succ enough)
    simp only [findLoop,here,bind,Option.bind_some,later,List.zip_cons_cons,List.find?_cons]
    by_cases found : c.conn = conID
    · simp [Connection.entry,found]
    · have other : (c.entry.conn == conID) = false := by simpa [Connection.entry] using found
      rw [if_neg found,other]

theorem chainEnds {heap p nodes entries} (h : Chain heap p nodes entries) :
    ∀ a ∈ nodes.getLast?, ∃ c, heap a = some c ∧ c.next = none := by
  induction h with
  | nil => simp
  | @cons a c nodes entries here rest ih =>
    cases nodes with
    | nil =>
      generalize hn : c.next = next at rest
      cases rest
      intro x last
      cases Option.some.inj last
      exact ⟨c,here,hn⟩
    | cons b nodes => simpa using ih

structure Inv (s : State) (nodes : List Nat) (entries : List Entry) : Prop where
  represents : Represents s.heap s.list nodes entries
  out : ∀ a ∈ s.returned, s.heap a ≠ none ∧ a ∉ nodes

theorem endsEmpty {heap list nodes entries} (rep : Represents heap list nodes entries) :
    (list.head = none ↔ entries = []) ∧ (list.tail = none ↔ entries = []) := by
  obtain ⟨chain,_,tail⟩ := rep
  have length := chainLength chain
  rw [tail,List.getLast?_eq_none_iff]
  generalize list.head = p at chain
  cases chain <;> simp

theorem refines {s nodes entries} (inv : Inv s nodes entries) : Refines s entries := by
  have rep := inv.represents
  have ends := endsEmpty rep
  refine ⟨⟨nodes,rep.chain,rep.distinct,rep.tail,chainEnds rep.chain,fun conID fuel enough =>
    findLoopChain rep.chain conID enough⟩,ends,isEmptyExact rep,?_,fun conID a fresh unused => ?_⟩
  · cases entries with
    | nil =>
      have none := ends.1.mpr rfl
      exact ⟨Option.none,s.list,by simp [removeHead,none],rfl,by simp,by simp⟩
    | cons e entries =>
      obtain ⟨a,rest,list,c,rfl,removed,found,rfl,_⟩ := removeHeadSpec rep
      refine ⟨some a,list,removed,by simp [found],by simp,fun x hx before => ?_⟩
      cases Option.some.inj hx
      exact (inv.out a before).2 (by simp)
  · cases fresh with
    | none => exact ⟨rfl,rfl⟩
    | some fresh =>
      have unused := unused fresh rfl
      obtain ⟨heap,list,front,_⟩ := addHeadSpec rep unused conID a
      obtain ⟨heap',list',back,_⟩ := addTailSpec rep unused conID a
      exact ⟨by simp [step,State.add,front],by simp [step,State.add,back]⟩

theorem addInv {s t : State} {nodes entries nodes' entries' add fresh conID a} (inv : Inv s nodes entries)
    (h : s.add add (some fresh) conID a = some t) (unused : s.heap fresh = none)
    (spec : ∃ heap list, add s.heap fresh conID a s.list = some (heap,list) ∧
      Represents heap list nodes' entries' ∧ ∀ x ∉ nodes, x ≠ fresh → heap x = s.heap x)
    (grown : ∀ x ∈ nodes', x = fresh ∨ x ∈ nodes) : Inv t nodes' entries' := by
  obtain ⟨heap,list,added,rep,frame⟩ := spec
  simp only [State.add,added,bind,Option.bind_some] at h
  cases Option.some.inj h
  refine ⟨rep,fun x before => ?_⟩
  obtain ⟨kept,away⟩ := inv.out x before
  have other : x ≠ fresh := fun same => kept (same ▸ unused)
  exact ⟨fun gone => kept ((frame x away other).symm.trans gone),fun mem =>
    (grown x mem).elim other away⟩

theorem stepInv {s op t nodes entries} (inv : Inv s nodes entries) (h : step s op = some t) :
    ∃ nodes, Inv t nodes (applyOp entries op) := by
  cases op with
  | addHead fresh conID a =>
    cases fresh with
    | none => cases Option.some.inj h; exact ⟨nodes,inv⟩
    | some fresh =>
      have unused : s.heap fresh = none := by
        by_contra used
        simp [step,State.add,addHead,newConnection,used] at h
      obtain ⟨heap,list,added,rep,frame⟩ := addHeadSpec inv.represents unused conID a
      exact ⟨_,addInv inv h unused ⟨heap,list,added,rep,fun x _ => frame x⟩ (by simp)⟩
  | addTail fresh conID a =>
    cases fresh with
    | none => cases Option.some.inj h; exact ⟨nodes,inv⟩
    | some fresh =>
      have unused : s.heap fresh = none := by
        by_contra used
        simp [step,State.add,addTail,newConnection,used] at h
      exact ⟨_,addInv inv h unused (addTailSpec inv.represents unused conID a)
        fun x mem => (List.mem_append.mp mem).symm.imp_left List.mem_singleton.mp⟩
  | removeHead =>
    simp only [step,bind,Option.bind_eq_some_iff] at h
    obtain ⟨⟨node,list⟩,removed,last⟩ := h
    cases Option.some.inj last
    cases entries with
    | nil =>
      have none := (endsEmpty inv.represents).1.mpr rfl
      simp only [removeHead,none] at removed
      cases Option.some.inj removed
      exact ⟨nodes,inv.represents,by simpa using inv.out⟩
    | cons e entries =>
      have distinct := inv.represents.distinct
      obtain ⟨a,rest,list',c,rfl,removed',found,_,rep⟩ := removeHeadSpec inv.represents
      cases Option.some.inj (removed.symm.trans removed')
      obtain ⟨away,_⟩ := List.nodup_cons.mp distinct
      refine ⟨rest,rep,fun x before => ?_⟩
      rcases List.mem_append.mp before with old | new
      · have kept := inv.out x old
        exact ⟨kept.1,fun mem => kept.2 (List.mem_cons_of_mem _ mem)⟩
      · cases List.mem_singleton.mp new
        exact ⟨by simp [found],away⟩
  | isEmpty => cases Option.some.inj h; exact ⟨nodes,inv⟩
  | findCon conID fuel =>
    simp only [step,bind,Option.bind_eq_some_iff] at h
    obtain ⟨_,_,last⟩ := h
    cases Option.some.inj last
    exact ⟨nodes,inv⟩

theorem runInv {ops s t nodes entries} (inv : Inv s nodes entries) (ran : run step s ops = some t) :
    ∃ nodes, Inv t nodes (ops.foldl applyOp entries) := by
  induction ops generalizing s nodes entries with
  | nil =>
    cases Option.some.inj ran
    exact ⟨nodes,inv⟩
  | cons op rest ih =>
    obtain ⟨u,next,ran⟩ := runCons ran
    obtain ⟨nodes,inv⟩ := stepInv inv next
    exact ih inv ran

/-- Whatever operations ran, the list is the deque on which the same operations ran. -/
theorem dequeRefined {ops s} (ran : run step initial ops = some s) :
    Refines s (ops.foldl applyOp []) := by
  have start : Inv initial [] [] := ⟨representsNew _,by simp [initial]⟩
  obtain ⟨nodes,inv⟩ := runInv start ran
  exact refines inv

def threeNodes : List Op :=
  [.addTail (some 7) 4 .process,.addHead (some 3) 5 .shared,.addTail none 6 .process,
    .addTail (some 9) 4 .terminate,.removeHead,.isEmpty,.findCon 4 2,.removeHead]

theorem dequeThreeNodes : ∃ s, run step initial threeNodes = some s ∧ s.returned = [3,7] ∧
    threeNodes.foldl applyOp [] = [⟨4,.terminate⟩] ∧ Refines s (threeNodes.foldl applyOp []) := by
  have ran : (run step initial threeNodes).map State.returned = some [3,7] := by decide +kernel
  obtain ⟨s,hs,returned⟩ := Option.map_eq_some_iff.mp ran
  exact ⟨s,hs,returned,rfl,dequeRefined hs⟩

end IttyBittyServer.Deque
