import Mathlib.Logic.Function.Basic
import Mathlib.Data.List.Basic
import Mathlib.Data.List.Nodup

/-! The list of pending connections, as nodes on a heap. An operation that would
follow a NULL or freed pointer has no result. -/
namespace IttyBittyServer.ConList

inductive Instruction where
  | process | shared | terminate
  deriving DecidableEq, Repr

structure Connection where
  conn : Int
  action : Instruction
  next : Option Nat
  deriving DecidableEq, Repr

structure Conlist where
  head : Option Nat
  tail : Option Nat
  numNodes : Int
  deriving DecidableEq, Repr

abbrev Heap := Nat → Option Connection

structure Entry where
  conn : Int
  action : Instruction
  deriving DecidableEq, Repr

def Connection.entry (c : Connection) : Entry := ⟨c.conn,c.action⟩

def newConList : Conlist := ⟨none,none,0⟩

/- malloc succeeds with any address that is not in use. -/
def newConnection (heap : Heap) (fresh : Nat) (conID : Int) (a : Instruction) : Option Heap :=
  if heap fresh = none then some (Function.update heap fresh (some ⟨conID,a,none⟩)) else none

def isEmpty (list : Conlist) : Bool := list.head.isNone

def setNext (heap : Heap) (node : Option Nat) (next : Option Nat) : Option Heap := do
  let a ← node
  let c ← heap a
  some (Function.update heap a (some {c with next := next}))

def addTail (heap : Heap) (fresh : Nat) (conID : Int) (a : Instruction) (list : Conlist) :
    Option (Heap × Conlist) := do
  let heap ← newConnection heap fresh conID a
  if list.head = none then
    some (heap,⟨some fresh,some fresh,list.numNodes + 1⟩)
  else
    let heap ← setNext heap list.tail (some fresh)
    some (heap,{list with tail := some fresh, numNodes := list.numNodes + 1})

/- The node's count is left alone, as in the source. -/
def removeHead (heap : Heap) (list : Conlist) : Option (Option Nat × Conlist) :=
  match list.head with
  | none => some (none,list)
  | some a =>
    if list.head = list.tail then some (some a,{list with head := none, tail := none})
    else do
      let c ← heap a
      some (some a,{list with head := c.next})

def free (heap : Heap) (a : Nat) : Heap := Function.update heap a none

inductive Chain (heap : Heap) : Option Nat → List Nat → List Entry → Prop where
  | nil : Chain heap none [] []
  | cons {a c nodes entries} (here : heap a = some c) (rest : Chain heap c.next nodes entries) :
      Chain heap (some a) (a::nodes) (c.entry::entries)

structure Represents (heap : Heap) (list : Conlist) (nodes : List Nat) (entries : List Entry) : Prop where
  chain : Chain heap list.head nodes entries
  distinct : nodes.Nodup
  tail : list.tail = nodes.getLast?

theorem chainAllocated {heap p nodes entries} (h : Chain heap p nodes entries) :
    ∀ a ∈ nodes, heap a ≠ none := by
  induction h with
  | nil => simp
  | cons here rest ih =>
    intro a ha
    rcases List.mem_cons.mp ha with rfl | later
    · simp [here]
    · exact ih a later

theorem chainUnique {heap p nodes entries nodes' entries'} (h : Chain heap p nodes entries)
    (other : Chain heap p nodes' entries') : nodes' = nodes ∧ entries' = entries := by
  induction h generalizing nodes' entries' with
  | nil => cases other; exact ⟨rfl,rfl⟩
  | cons here rest ih =>
    cases other with
    | cons there later =>
      cases Option.some.inj (here.symm.trans there)
      obtain ⟨rfl,rfl⟩ := ih later
      exact ⟨rfl,rfl⟩

theorem chainLength {heap p nodes entries} (h : Chain heap p nodes entries) :
    nodes.length = entries.length := by
  induction h with
  | nil => rfl
  | cons here rest ih => simp [ih]

theorem chainFrame {heap heap' : Heap} {p nodes entries} (h : Chain heap p nodes entries)
    (same : ∀ a ∈ nodes, heap' a = heap a) : Chain heap' p nodes entries := by
  induction h with
  | nil => exact .nil
  | cons here rest ih =>
    exact .cons ((same _ (by simp)).trans here) (ih fun a ha => same a (by simp [ha]))

theorem chainExtend {heap : Heap} {p nodes entries last c fresh} (h : Chain heap p nodes entries)
    (distinct : nodes.Nodup) (atLast : nodes.getLast? = some last) (found : heap last = some c)
    (new : Connection) (newNode : heap fresh = some new) (ends : new.next = none)
    (away : fresh ∉ nodes) :
    Chain (Function.update heap last (some {c with next := some fresh})) p (nodes ++ [fresh])
      (entries ++ [new.entry]) := by
  induction h with
  | nil => simp at atLast
  | @cons a x nodes entries here rest ih =>
    cases nodes with
    | nil =>
      cases Option.some.inj atLast
      have same : x = c := Option.some.inj (here.symm.trans found)
      subst x
      have other : fresh ≠ a := by simpa using away
      generalize c.next = q at rest
      cases rest
      refine .cons (c := {c with next := some fresh}) (by simp) ?_
      refine .cons (c := new) (by simpa [other] using newNode) ?_
      rw [ends]
      exact .nil
    | cons b nodes =>
      obtain ⟨notLater,distinct⟩ := List.nodup_cons.mp distinct
      have atLast : (b::nodes).getLast? = some last := by simpa using atLast
      have isLater : last ∈ b::nodes := List.mem_of_getLast? atLast
      have other : a ≠ last := fun same => notLater (same ▸ isLater)
      exact .cons (by simpa [other] using here)
        (ih distinct atLast fun mem => away (List.mem_cons_of_mem _ mem))

theorem representsNew (heap : Heap) : Represents heap newConList [] [] :=
  ⟨.nil,List.nodup_nil,rfl⟩

theorem isEmptyExact {heap list nodes entries} (rep : Represents heap list nodes entries) :
    isEmpty list = true ↔ entries = [] := by
  obtain ⟨chain,_,_⟩ := rep
  unfold isEmpty
  generalize list.head = p at chain
  cases chain <;> simp

theorem addTailSpec {heap list nodes entries} (rep : Represents heap list nodes entries)
    {fresh : Nat} (unused : heap fresh = none) (conID : Int) (a : Instruction) :
    ∃ heap' list', addTail heap fresh conID a list = some (heap',list') ∧
      Represents heap' list' (nodes ++ [fresh]) (entries ++ [⟨conID,a⟩]) ∧
      ∀ x ∉ nodes, x ≠ fresh → heap' x = heap x := by
  obtain ⟨chain,distinct,tail⟩ := rep
  have away : fresh ∉ nodes := fun mem => chainAllocated chain fresh mem unused
  have grown : (nodes ++ [fresh]).Nodup :=
    distinct.append (List.nodup_singleton _) (by simpa using away)
  let alloc : Heap := Function.update heap fresh (some ⟨conID,a,none⟩)
  have kept : Chain alloc list.head nodes entries :=
    chainFrame chain fun x hx => Function.update_of_ne (fun same => away (by rw [← same]; exact hx)) _ _
  have made : alloc fresh = some ⟨conID,a,none⟩ := by simp [alloc]
  simp only [addTail,newConnection,if_pos unused,bind,Option.bind]
  split
  · rename_i empty
    rw [empty] at chain
    cases chain
    refine ⟨_,_,rfl,⟨?_,by simp,by simp⟩,fun x _ other => by simp [other]⟩
    exact .cons made .nil
  · rename_i nonempty
    obtain ⟨last,atLast⟩ : ∃ last, nodes.getLast? = some last := by
      cases nodes with
      | nil => generalize hp : list.head = p at chain nonempty; cases chain; exact absurd rfl nonempty
      | cons b nodes => exact ⟨_,List.getLast?_eq_some_getLast (by simp)⟩
    have isNode : last ∈ nodes := List.mem_of_getLast? atLast
    obtain ⟨c,found⟩ := Option.ne_none_iff_exists'.mp (chainAllocated kept last isNode)
    have linked := chainExtend kept distinct atLast found ⟨conID,a,none⟩ made rfl away
    simp only [setNext,tail,atLast,bind,Option.bind]
    rw [show Function.update heap fresh (some ⟨conID,a,none⟩) last = some c from found]
    refine ⟨_,_,rfl,⟨linked,grown,by simp⟩,fun x hx other => ?_⟩
    have notLast : x ≠ last := fun same => hx (same ▸ isNode)
    simp [notLast,other]

theorem removeHeadSpec {heap list nodes entries} {e : Entry}
    (rep : Represents heap list nodes (e::entries)) :
    ∃ a rest list' c, nodes = a::rest ∧ removeHead heap list = some (some a,list') ∧
      heap a = some c ∧ c.entry = e ∧ Represents heap list' rest entries := by
  obtain ⟨chain,distinct,tail⟩ := rep
  generalize hp : list.head = p at chain
  cases chain with
  | @cons a c rest _ here later =>
    obtain ⟨notLater,distinct⟩ := List.nodup_cons.mp distinct
    cases rest with
    | nil =>
      have one : list.head = list.tail := by rw [hp,tail]; rfl
      refine ⟨a,[],{list with head := none, tail := none},c,rfl,?_,here,rfl,?_⟩
      · simp only [removeHead,hp]; rw [← hp,if_pos one]
      · generalize hq : c.next = q at later; cases later; exact ⟨.nil,List.nodup_nil,rfl⟩
    | cons b rest =>
      have tail : list.tail = (b::rest).getLast? := by simpa using tail
      have many : ¬ list.head = list.tail := by
        rw [hp,tail]
        intro same
        exact notLater (List.mem_of_getLast? same.symm)
      refine ⟨a,b::rest,{list with head := c.next},c,rfl,?_,here,rfl,later,distinct,tail⟩
      simp only [removeHead,hp]; rw [← hp,if_neg many,here]; rfl

theorem freeRepresents {heap list nodes entries} (rep : Represents heap list nodes entries)
    {a : Nat} (away : a ∉ nodes) : Represents (free heap a) list nodes entries :=
  ⟨chainFrame rep.chain fun x hx => Function.update_of_ne (fun same => away (by rw [← same]; exact hx)) _ _,
    rep.distinct,rep.tail⟩

end IttyBittyServer.ConList
