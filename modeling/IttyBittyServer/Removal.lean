import IttyBittyServer.Deque

/-! destroyCon, which takes a node out of the connection list by its id, over every
sequence of the list's operations. -/
namespace IttyBittyServer.Removal
open ConList Run
open Deque (State initial)

/- The loop over the nodes, of which it visits at most `fuel`. The head of the list is
left alone, as in the source. -/
def destroyLoop (heap : Heap) (conID : Int) (list : Conlist) :
    Nat → Option Nat → Option Nat → Option (Heap × Conlist)
  | _,none,_ => some (heap,list)
  | 0,some _,_ => none
  | fuel + 1,some a,prev => do
    let node ← heap a
    if node.conn = conID then
      let heap ← if prev = none then some heap else setNext heap prev node.next
      let tail := if some a = list.tail then prev else list.tail
      some (free heap a,{list with tail := tail, numNodes := list.numNodes - 1})
    else destroyLoop heap conID list fuel node.next (some a)

def destroyCon (heap : Heap) (fuel : Nat) (conID : Int) (list : Conlist) : Option (Heap × Conlist) :=
  destroyLoop heap conID list fuel list.head none

inductive Op where
  | deque (op : Deque.Op)
  | destroyCon (conID : Int) (fuel : Nat)
  deriving DecidableEq, Repr

def step (s : State) : Op → Option State
  | .deque op => Deque.step s op
  | .destroyCon conID fuel => do
    let (heap,list) ← destroyCon s.heap fuel conID s.list
    some {s with heap := heap, list := list}

def applyOp (entries : List Entry) : Op → List Entry
  | .deque op => Deque.applyOp entries op
  | .destroyCon conID _ => entries.eraseP fun e => e.conn == conID

def Lists (s : State) (rows : List (Nat × Entry)) : Prop :=
  Represents s.heap s.list (rows.map Prod.fst) (rows.map Prod.snd)

def without (conID : Int) (rows : List (Nat × Entry)) : List (Nat × Entry) :=
  rows.eraseP fun row => row.2.conn == conID

/- malloc gives an address that is not in use, and a loop over n nodes may come to its end. -/
def Possible (s : State) (n : Nat) : Op → Prop
  | .deque (.addHead fresh _ _) | .deque (.addTail fresh _ _) => ∀ x ∈ fresh, s.heap x = none
  | .deque (.findCon _ fuel) | .destroyCon _ fuel => n ≤ fuel
  | _ => True

def Removes (s : State) (rows : List (Nat × Entry)) (conID : Int) (fuel : Nat) : Prop :=
  ∃ t, step s (.destroyCon conID fuel) = some t ∧ Lists t (without conID rows) ∧
    (t.list.head = none ↔ without conID rows = []) ∧ (t.list.tail = none ↔ without conID rows = []) ∧
    (∀ row ∈ without conID rows, t.heap row.1 ≠ none) ∧
    ∀ op, Possible t (without conID rows).length op → (step t op).isSome

def Apart (s : State) : Op → Prop
  | .deque _ => True
  | .destroyCon conID _ => ∀ a ∈ s.list.head, ∀ c ∈ s.heap a, c.conn ≠ conID

section
variable {heap : Heap} {list : Conlist} {conID : Int} {rows : List (Nat × Entry)}

theorem withoutNodes (conID : Int) (rows : List (Nat × Entry)) :
    ((without conID rows).map Prod.fst).Sublist (rows.map Prod.fst) :=
  List.eraseP_sublist.map _

theorem withoutEntries (conID : Int) (rows : List (Nat × Entry)) :
    (without conID rows).map Prod.snd = (rows.map Prod.snd).eraseP fun e => e.conn == conID := by
  rw [List.eraseP_map]
  rfl

theorem unlinked {a b : Nat} {c cb : Connection} {nodes entries} (before : heap b = some cb)
    (rest : Chain heap c.next nodes entries) (notA : a ∉ nodes) (notB : b ∉ nodes) :
    setNext heap (some b) c.next = some (Function.update heap b (some {cb with next := c.next})) ∧
      Chain (free (Function.update heap b (some {cb with next := c.next})) a) c.next nodes entries := by
  refine ⟨by simp [setNext,before],chainFrame rest fun x mem => ?_⟩
  have otherA : x ≠ a := fun same => notA (same ▸ mem)
  have otherB : x ≠ b := fun same => notB (same ▸ mem)
  simp [free,otherA,otherB]

theorem lastAfter {a b : Nat} {nodes : List Nat} (distinct : a ∉ nodes) :
    (if some a = (b::a::nodes).getLast? then some b else (b::a::nodes).getLast?) = (b::nodes).getLast? := by
  cases nodes with
  | nil => simp
  | cons d nodes =>
    have last : (b::a::d::nodes).getLast? = (b::d::nodes).getLast? := by simp
    have other : some a ≠ (b::d::nodes).getLast? := fun same => by
      have same : (d::nodes).getLast? = some a := by simpa using same.symm
      exact distinct (List.mem_of_getLast? same)
    rw [last,if_neg other]

theorem destroyBehind {b fuel : Nat} {cb : Connection} (here : heap b = some cb)
    (chain : Chain heap cb.next (rows.map Prod.fst) (rows.map Prod.snd)) (distinct : (b::rows.map Prod.fst).Nodup)
    (tail : list.tail = (b::rows.map Prod.fst).getLast?) (enough : rows.length ≤ fuel) :
    ∃ heap' list' cb', destroyLoop heap conID list fuel cb.next (some b) = some (heap',list') ∧
      heap' b = some cb' ∧ cb'.entry = cb.entry ∧
      Chain heap' cb'.next ((without conID rows).map Prod.fst) ((without conID rows).map Prod.snd) ∧
      list'.head = list.head ∧ list'.tail = (b::(without conID rows).map Prod.fst).getLast? ∧
      ∀ x, x ∉ b::rows.map Prod.fst → heap' x = heap x := by
  induction rows generalizing b cb fuel with
  | nil =>
    refine ⟨heap,list,cb,?_,here,rfl,chain,rfl,tail,fun _ _ => rfl⟩
    generalize cb.next = p at chain
    cases chain
    cases fuel <;> rfl
  | cons row rows ih =>
    obtain ⟨a,e⟩ := row
    obtain ⟨fuel,rfl⟩ := Nat.exists_eq_succ_of_ne_zero (Nat.ne_of_gt (Nat.lt_of_lt_of_le (by simp) enough))
    obtain ⟨notB,distinct'⟩ := List.nodup_cons.mp distinct
    obtain ⟨notA,_⟩ := List.nodup_cons.mp distinct'
    have apart : a ≠ b := fun same => notB (same ▸ List.mem_cons_self)
    have behindB : b ∉ rows.map Prod.fst := fun mem => notB (List.mem_cons_of_mem _ mem)
    simp only [List.map_cons] at chain tail
    generalize next : cb.next = p at chain
    cases chain with
    | @cons _ c _ _ there rest =>
      by_cases found : c.conn = conID
      · obtain ⟨linked,kept⟩ := unlinked here rest notA behindB
        have first : without conID ((a,c.entry)::rows) = rows :=
          List.eraseP_cons_of_pos (by simpa [Connection.entry] using found)
        refine ⟨free (Function.update heap b (some {cb with next := c.next})) a,
          {list with tail := (b::rows.map Prod.fst).getLast?, numNodes := list.numNodes - 1},
          {cb with next := c.next},?_,?_,rfl,?_,rfl,?_,?_⟩
        · simp only [destroyLoop,there,bind,Option.bind_some,if_pos found,linked,tail]
          rw [if_neg (by simp),lastAfter notA]
        · simp [free,apart.symm]
        · rw [first]
          exact kept
        · rw [first]
        · intro x away
          simp only [List.map_cons,List.mem_cons,not_or] at away
          simp [free,away]
      · have later : without conID ((a,c.entry)::rows) = (a,c.entry)::without conID rows :=
          List.eraseP_cons_of_neg (by simpa [Connection.entry] using found)
        have enough : rows.length ≤ fuel := Nat.le_of_succ_le_succ enough
        obtain ⟨heap',list',c',ran,kept,entry,chain',head,tail',frame⟩ :=
          ih there rest distinct' (tail.trans (by simp)) enough
        have unchanged : heap' b = some cb := (frame b notB).trans here
        refine ⟨heap',list',cb,?_,unchanged,rfl,?_,head,?_,?_⟩
        · simp only [destroyLoop,there,bind,Option.bind_some,if_neg found]
          exact ran
        · rw [later,next]
          simp only [List.map_cons,← entry]
          exact .cons kept chain'
        · rw [later,tail']
          simp
        · exact fun x away => frame x fun mem => away (List.mem_cons_of_mem _ mem)

theorem destroyConSpec {fuel : Nat}
    (rep : Represents heap list (rows.map Prod.fst) (rows.map Prod.snd)) (enough : rows.length ≤ fuel)
    (apart : ∀ a ∈ list.head, ∀ c ∈ heap a, c.conn ≠ conID) :
    ∃ heap' list', destroyCon heap fuel conID list = some (heap',list') ∧
      Represents heap' list' ((without conID rows).map Prod.fst) ((without conID rows).map Prod.snd) ∧
      ∀ x, x ∉ rows.map Prod.fst → heap' x = heap x := by
  obtain ⟨chain,distinct,tail⟩ := rep
  unfold destroyCon
  cases rows with
  | nil =>
    refine ⟨heap,list,?_,⟨chain,distinct,tail⟩,fun _ _ => rfl⟩
    generalize list.head = p at chain
    cases chain
    cases fuel <;> rfl
  | cons row rows =>
    obtain ⟨b,e⟩ := row
    obtain ⟨fuel,rfl⟩ := Nat.exists_eq_succ_of_ne_zero (Nat.ne_of_gt (Nat.lt_of_lt_of_le (by simp) enough))
    simp only [List.map_cons] at chain distinct tail
    generalize atHead : list.head = p at chain apart
    cases chain with
    | @cons _ c _ _ here rest =>
      have other : c.conn ≠ conID := apart b rfl c here
      have later : without conID ((b,c.entry)::rows) = (b,c.entry)::without conID rows :=
        List.eraseP_cons_of_neg (by simpa [Connection.entry] using other)
      have enough : rows.length ≤ fuel := Nat.le_of_succ_le_succ enough
      obtain ⟨heap',list',c',ran,kept,entry,chain',head,tail',frame⟩ :=
        destroyBehind here rest distinct tail enough
      refine ⟨heap',list',?_,⟨?_,?_,?_⟩,frame⟩
      · simp only [destroyLoop,here,bind,Option.bind_some,if_neg other]
        exact ran
      · rw [later,head,atHead]
        simp only [List.map_cons,← entry]
        exact .cons kept chain'
      · exact distinct.sublist (withoutNodes conID ((b,c.entry)::rows))
      · rw [later,tail']
        rfl

theorem destroyConHead {a fuel : Nat} {c : Connection} (atHead : list.head = some a) (here : heap a = some c)
    (found : c.conn = conID) : ∃ heap' list', destroyCon heap (fuel + 1) conID list = some (heap',list') ∧
      list'.head = some a ∧ heap' a = none := by
  refine ⟨free heap a,{list with
    tail := if some a = list.tail then none else list.tail, numNodes := list.numNodes - 1},?_,atHead,
    by simp [free]⟩
  simp only [destroyCon,atHead,destroyLoop,here,bind,Option.bind_some,if_pos found,if_true]

end

section
variable {s t : State} {rows : List (Nat × Entry)}

def Tracked (s : State) (rows : List (Nat × Entry)) : Prop :=
  Deque.Inv s (rows.map Prod.fst) (rows.map Prod.snd)

theorem tracked {nodes entries} (inv : Deque.Inv s nodes entries) :
    ∃ rows, rows.map Prod.snd = entries ∧ Tracked s rows := by
  have size := chainLength inv.represents.chain
  have fsts : (nodes.zip entries).map Prod.fst = nodes := List.map_fst_zip (by omega)
  have snds : (nodes.zip entries).map Prod.snd = entries := List.map_snd_zip (by omega)
  exact ⟨nodes.zip entries,snds,by rw [Tracked,fsts,snds]; exact inv⟩

theorem destroyConReturns (inv : Tracked s rows) (conID : Int) {fuel : Nat} (enough : rows.length ≤ fuel) :
    ∃ heap list, destroyCon s.heap fuel conID s.list = some (heap,list) := by
  by_cases apart : ∀ a ∈ s.list.head, ∀ c ∈ s.heap a, c.conn ≠ conID
  · obtain ⟨heap,list,ran,_⟩ := destroyConSpec inv.represents enough apart
    exact ⟨heap,list,ran⟩
  · push Not at apart
    obtain ⟨a,atHead,c,here,found⟩ := apart
    have some_ : rows ≠ [] := by
      rintro rfl
      have empty := (Deque.endsEmpty inv.represents).1.mpr rfl
      rw [empty] at atHead
      cases atHead
    have size := List.length_pos_iff.mpr some_
    obtain ⟨fuel,rfl⟩ := Nat.exists_eq_succ_of_ne_zero (Nat.ne_of_gt (Nat.lt_of_lt_of_le size enough))
    obtain ⟨heap,list,ran,_⟩ := destroyConHead atHead here found
    exact ⟨heap,list,ran⟩

theorem possible (inv : Tracked s rows) (op : Op) (ok : Possible s rows.length op) : (step s op).isSome := by
  obtain ⟨listed,_,_,⟨node,list,front,_⟩,goesOn⟩ := Deque.refines inv
  cases op with
  | destroyCon conID fuel =>
    obtain ⟨heap,list,ran⟩ := destroyConReturns inv conID ok
    simp [step,ran]
  | deque op =>
    cases op with
    | addHead fresh conID a => exact (goesOn conID a fresh ok).1
    | addTail fresh conID a => exact (goesOn conID a fresh ok).2
    | removeHead => simp [step,Deque.step,front]
    | isEmpty => rfl
    | findCon conID fuel =>
      obtain ⟨nodes,chain,_,_,_,found⟩ := listed
      have size := (chainUnique inv.represents.chain chain).1
      have ran := found conID fuel (by rw [size,List.length_map]; exact ok)
      simp [step,Deque.step,ran]

theorem destroyInv {conID : Int} {fuel : Nat} (inv : Tracked s rows) (enough : rows.length ≤ fuel)
    (apart : Apart s (.destroyCon conID fuel)) :
    ∃ t, step s (.destroyCon conID fuel) = some t ∧ Tracked t (without conID rows) := by
  obtain ⟨heap,list,ran,rep,frame⟩ := destroyConSpec inv.represents enough apart
  refine ⟨{s with heap := heap, list := list},by simp [step,ran],rep,fun a gone => ?_⟩
  obtain ⟨kept,away⟩ := inv.out a gone
  exact ⟨fun none_ => kept ((frame a away).symm.trans none_),fun mem => away ((withoutNodes conID rows).subset mem)⟩

theorem removesExact {conID : Int} {fuel : Nat} (inv : Tracked s rows) (enough : rows.length ≤ fuel) :
    Removes s rows conID fuel ↔ Apart s (.destroyCon conID fuel) := by
  constructor
  · rintro ⟨t,ran,listed,_⟩ a atHead c here found
    cases fuel with
    | zero =>
      have none_ : rows = [] := List.length_eq_zero_iff.mp (Nat.le_zero.mp enough)
      subst none_
      have empty := (Deque.endsEmpty inv.represents).1.mpr rfl
      rw [empty] at atHead
      cases atHead
    | succ fuel =>
      obtain ⟨heap,list,ran',head,gone⟩ := @destroyConHead _ _ _ a fuel c atHead here found
      simp only [step,ran',bind,Option.bind_some] at ran
      cases Option.some.inj ran
      have chain := listed.chain
      rw [head] at chain
      generalize (without conID rows).map Prod.fst = nodes,(without conID rows).map Prod.snd = entries at chain
      cases chain with
      | cons there rest => cases gone.symm.trans there
  · intro apart
    obtain ⟨t,ran,inv'⟩ := destroyInv inv enough apart
    have ends := Deque.endsEmpty inv'.represents
    rw [List.map_eq_nil_iff] at ends
    refine ⟨t,ran,inv'.represents,ends.1,ends.2,fun row mem => ?_,possible inv'⟩
    exact chainAllocated inv'.represents.chain row.1 (List.mem_map_of_mem mem)

theorem destroyMore {heap : Heap} {list : Conlist} {conID : Int} {fuel more : Nat} {p prev : Option Nat} {r}
    (ran : destroyLoop heap conID list fuel p prev = some r) (within : fuel ≤ more) :
    destroyLoop heap conID list more p prev = some r := by
  induction fuel generalizing more p prev with
  | zero =>
    cases p with
    | none => cases more <;> exact ran
    | some a => cases ran
  | succ fuel ih =>
    obtain ⟨more,rfl⟩ := Nat.exists_eq_succ_of_ne_zero (Nat.ne_of_gt (Nat.lt_of_lt_of_le (Nat.succ_pos _) within))
    cases p with
    | none => exact ran
    | some a =>
      simp only [destroyLoop,bind,Option.bind_eq_some_iff] at ran ⊢
      obtain ⟨node,here,ran⟩ := ran
      refine ⟨node,here,?_⟩
      by_cases found : node.conn = conID
      · rw [if_pos found] at ran ⊢
        exact ran
      · rw [if_neg found] at ran ⊢
        exact ih ran (Nat.le_of_succ_le_succ within)

theorem stepTracked {op : Op} (inv : Tracked s rows) (apart : Apart s op) (next : step s op = some t) :
    ∃ rows', rows'.map Prod.snd = applyOp (rows.map Prod.snd) op ∧ Tracked t rows' := by
  cases op with
  | deque op =>
    obtain ⟨nodes,inv'⟩ := Deque.stepInv inv next
    exact tracked inv'
  | destroyCon conID fuel =>
    have enough : rows.length ≤ max fuel rows.length := Nat.le_max_right _ _
    obtain ⟨t',ran,inv'⟩ := destroyInv inv enough apart
    have same : step s (.destroyCon conID (max fuel rows.length)) = some t := by
      simp only [step,destroyCon,bind,Option.bind_eq_some_iff] at next ⊢
      obtain ⟨r,looped,last⟩ := next
      exact ⟨r,destroyMore looped (Nat.le_max_left _ _),last⟩
    cases Option.some.inj (same.symm.trans ran)
    exact ⟨without conID rows,withoutEntries conID rows,inv'⟩

theorem runTracked {ops : List Op} (inv : Tracked s rows) (met : Along step Apart s ops)
    (ran : run step s ops = some t) :
    ∃ rows', rows'.map Prod.snd = ops.foldl applyOp (rows.map Prod.snd) ∧ Tracked t rows' := by
  induction ops generalizing s rows with
  | nil =>
    cases Option.some.inj ran
    exact ⟨rows,rfl,inv⟩
  | cons op ops ih =>
    obtain ⟨u,next,ran⟩ := runCons ran
    obtain ⟨rows',entries,inv'⟩ := stepTracked inv met.1 next
    obtain ⟨last,all,inv''⟩ := ih inv' (met.2 u next) ran
    exact ⟨last,by rw [all,entries,List.foldl_cons],inv''⟩

/-- As long as no id of a head was destroyed, the list is what its operations say, and the
next id is removed exactly where the head does not carry it. -/
theorem destroyConExact {ops : List Op} (ran : run step initial ops = some s) (met : Along step Apart initial ops) :
    ∃ rows, Lists s rows ∧ rows.map Prod.snd = ops.foldl applyOp [] ∧
      ∀ conID fuel, rows.length ≤ fuel → (Removes s rows conID fuel ↔ Apart s (.destroyCon conID fuel)) := by
  have start : Tracked initial [] := ⟨representsNew _,by simp [initial]⟩
  obtain ⟨rows,entries,inv⟩ := runTracked start met ran
  exact ⟨rows,inv.represents,entries,fun conID fuel enough => removesExact inv enough⟩

def middleDestroyed : List Op :=
  [.deque (.addTail (some 7) 4 .process),.deque (.addHead (some 3) 5 .shared),
    .deque (.addTail (some 9) 4 .terminate),.destroyCon 4 3]

theorem destroyConMiddle : ∃ s, run step initial middleDestroyed = some s ∧
    middleDestroyed.foldl applyOp [] = [⟨5,.shared⟩,⟨4,.terminate⟩] ∧
    ∃ rows, Lists s rows ∧ rows.map Prod.snd = middleDestroyed.foldl applyOp [] ∧
      ∀ conID fuel, rows.length ≤ fuel → (Removes s rows conID fuel ↔ Apart s (.destroyCon conID fuel)) := by
  have met : Along step Apart initial middleDestroyed := by
    refine ⟨trivial,fun s₁ h₁ => ⟨trivial,fun s₂ h₂ => ⟨trivial,fun s₃ h₃ => ⟨?_,fun _ _ => trivial⟩⟩⟩⟩
    cases Option.some.inj h₁
    cases Option.some.inj h₂
    cases Option.some.inj h₃
    intro a atHead c here
    cases Option.some.inj atHead
    cases Option.some.inj here
    decide
  exact ⟨_,rfl,by decide,destroyConExact rfl met⟩

theorem destroyConOnly : ¬ ∀ (ops : List Op) (s : State), run step initial ops = some s →
    ∃ rows, Lists s rows ∧ ∀ conID fuel, rows.length ≤ fuel → Removes s rows conID fuel := by
  intro removes
  obtain ⟨rows,listed,removes⟩ := removes [.deque (.addTail (some 7) 4 .process)] _ rfl
  have inv : Tracked _ rows := ⟨listed,fun a gone => by cases gone⟩
  have apart := (removesExact inv (Nat.le_refl _)).mp (removes 4 rows.length (Nat.le_refl _))
  exact apart 7 rfl _ rfl rfl

end

end IttyBittyServer.Removal
