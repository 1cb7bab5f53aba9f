import IttyBittyServer.ClientRequest

/-! The client: the list of documents that it reads, the ten of them that each of its threads
asks for, and the bytes that it counts. -/
namespace IttyBittyServer.Client
open Sockets Text Response ClientRequest

/- What the calls of fgets bring, one after the other: a line with its end, or the 9998 bytes
that the buffer has room for. `got` is what the call has read already. -/
def fgets (got : List UInt8) : List UInt8 → List (List UInt8)
  | [] => if got = [] then [] else [got]
  | c::rest =>
    if c = 10 ∨ got.length + 1 = 9998 then (got ++ [c])::fgets [] rest else fgets (got ++ [c]) rest

/- The first name that begins with a blank ends the list; an empty line is a name. -/
def readNames : List (List UInt8) → List (List UInt8)
  | [] => []
  | buffer::rest =>
    let name := (cstring buffer).takeWhile (· ≠ 10)
    if name.head? = some 10 ∨ name.head? = some 32 then [] else name::readNames rest

def completeList (file : List UInt8) : List (List UInt8) := readNames (fgets [] file)

def numAccesses : Nat := 10

def socketFailure : Int := 4

def ioFailure : Int := 6

def networkFailure : Int := 7

inductive End where
  | exits (code : Int)
  | returns (retVal : Int)
  deriving DecidableEq, Repr

structure Access where
  socket : Bool
  connect : Bool
  sends : List Answer
  response : Receiver
  deriving DecidableEq, Repr

def access (transfer : List UInt8) (a : Access) : Option End :=
  if ¬ a.socket then some (.exits socketFailure)
  else if ¬ a.connect then some (.exits networkFailure)
  else do
    let requestLen := transfer.length
    let sent ← sendAll ⟨[],a.sends⟩ transfer requestLen
    if sent.returned < 0 then some (.exits networkFailure)
    else do
      let receive ← recvAllNoData a.response
      if receive.returned < 0 then some (.exits networkFailure)
      else some (.returns receive.bodyLength)

/- `rand_r` gives a number and the next state; without a name its remainder has no result. -/
def accessLoop (request : List UInt8 → List UInt8) (names : List (List UInt8)) (rand_r : Nat → Nat × Nat) :
    Nat → Int → List Access → Option End
  | _,retVal,[] => some (.returns retVal)
  | state,retVal,a::rest => do
    let (randNum,state) := rand_r state
    let name ← names[randNum % names.length]?
    match ← access (cstring (request name)) a with
    | .exits code => some (.exits code)
    | .returns bodyLen => accessLoop request names rand_r state (retVal + bodyLen) rest

/- `none` is a list that cannot be opened. -/
def accessServer (request : List UInt8 → List UInt8) (fileList : Option (List UInt8)) (rand_r : Nat → Nat × Nat)
    (accesses : Fin numAccesses → Access) : Option End :=
  match fileList with
  | none => some (.exits ioFailure)
  | some file => accessLoop request (completeList file) rand_r 1 0 (List.ofFn accesses)

def transfer (proxy : Bool) (server : List UInt8) (port : Int) (name : List UInt8) : List UInt8 :=
  if proxy then proxyRequest server port name else serverRequest server name

def total : List End → Option Int
  | [] => some 0
  | .exits _::_ => none
  | .returns retVal::rest => (total rest).map (retVal + ·)

def picks (names : List (List UInt8)) (rand_r : Nat → Nat × Nat) : Nat → Nat → List (List UInt8)
  | _,0 => []
  | state,n + 1 => names[(rand_r state).1 % names.length]?.getD []::picks names rand_r (rand_r state).2 n

section
variable {names : List (List UInt8)} {name got rest : List UInt8}

theorem fgetsLine (noEnd : 10 ∉ name) (fits : got.length + name.length < 9998) :
    fgets got (name ++ 10::rest) = (got ++ name ++ [10])::fgets [] rest := by
  induction name generalizing got with
  | nil => simp [fgets]
  | cons c name ih =>
    obtain ⟨other,noEnd⟩ := not_or.mp (mt List.mem_cons.mpr noEnd)
    simp only [List.length_cons] at fits
    have more : ¬ (c = 10 ∨ got.length + 1 = 9998) := by
      rintro (rfl | full)
      · exact other rfl
      · omega
    rw [List.cons_append,fgets,if_neg more,ih noEnd (by simp; omega)]
    simp

theorem fgetsCut (noEnd : 10 ∉ name) (room : got.length < 9998) (long : 9998 ≤ got.length + name.length) :
    fgets got (name ++ rest) =
      (got ++ name.take (9998 - got.length))::fgets [] (name.drop (9998 - got.length) ++ rest) := by
  induction name generalizing got with
  | nil => simp at long; omega
  | cons c name ih =>
    obtain ⟨other,noEnd⟩ := not_or.mp (mt List.mem_cons.mpr noEnd)
    simp only [List.length_cons] at long
    by_cases full : got.length + 1 = 9998
    · have one : 9998 - got.length = 1 := by omega
      rw [List.cons_append,fgets,if_pos (Or.inr full),one]
      simp
    · have more : ¬ (c = 10 ∨ got.length + 1 = 9998) := by
        rintro (rfl | last)
        · exact other rfl
        · exact full last
      obtain ⟨n,left⟩ : ∃ n, 9998 - got.length = n + 1 := ⟨9998 - got.length - 1,by omega⟩
      have next : 9998 - (got ++ [c]).length = n := by simp; omega
      rw [List.cons_append,fgets,if_neg more,ih noEnd (by simp; omega) (by simp; omega),next,left]
      simp

def Written (name : List UInt8) : Prop := 0 ∉ name ∧ 10 ∉ name

def lines (names : List (List UInt8)) : List UInt8 := names.flatMap fun name => name ++ [10]

theorem nameOf (written : Written name) (tail : List UInt8) (ends : tail = [] ∨ tail = [10]) :
    (cstring (name ++ tail)).takeWhile (· ≠ 10) = name := by
  have whole : cstring (name ++ tail) = name ++ tail := cstringExact fun mem => by
    rcases List.mem_append.mp mem with here | there
    · exact written.1 here
    · rcases ends with rfl | rfl <;> simp at there
  rw [whole]
  rcases ends with rfl | rfl
  · rw [List.append_nil]
    exact wordExact written.2
  · rw [wordEnds]
    exact wordExact written.2

theorem listedFirst (written : Written name) (fits : name.length ≤ 9997) (rest : List UInt8) :
    completeList (name ++ 10::rest) = if name.head? = some 32 then [] else name::completeList rest := by
  have head : name.head? ≠ some 10 := fun same => written.2 (List.mem_of_head? same)
  rw [completeList,fgetsLine written.2 (by simp; omega),List.nil_append,readNames,nameOf written [10] (Or.inr rfl)]
  simp [head,completeList]

theorem listedCut (written : Written name) (long : 9998 ≤ name.length) (rest : List UInt8) :
    completeList (name ++ 10::rest) = if name.head? = some 32 then [] else
      name.take 9998::completeList (name.drop 9998 ++ 10::rest) := by
  have part : Written (name.take 9998) :=
    ⟨fun mem => written.1 (List.mem_of_mem_take mem),fun mem => written.2 (List.mem_of_mem_take mem)⟩
  have head : name.head? ≠ some 10 := fun same => written.2 (List.mem_of_head? same)
  have same : (name.take 9998).head? = name.head? := by
    cases name <;> rfl
  rw [completeList,fgetsCut written.2 (by simp) (by simpa using long),List.length_nil,Nat.sub_zero,List.nil_append,
    readNames]
  have whole := nameOf part [] (Or.inl rfl)
  rw [List.append_nil] at whole
  rw [whole,same]
  simp [head,completeList]

theorem noShift (written : ∀ name ∈ names, Written name) : []::completeList (lines names) ≠ names := by
  induction names with
  | nil => simp
  | cons name names ih =>
    intro same
    obtain ⟨rfl,same⟩ := List.cons.inj same
    refine ih (fun other mem => written other (List.mem_cons_of_mem _ mem)) ?_
    have first := @listedFirst [] (written [] List.mem_cons_self) (by decide) (lines names)
    have shape : lines ([]::names) = [] ++ 10::lines names := by simp [lines]
    rw [shape,first] at same
    simpa using same

/-- The list that is read is the list that was written exactly when no name begins with a blank or
is longer than the buffer. -/
theorem listRead (written : ∀ name ∈ names, Written name) :
    completeList (lines names) = names ↔ ∀ name ∈ names, name.head? ≠ some 32 ∧ name.length ≤ 9997 := by
  induction names with
  | nil => simp [lines,completeList,fgets,readNames]
  | cons name names ih =>
    have here := written name List.mem_cons_self
    have later := fun other mem => written other (List.mem_cons_of_mem _ mem)
    have shape : lines (name::names) = name ++ 10::lines names := by simp [lines]
    rw [shape,List.forall_mem_cons,← ih later]
    by_cases fits : name.length ≤ 9997
    · rw [listedFirst here fits]
      by_cases blank : name.head? = some 32
      · simp [blank]
      · simp [blank,fits]
    · rw [listedCut here (by omega)]
      refine iff_of_false ?_ fun both => fits both.1.2
      split
      · simp
      · intro same
        obtain ⟨first,rest⟩ := List.cons.inj same
        have none : name.drop 9998 = [] := by
          have size := congrArg List.length first
          rw [List.length_take] at size
          exact List.drop_eq_nil_of_le (by omega)
        rw [none,@listedFirst [] ⟨by simp,by simp⟩ (by simp)] at rest
        exact noShift later (by simpa using rest)

theorem listReadTwo : completeList (lines [ascii "a.html",ascii "b"]) = [ascii "a.html",ascii "b"] ↔
    ∀ name ∈ [ascii "a.html",ascii "b"], name.head? ≠ some 32 ∧ name.length ≤ 9997 :=
  listRead (by unfold Written; decide)

theorem picksMem (some_ : names ≠ []) (rand_r : Nat → Nat × Nat) (state n : Nat) :
    ∀ name ∈ picks names rand_r state n, name ∈ names := by
  induction n generalizing state with
  | zero => simp [picks]
  | succ n ih =>
    intro name mem
    rcases List.mem_cons.mp mem with rfl | later
    · have inside := Nat.mod_lt (rand_r state).1 (List.length_pos_iff.mpr some_)
      rw [List.getElem?_eq_getElem inside]
      exact List.getElem_mem inside
    · exact ih _ name later

theorem accessLoopSum {request : List UInt8 → List UInt8} {rand_r : Nat → Nat × Nat} {state n : Nat} {retVal : Int}
    {value : List UInt8 → Int} {accesses : List Access} (some_ : names ≠ [])
    (each : List.Forall₂ (fun name a => access (cstring (request name)) a = some (.returns (value name)))
      (picks names rand_r state n) accesses) :
    accessLoop request names rand_r state retVal accesses =
      some (.returns (retVal + ((picks names rand_r state n).map value).sum)) := by
  induction n generalizing state retVal accesses with
  | zero =>
    cases each
    simp [accessLoop,picks]
  | succ n ih =>
    cases each with
    | cons here later =>
      have inside := Nat.mod_lt (rand_r state).1 (List.length_pos_iff.mpr some_)
      rw [List.getElem?_eq_getElem inside,Option.getD_some] at here
      simp only [accessLoop,List.getElem?_eq_getElem inside,bind,Option.bind_some,here,ih later,picks,
        Option.getD_some,List.map_cons,List.sum_cons,Int.add_assoc]

theorem totalSum (retVals : List Int) : total (retVals.map .returns) = some retVals.sum := by
  induction retVals with
  | nil => rfl
  | cons retVal retVals ih => simp [total,ih]

theorem fgetsSize (file : List UInt8) (room : got.length < 9998) :
    ∀ buffer ∈ fgets got file, buffer.length ≤ 9998 := by
  induction file generalizing got with
  | nil =>
    intro buffer mem
    rw [fgets] at mem
    split at mem
    · cases mem
    · cases List.mem_singleton.mp mem
      omega
  | cons c file ih =>
    intro buffer mem
    rw [fgets] at mem
    split at mem
    · rcases List.mem_cons.mp mem with rfl | later
      · simp; omega
      · exact ih (by simp) buffer later
    · rename_i more
      exact ih (by simp; omega) buffer mem

theorem listedSize (file : List UInt8) : ∀ name ∈ completeList file, name.length ≤ 9998 := by
  have read : ∀ buffers : List (List UInt8), (∀ buffer ∈ buffers, buffer.length ≤ 9998) →
      ∀ name ∈ readNames buffers, name.length ≤ 9998 := by
    intro buffers
    induction buffers with
    | nil => simp [readNames]
    | cons buffer rest ih =>
      intro fit name mem
      simp only [readNames] at mem
      split at mem
      · cases mem
      · rcases List.mem_cons.mp mem with rfl | later
        · have short := fit buffer List.mem_cons_self
          have one := (List.takeWhile_prefix (· ≠ 10) (l := cstring buffer)).length_le
          have two := (List.takeWhile_prefix (· ≠ 0) (l := buffer)).length_le
          exact one.trans (two.trans short)
        · exact ih (fun other mem => fit other (List.mem_cons_of_mem _ mem)) name later
  exact read _ (fgetsSize file (by simp))

end

end IttyBittyServer.Client
