import IttyBittyServer.Text

/-! Objects in memory as lists of their cells, and the functions of the C library that read
and write them. A pointer is an index; an access outside an object has no result, and NULL
is a result of its own. -/
namespace IttyBittyServer.Memory
open Text

section
variable {α : Type}

def load (b : List α) (i : Int) : Option α := if 0 ≤ i then b[i.toNat]? else none

def store (b : List α) (i : Int) (a : α) : Option (List α) :=
  if 0 ≤ i ∧ i < b.length then some (b.set i.toNat a) else none

/- A negative count is as a size_t beyond every object. -/
def read (b : List α) (p n : Int) : Option (List α) :=
  if 0 ≤ p ∧ 0 ≤ n ∧ p + n ≤ b.length then some ((b.drop p.toNat).take n.toNat) else none

def write (b : List α) (p : Int) (cells : List α) : Option (List α) :=
  if 0 ≤ p ∧ p + cells.length ≤ b.length then
    some (b.take p.toNat ++ cells ++ b.drop (p.toNat + cells.length))
  else none

def memcpy (dst : List α) (q : Int) (src : List α) (p n : Int) : Option (List α) := do
  write dst q (← read src p n)

theorem loadNat (b : List α) (i : Nat) : load b i = b[i]? := by
  simp [load]

theorem loadFront {front : List α} {i : Nat} (rest : List α) (inside : i < front.length) :
    load (front ++ rest) i = some front[i] := by
  rw [loadNat,List.getElem?_append_left inside,List.getElem?_eq_getElem inside]

theorem loadAfter (front : List α) (a : α) (rest : List α) : load (front ++ a::rest) front.length = some a := by
  rw [loadNat,List.getElem?_append_right (Nat.le_refl _)]
  simp

theorem loadBehind (front rest : List α) (i : Nat) : load (front ++ rest) (front.length + i) = rest[i]? := by
  have index : (front.length : Int) + i = (front.length + i : Nat) := by omega
  rw [index,loadNat,List.getElem?_append_right (Nat.le_add_right _ _),Nat.add_sub_cancel_left]

theorem loadNone {b : List α} {i : Nat} : load b i = none ↔ b.length ≤ i := by
  rw [loadNat,List.getElem?_eq_none_iff]

theorem storeAfter (front : List α) (old a : α) (rest : List α) :
    store (front ++ old::rest) front.length a = some (front ++ a::rest) := by
  rw [store,if_pos (by rw [List.length_append,List.length_cons]; omega)]
  simp

theorem readExact {b cells : List α} {p n : Int} :
    read b p n = some cells ↔ 0 ≤ p ∧ 0 ≤ n ∧ p + n ≤ b.length ∧
      (b.drop p.toNat).take n.toNat = cells := by
  simp only [read,Option.ite_none_right_eq_some,Option.some.injEq,and_assoc]

theorem writeExact {b b' cells : List α} {p : Int} :
    write b p cells = some b' ↔ 0 ≤ p ∧ p + cells.length ≤ b.length ∧
      b.take p.toNat ++ cells ++ b.drop (p.toNat + cells.length) = b' := by
  simp only [write,Option.ite_none_right_eq_some,Option.some.injEq,and_assoc]

theorem writeLength {b b' cells : List α} {p : Int} (h : write b p cells = some b') :
    b'.length = b.length := by
  obtain ⟨low,high,rfl⟩ := writeExact.mp h
  simp
  omega

theorem writeAfter (front : List α) {old cells : List α} (rest : List α) (size : cells.length = old.length) :
    write (front ++ (old ++ rest)) front.length cells = some (front ++ (cells ++ rest)) := by
  refine writeExact.mpr ⟨by omega,by simp; omega,?_⟩
  simp [size]

theorem readLength {b cells : List α} {p n : Int} (h : read b p n = some cells) : cells.length = n := by
  obtain ⟨low,count,high,rfl⟩ := readExact.mp h
  simp
  omega

theorem memcpyExact {dst src dst' : List α} {q p n : Int} (h : memcpy dst q src p n = some dst') :
    0 ≤ p ∧ 0 ≤ n ∧ p + n ≤ src.length ∧ 0 ≤ q ∧ q + n ≤ dst.length ∧
      dst' = dst.take q.toNat ++ (src.drop p.toNat).take n.toNat ++ dst.drop (q + n).toNat := by
  simp only [memcpy,bind,Option.bind_eq_some_iff] at h
  obtain ⟨cells,taken,written⟩ := h
  have size := readLength taken
  obtain ⟨low,count,high,rfl⟩ := readExact.mp taken
  obtain ⟨low',high',rfl⟩ := writeExact.mp written
  rw [size] at high'
  refine ⟨low,count,high,low',high',?_⟩
  have ends : q.toNat + ((src.drop p.toNat).take n.toNat).length = (q + n).toNat := by omega
  rw [ends]

theorem memcpyPossible {dst src : List α} {q p n : Int} (low : 0 ≤ p) (count : 0 ≤ n)
    (high : p + n ≤ src.length) (low' : 0 ≤ q) (high' : q + n ≤ dst.length) :
    memcpy dst q src p n =
      some (dst.take q.toNat ++ (src.drop p.toNat).take n.toNat ++ dst.drop (q + n).toNat) := by
  have taken : read src p n = some ((src.drop p.toNat).take n.toNat) :=
    readExact.mpr ⟨low,count,high,rfl⟩
  have size := readLength taken
  simp only [memcpy,taken,bind,Option.bind_some]
  refine writeExact.mpr ⟨low',by omega,?_⟩
  have ends : q.toNat + ((src.drop p.toNat).take n.toNat).length = (q + n).toNat := by omega
  rw [ends]

end

/- calloc fails above PTRDIFF_MAX, and so on every negative size. -/
def calloc (n : Int) : Option (List UInt8) :=
  if 0 ≤ n ∧ n < 2 ^ 63 then some (List.replicate n.toNat 0) else none

def text (b : List UInt8) (p : Int) : Option (List UInt8) :=
  if 0 ≤ p ∧ 0 ∈ b.drop p.toNat then some (cstring (b.drop p.toNat)) else none

def strlen (b : List UInt8) (p : Int) : Option Int := (text b p).map fun s => s.length

def strchr (b : List UInt8) (p : Int) (c : UInt8) : Option (Option Int) := do
  let before := (b.drop p.toNat).takeWhile fun a => a ≠ c ∧ a ≠ 0
  let a ← load b (p + before.length)
  some (if a = c then some (p + before.length) else none)

def strstr (b : List UInt8) (p : Int) (needle : List UInt8) : Option (Option Int) := do
  let s ← text b p
  some ((Text.strstr s needle).map fun found => p + (s.length - found.length))

def strncpy (dst : List UInt8) (q : Int) (src : List UInt8) (p n : Int) : Option (List UInt8) :=
  if 0 ≤ p ∧ 0 ≤ n ∧ (0 ∈ src.drop p.toNat ∨ p + n ≤ src.length) then
    let s := cstring ((src.drop p.toNat).take n.toNat)
    write dst q (s ++ List.replicate (n.toNat - s.length) 0)
  else none

/- The text is cut to one byte less than the size that is given. -/
def snprintf (dst : List UInt8) (size : Nat) (s : List UInt8) : Option (List UInt8) :=
  write dst 0 (s.take (size - 1) ++ [0])

theorem textHere {s : List UInt8} (noNul : 0 ∉ s) (rest : List UInt8) {i : Nat} (inside : i ≤ s.length) :
    text (s ++ 0::rest) i = some (s.drop i) := by
  have split : (s ++ 0::rest).drop i = s.drop i ++ 0::rest := List.drop_append_of_le_length inside
  have plain : 0 ∉ s.drop i := fun mem => noNul (List.mem_of_mem_drop mem)
  have whole : cstring (s.drop i ++ 0::rest) = s.drop i := (wordEnds _ rest 0).trans (wordExact plain)
  simp only [text,Int.toNat_natCast,split,whole]
  rw [if_pos ⟨by omega,by simp⟩]

theorem textFront (b rest : List UInt8) : text (b ++ 0::rest) 0 = some (cstring b) := by
  have whole : cstring (b ++ 0::rest) = cstring b := wordEnds b rest 0
  simp only [text,Int.toNat_zero,List.drop_zero,whole]
  rw [if_pos ⟨Int.le_refl _,by simp⟩]

theorem strlenHere {s : List UInt8} (noNul : 0 ∉ s) (rest : List UInt8) {i : Nat} (inside : i ≤ s.length) :
    strlen (s ++ 0::rest) i = some ((s.length : Int) - i) := by
  rw [strlen,textHere noNul rest inside]
  simp
  omega

def place (s suffix : List UInt8) : Int := s.length - suffix.length

theorem strstrHere {s : List UInt8} (noNul : 0 ∉ s) (rest needle : List UInt8) {i : Nat}
    (inside : i ≤ s.length) : strstr (s ++ 0::rest) i needle =
      some ((Text.strstr (s.drop i) needle).map (place s)) := by
  simp only [strstr,textHere noNul rest inside,bind,Option.bind_some,List.length_drop]
  congr 2
  funext found
  unfold place
  omega

theorem strstrFront (b rest needle : List UInt8) : strstr (b ++ 0::rest) 0 needle =
    some ((Text.strstr (cstring b) needle).map (place (cstring b))) := by
  simp only [strstr,textFront,bind,Option.bind_some]
  congr 2
  funext found
  unfold place
  omega

theorem scanStops {front : List UInt8} {c d : UInt8} (away : c ∉ front) (noNul : 0 ∉ front) (stop : d = c ∨ d = 0)
    (rest : List UInt8) : (front ++ d::rest).takeWhile (fun a => decide (a ≠ c ∧ a ≠ 0)) = front := by
  have plain : ∀ a ∈ front, decide (a ≠ c ∧ a ≠ 0) = true := fun a mem => by
    have other : a ≠ c := fun same => away (same ▸ mem)
    have byte : a ≠ 0 := fun zero => noNul (zero ▸ mem)
    simpa using And.intro other byte
  have last : decide (d ≠ c ∧ d ≠ 0) = false := by
    rcases stop with rfl | rfl <;> simp
  rw [List.takeWhile_append_of_pos plain,List.takeWhile_cons,last]
  simp

theorem strchrHere {s : List UInt8} (noNul : 0 ∉ s) (rest : List UInt8) {c : UInt8} (some_ : c ≠ 0) {i : Nat}
    (inside : i ≤ s.length) : strchr (s ++ 0::rest) i c =
      some ((Text.strchr (s.drop i) c).map (place s)) := by
  have split : (s ++ 0::rest).drop i = s.drop i ++ 0::rest := List.drop_append_of_le_length inside
  have plain : 0 ∉ s.drop i := fun mem => noNul (List.mem_of_mem_drop mem)
  have size : (s.drop i).length = s.length - i := List.length_drop
  have front : s ++ 0::rest = s.take i ++ (s.drop i ++ 0::rest) := by
    rw [← List.append_assoc,List.take_append_drop]
  have start : (s.take i).length = i := by simp [inside]
  simp only [strchr,Int.toNat_natCast,split]
  generalize s.drop i = tail at plain size split front
  by_cases found : c ∈ tail
  · obtain ⟨before,after,rfl,away⟩ := List.eq_append_cons_of_mem found
    have stops : ((before ++ c::after) ++ 0::rest).takeWhile (fun a => decide (a ≠ c ∧ a ≠ 0)) = before := by
      rw [List.append_assoc,List.cons_append]
      exact scanStops away (fun mem => plain (List.mem_append_left _ mem)) (.inl rfl) _
    have at_ : load (s ++ 0::rest) ((i : Int) + before.length) = some c := by
      have here := loadAfter (s.take i ++ before) c (after ++ 0::rest)
      rw [List.length_append,start] at here
      rw [front]
      simpa using here
    rw [stops,at_,strchrAfter away]
    simp only [bind,Option.bind_some,if_true,Option.map_some,place]
    simp only [List.length_append,List.length_cons] at size ⊢
    congr 2
    omega
  · have stops : (tail ++ 0::rest).takeWhile (fun a => decide (a ≠ c ∧ a ≠ 0)) = tail :=
      scanStops found plain (.inr rfl) rest
    have at_ : load (s ++ 0::rest) ((i : Int) + tail.length) = some 0 := by
      have here := loadAfter (s.take i ++ tail) 0 rest
      rw [List.length_append,start] at here
      rw [front]
      simpa using here
    rw [stops,at_,strchrNone found]
    simp [some_.symm]

theorem strncpyFresh {src : List UInt8} {p n : Nat} (readable : 0 ∈ src.drop p ∨ p + n ≤ src.length) :
    strncpy (List.replicate (n + 1) 0) 0 src p n =
      some (cstring ((src.drop p).take n) ++
        0::List.replicate (n - (cstring ((src.drop p).take n)).length) 0) := by
  unfold strncpy
  rw [if_pos ⟨by omega,by omega,readable.imp id fun fits => by omega⟩]
  simp only [Int.toNat_natCast]
  have size : (cstring ((src.drop p).take n)).length ≤ n :=
    (List.takeWhile_prefix _).length_le.trans (List.length_take_le _ _)
  generalize cstring ((src.drop p).take n) = s at size
  refine writeExact.mpr ⟨Int.le_refl _,by simp; omega,?_⟩
  have last : n + 1 - (s.length + (n - s.length)) = 1 := by omega
  simp only [Int.toNat_zero,List.take_zero,List.nil_append,List.length_append,List.length_replicate,
    Nat.zero_add,List.drop_replicate,last,List.append_assoc,List.replicate_append_replicate]
  rfl

theorem strchrFront {b : List UInt8} {c : UInt8} {i : Int} : strchr b 0 c = some (some i) ↔
    ∃ front rest, b = front ++ c::rest ∧ c ∉ front ∧ 0 ∉ front ∧ i = front.length := by
  simp only [strchr,Int.toNat_zero,List.drop_zero,Int.zero_add,bind,Option.bind_eq_some_iff]
  constructor
  · rintro ⟨a,here,found⟩
    have whole := @List.takeWhile_append_dropWhile _ (fun a => decide (a ≠ c ∧ a ≠ 0)) b
    have before : ∀ d ∈ b.takeWhile (fun a => decide (a ≠ c ∧ a ≠ 0)), d ≠ c ∧ d ≠ 0 := fun d mem => by
      simpa using List.mem_takeWhile_imp mem
    generalize b.takeWhile (fun a => decide (a ≠ c ∧ a ≠ 0)) = front at whole before here found
    cases rest : b.dropWhile (fun a => decide (a ≠ c ∧ a ≠ 0)) with
    | nil =>
      rw [rest,List.append_nil] at whole
      rw [loadNone.mpr (by rw [whole])] at here
      cases here
    | cons d rest' =>
      rw [rest] at whole
      rw [← whole,loadAfter] at here
      cases Option.some.inj here
      by_cases same : a = c
      · subst same
        rw [if_pos rfl] at found
        cases found
        exact ⟨front,rest',whole.symm,fun mem => (before _ mem).1 rfl,fun mem => (before _ mem).2 rfl,rfl⟩
      · rw [if_neg same] at found
        cases found
  · rintro ⟨front,rest,rfl,away,noNul,rfl⟩
    rw [scanStops away noNul (.inl rfl) rest]
    exact ⟨c,loadAfter front c rest,by simp⟩

theorem snprintfHere {b : List UInt8} {size : Nat} (s : List UInt8) (some_ : 0 < size) (fits : size ≤ b.length) :
    ∃ rest, snprintf b size s = some (s.take (size - 1) ++ 0::rest) := by
  have short : (s.take (size - 1)).length ≤ size - 1 := List.length_take_le _ _
  refine ⟨b.drop ((s.take (size - 1)).length + 1),?_⟩
  unfold snprintf
  generalize s.take (size - 1) = cut at short
  exact writeExact.mpr ⟨Int.le_refl _,by simp; omega,by simp⟩

end IttyBittyServer.Memory
