import Mathlib.Data.Nat.Find
import IttyBittyServer.FieldMemory

/-! strcasestr for strings of every length: which place it returns, and when that is the
first occurrence. -/
namespace IttyBittyServer.CaseSearch
open Sockets Text Memory
open FieldMemory (matched)

def strcasestr : Option (List UInt8) → Option (List UInt8) → Option (Option Int)
  | some haystack,some needle => FieldMemory.strcasestr haystack needle
  | _,_ => some none

def Occurs (s t : List UInt8) (k : Nat) : Prop :=
  k + t.length ≤ s.length ∧ ((s.drop k).take t.length).map toupper = t.map toupper

instance (s t : List UInt8) (k : Nat) : Decidable (Occurs s t k) := inferInstanceAs (Decidable (_ ∧ _))

def Finds (s t : List UInt8) : Prop :=
  ∃ r, strcasestr (some (s ++ [0])) (some (t ++ [0])) = some r ∧
    (∀ k : Nat, r = some (k : Int) ↔ Occurs s t k ∧ ∀ j < k, ¬ Occurs s t j) ∧
    (r = none ↔ ∀ k, ¬ Occurs s t k)

def compared (t : List UInt8) : Nat := (int t.length).toNat

def Place (s t : List UInt8) (k : Nat) : Prop :=
  k ≤ s.length ∧ (k : Int) < int s.length - int t.length ∧
    ((s.drop k).take (compared t)).map toupper = (t.take (compared t)).map toupper

/-- The difference is an int, the needle lies wherever the compared bytes agree first, and
where it lies anywhere they agree at a place that is reached. -/
structure Reached (s t : List UInt8) : Prop where
  fits : -2 ^ 31 ≤ int s.length - int t.length ∧ int s.length - int t.length < 2 ^ 31
  whole : ∀ k, Place s t k → (∀ j < k, ¬ Place s t j) → Occurs s t k
  near : ∀ k, Occurs s t k → ∃ j, Place s t j

section
variable {s t : List UInt8}

theorem searchPlace {found : List UInt8 → Bool} {k : Nat} : (search found s).map (place s) = some (k : Int) ↔
    k ≤ s.length ∧ found (s.drop k) = true ∧ ∀ j < k, found (s.drop j) = false := by
  constructor
  · intro h
    obtain ⟨r,hr,index⟩ := Option.map_eq_some_iff.mp h
    obtain ⟨before,rfl,first⟩ := searchFirst hr
    have here : k = before.length := by
      simp only [place,List.length_append] at index
      omega
    subst here
    rw [List.drop_left]
    refine ⟨by simp,(searchSound hr).2,fun j earlier => ?_⟩
    rw [List.drop_append_of_le_length (Nat.le_of_lt earlier)]
    refine first (before.drop j) (fun none_ => ?_) (List.drop_suffix _ _)
    have size := congrArg List.length none_
    rw [List.length_drop,List.length_nil] at size
    omega
  · rintro ⟨within,here,first⟩
    have split := List.take_append_drop k s
    have size : (s.take k).length = k := by simp [within]
    have away : search found s = search found (s.drop k) := by
      conv_lhs => rw [← split]
      refine searchAfter fun zs nonempty suffix => ?_
      have short := suffix.length_le
      have some_ := List.length_pos_iff.mpr nonempty
      have at_ : zs ++ s.drop k = s.drop (k - zs.length) := by
        obtain ⟨pre,whole⟩ := suffix
        have count : k - zs.length = pre.length := by
          have size' := congrArg List.length whole
          rw [List.length_append,size] at size'
          omega
        conv_rhs => rw [← split,← whole,List.append_assoc,count,List.drop_left]
      rw [at_]
      exact first _ (by omega)
    rw [away,searchHere here,Option.map_some,place,List.length_drop]
    congr 1
    omega

theorem searchPlaceNone {found : List UInt8 → Bool} : search found s = none ↔ ∀ k ≤ s.length, found (s.drop k) = false := by
  rw [searchNone]
  constructor
  · exact fun away k _ => away _ (List.drop_suffix _ _)
  · rintro away r ⟨front,rfl⟩
    have here := away front.length (by simp)
    rwa [List.drop_left] at here

theorem matchedPlace {n m : Int} {k : Nat} (within : k ≤ s.length) : matched s t n m (s.drop k) = true ↔
    (k : Int) < m - n ∧ ((s.drop k).take n.toNat).map toupper = (t.take n.toNat).map toupper := by
  have index : (s.length : Int) - (s.drop k).length = k := by
    rw [List.length_drop]
    omega
  rw [matched,index,Bool.and_eq_true,decide_eq_true_iff,beq_iff_eq]

theorem placeMatched {k : Nat} (within : k ≤ s.length) :
    matched s t (int t.length) (int s.length) (s.drop k) = true ↔ Place s t k := by
  unfold Place compared
  generalize int t.length = n,int s.length = m
  rw [matchedPlace within]
  exact ⟨fun ⟨near,same⟩ => ⟨within,near,same⟩,fun ⟨_,near,same⟩ => ⟨near,same⟩⟩

theorem strcasestrPlace (noNul : 0 ∉ s) (plain : 0 ∉ t) (rest : List UInt8)
    (fits : -2 ^ 31 ≤ int s.length - int t.length ∧ int s.length - int t.length < 2 ^ 31) :
    ∃ r, strcasestr (some (s ++ 0::rest)) (some (t ++ [0])) = some r ∧
      (∀ k : Nat, r = some (k : Int) ↔ Place s t k ∧ ∀ j < k, ¬ Place s t j) ∧
      (r = none ↔ ∀ k, ¬ Place s t k) := by
  have away : ∀ k ≤ s.length, (matched s t (int t.length) (int s.length) (s.drop k) = false ↔ ¬ Place s t k) :=
    fun k within => by rw [← placeMatched within,Bool.not_eq_true]
  refine ⟨(search (matched s t (int t.length) (int s.length)) s).map (place s),?_,
    fun k => searchPlace.trans ?_,?_⟩
  · rw [strcasestr,FieldMemory.strcasestrExact noNul plain,differenceExact fits.1 fits.2]
    rfl
  · constructor
    · rintro ⟨within,here,first⟩
      exact ⟨(placeMatched within).mp here,fun j earlier => (away j (by omega)).mp (first j earlier)⟩
    · rintro ⟨here,first⟩
      exact ⟨here.1,(placeMatched here.1).mpr here,fun j earlier =>
        (away j (by have := here.1; omega)).mpr (first j earlier)⟩
  · rw [Option.map_eq_none_iff,searchPlaceNone]
    exact ⟨fun none_ k here => (away k here.1).mp (none_ k here.1) here,fun none_ k within =>
      (away k within).mpr (none_ k)⟩

theorem occurrencePlace {k : Nat} (here : Occurs s t k) (reached : (k : Int) < int s.length - int t.length) :
    Place s t k := by
  obtain ⟨within,same⟩ := here
  have short : compared t ≤ t.length := by
    have below := FieldMemory.intBelow t.length
    unfold compared
    omega
  refine ⟨by omega,reached,?_⟩
  have cut := congrArg (List.take (compared t)) same
  rwa [← List.map_take,← List.map_take,List.take_take,Nat.min_eq_left short] at cut

theorem firstPlace {p : Nat → Prop} {k : Nat} (here : p k) : ∃ j, p j ∧ ∀ i < j, ¬ p i := by
  classical
  exact ⟨Nat.find ⟨k,here⟩,Nat.find_spec ⟨k,here⟩,fun i earlier => Nat.find_min ⟨k,here⟩ earlier⟩

theorem firstReached (reached : Reached s t) (k : Nat) :
    (Place s t k ∧ ∀ j < k, ¬ Place s t j) ↔ Occurs s t k ∧ ∀ j < k, ¬ Occurs s t j := by
  constructor
  · rintro ⟨here,first⟩
    refine ⟨reached.whole k here first,fun j earlier there => first j earlier ?_⟩
    have bound := here.2.1
    exact occurrencePlace there (by omega)
  · rintro ⟨here,first⟩
    obtain ⟨j,there⟩ := reached.near k here
    obtain ⟨i,least,before⟩ := firstPlace there
    have occurs := reached.whole i least before
    have late : ¬ i < k := fun earlier => first i earlier occurs
    have bound := least.2.1
    have mine := occurrencePlace here (by omega)
    have same : i = k := Nat.le_antisymm (Nat.le_of_not_lt fun later => before k later mine) (by omega)
    exact same ▸ ⟨least,before⟩

theorem findsExact (noNul : 0 ∉ s) (plain : 0 ∉ t) : Finds s t ↔ Reached s t := by
  constructor
  · rintro ⟨r,ran,exact_,none_⟩
    have fits : -2 ^ 31 ≤ int s.length - int t.length ∧ int s.length - int t.length < 2 ^ 31 := by
      by_contra overflow
      rw [strcasestr,FieldMemory.strcasestrExact noNul plain,difference,if_neg overflow] at ran
      cases ran
    obtain ⟨r',ran',places,none_'⟩ := strcasestrPlace noNul plain [] fits
    cases Option.some.inj (ran.symm.trans ran')
    refine ⟨fits,fun k here first => ((exact_ k).mp ((places k).mpr ⟨here,first⟩)).1,fun k here => ?_⟩
    by_contra nowhere
    exact none_.mp (none_'.mpr fun j there => nowhere ⟨j,there⟩) k here
  · intro reached
    obtain ⟨r,ran,places,none_⟩ := strcasestrPlace noNul plain [] reached.fits
    refine ⟨r,ran,fun k => (places k).trans (firstReached reached k),none_.trans ?_⟩
    constructor
    · intro nowhere k here
      obtain ⟨j,there⟩ := reached.near k here
      exact nowhere j there
    · intro nowhere k here
      obtain ⟨j,least,before⟩ := firstPlace here
      exact nowhere j (reached.whole j least before)

theorem placeShort (haystack : s.length < 2 ^ 31) (needle : t.length < 2 ^ 31) (k : Nat) :
    Place s t k ↔ Occurs s t k ∧ k + t.length < s.length := by
  have hl : int s.length = s.length := intExact (by omega) (by omega)
  have nl : int t.length = t.length := intExact (by omega) (by omega)
  have all : compared t = t.length := by rw [compared,nl,Int.toNat_natCast]
  rw [Place,Occurs,hl,nl,all,List.take_length]
  exact ⟨fun ⟨within,near,same⟩ => ⟨⟨by omega,same⟩,by omega⟩,
    fun ⟨⟨within,same⟩,near⟩ => ⟨by omega,by omega,same⟩⟩

theorem fitsShort (haystack : s.length < 2 ^ 31) (needle : t.length < 2 ^ 31) :
    -2 ^ 31 ≤ int s.length - int t.length ∧ int s.length - int t.length < 2 ^ 31 := by
  have hl : int s.length = s.length := intExact (by omega) (by omega)
  have nl : int t.length = t.length := intExact (by omega) (by omega)
  omega

theorem reachedShort (haystack : s.length < 2 ^ 31) (needle : t.length < 2 ^ 31) :
    Reached s t ↔ ∀ k, Occurs s t k → ∃ j, Occurs s t j ∧ j + t.length < s.length := by
  have exact_ := placeShort haystack needle
  constructor
  · exact fun reached k here => (reached.near k here).imp fun j there => (exact_ j).mp there
  · intro near
    refine ⟨fitsShort haystack needle,fun k here _ => ((exact_ k).mp here).1,fun k here => ?_⟩
    exact (near k here).imp fun j there => (exact_ j).mpr there

theorem placeOccurs {k : Nat} (needle : t.length < 2 ^ 31) (here : Place s t k) : Occurs s t k := by
  obtain ⟨within,near,same⟩ := here
  have nl : int t.length = t.length := intExact (by omega) (by omega)
  have all : compared t = t.length := by rw [compared,nl,Int.toNat_natCast]
  have below := FieldMemory.intBelow s.length
  rw [nl] at near
  rw [all,List.take_length] at same
  exact ⟨by omega,same⟩

theorem occursPrefix {s' : List UInt8} {k : Nat} (isPrefix : s <+: s') (fits : k + t.length ≤ s.length) :
    Occurs s t k ↔ Occurs s' t k := by
  obtain ⟨rest,rfl⟩ := isPrefix
  have same : (s.drop k).take t.length = ((s ++ rest).drop k).take t.length := by
    rw [List.drop_append_of_le_length (by omega),List.take_append_of_le_length (by rw [List.length_drop]; omega)]
  rw [Occurs,Occurs,same,List.length_append]
  exact ⟨fun ⟨_,here⟩ => ⟨by omega,here⟩,fun ⟨_,here⟩ => ⟨fits,here⟩⟩

theorem foundFirst : Finds (ascii "Host: a") (ascii "hOST") :=
  (findsExact (by decide) (by decide)).mpr ((reachedShort (by decide) (by decide)).mpr fun k here =>
    ⟨0,by decide +kernel,by decide⟩)

theorem endMissed : ¬ ∀ s t : List UInt8, 0 ∉ s → 0 ∉ t → Finds s t := by
  intro finds
  obtain ⟨r,ran,_,none_⟩ := finds (ascii "a.jpg") (ascii ".jpg") (by decide) (by decide)
  have missed : strcasestr (some (ascii "a.jpg" ++ [0])) (some (ascii ".jpg" ++ [0])) = some none := by
    decide +kernel
  cases Option.some.inj (missed.symm.trans ran)
  exact none_.mp rfl 1 (by decide +kernel)

end

end IttyBittyServer.CaseSearch
