import Mathlib.Tactic.Common
import Mathlib.Algebra.Ring.Int.Defs
import Mathlib.Algebra.Ring.Nat
import Mathlib.Data.List.Basic
import Mathlib.Data.List.Infix
import Mathlib.Data.List.TakeWhile

/-! Strings of the C library as lists of bytes without their final NUL. A pointer into
a string is the suffix it points to. -/
namespace IttyBittyServer.Text

def ascii (s : String) : List UInt8 := s.toList.map Char.toUInt8

def cstring (bytes : List UInt8) : List UInt8 := bytes.takeWhile (· ≠ 0)

def search (found : List UInt8 → Bool) : List UInt8 → Option (List UInt8)
  | [] => if found [] then some [] else none
  | c::rest => if found (c::rest) then some (c::rest) else search found rest

def strstr (haystack needle : List UInt8) : Option (List UInt8) :=
  search (fun rest => needle.isPrefixOf rest) haystack

def strchr (s : List UInt8) (c : UInt8) : Option (List UInt8) :=
  search (fun rest => rest.head? == some c) s

def strrchr (s : List UInt8) (c : UInt8) : Option (List UInt8) :=
  if c ∈ s then some (c::(s.reverse.takeWhile (· ≠ c)).reverse) else none

def toupper (c : UInt8) : UInt8 := if 97 ≤ c ∧ c ≤ 122 then c - 32 else c

def tolower (c : UInt8) : UInt8 := if 65 ≤ c ∧ c ≤ 90 then c + 32 else c

def strcasecmp (s t : List UInt8) : Bool := s.map tolower == t.map tolower

def isspace (c : UInt8) : Bool := c == 32 || (9 ≤ c && c ≤ 13)

def isdigit (c : UInt8) : Bool := 48 ≤ c && c ≤ 57

def isxdigit (c : UInt8) : Bool := isdigit c || (65 ≤ c && c ≤ 70) || (97 ≤ c && c ≤ 102)

def decimal : Int → List UInt8
  | .ofNat n => (Nat.toDigits 10 n).map Char.toUInt8
  | .negSucc n => 45::(Nat.toDigits 10 (n + 1)).map Char.toUInt8

def digits (s : List UInt8) : Nat := s.foldl (fun n c => 10 * n + (c.toNat - 48)) 0

def clamp (low high n : Int) : Int := max low (min high n)

/- strtol clamps to a long, and atoi converts that to an int. -/
def atoi (s : List UInt8) : Int :=
  let s := s.dropWhile isspace
  let minus := s.head? = some 45
  let s := if s.head? = some 45 ∨ s.head? = some 43 then s.tail else s
  let n : Int := digits (s.takeWhile isdigit)
  (clamp (-2 ^ 63) (2 ^ 63 - 1) (if minus then -n else n)).bmod (2 ^ 32)

theorem searchSound {found : List UInt8 → Bool} {s r : List UInt8} (h : search found s = some r) :
    r <:+ s ∧ found r = true := by
  induction s with
  | nil =>
    simp only [search] at h
    split at h <;> cases h
    exact ⟨List.suffix_refl _,by assumption⟩
  | cons c rest ih =>
    simp only [search] at h
    split at h
    · cases h; exact ⟨List.suffix_refl _,by assumption⟩
    · obtain ⟨suffix,ok⟩ := ih h
      exact ⟨suffix.trans (List.suffix_cons _ _),ok⟩

theorem searchNone {found : List UInt8 → Bool} {s : List UInt8} :
    search found s = none ↔ ∀ r, r <:+ s → found r = false := by
  induction s with
  | nil => simp [search]
  | cons c rest ih =>
    simp only [search]
    constructor
    · intro h r hr
      split at h <;> try contradiction
      rcases List.suffix_cons_iff.mp hr with rfl | later
      · rename_i no; simpa using no
      · exact ih.mp h r later
    · intro h
      rw [if_neg (by simp [h _ (List.suffix_refl _)])]
      exact ih.mpr fun r hr => h r (hr.trans (List.suffix_cons _ _))

theorem searchFirst {found : List UInt8 → Bool} {s r : List UInt8} (h : search found s = some r) :
    ∃ before, s = before ++ r ∧ ∀ zs, zs ≠ [] → zs <:+ before → found (zs ++ r) = false := by
  induction s with
  | nil =>
    obtain ⟨before,eq⟩ := (searchSound h).1
    refine ⟨before,eq.symm,fun zs some suffix => ?_⟩
    rw [(List.append_eq_nil_iff.mp eq).1] at suffix
    exact absurd (List.suffix_nil.mp suffix) some
  | cons c rest ih =>
    by_cases here : found (c::rest) = true
    · rw [search,if_pos here] at h
      cases Option.some.inj h
      exact ⟨[],rfl,fun zs some suffix => absurd (List.suffix_nil.mp suffix) some⟩
    · rw [search,if_neg here] at h
      obtain ⟨before,rfl,first⟩ := ih h
      refine ⟨c::before,rfl,fun zs some suffix => ?_⟩
      rcases List.suffix_cons_iff.mp suffix with rfl | later
      · simpa using here
      · exact first zs some later

theorem searchHere {found : List UInt8 → Bool} {s : List UInt8} (h : found s = true) :
    search found s = some s := by
  cases s <;> simp [search,h]

theorem searchCongr {found found' : List UInt8 → Bool} {s : List UInt8}
    (same : ∀ r, r <:+ s → found r = found' r) : search found s = search found' s := by
  induction s with
  | nil => simp only [search,same [] (List.suffix_refl _)]
  | cons c rest ih =>
    simp only [search,same (c::rest) (List.suffix_refl _)]
    rw [ih fun r suffix => same r (suffix.trans (List.suffix_cons _ _))]

theorem searchAfter {found : List UInt8 → Bool} {before after : List UInt8}
    (away : ∀ zs, zs ≠ [] → zs <:+ before → found (zs ++ after) = false) :
    search found (before ++ after) = search found after := by
  induction before with
  | nil => rfl
  | cons c before ih =>
    have here := away (c::before) (List.cons_ne_nil _ _) (List.suffix_refl _)
    rw [List.cons_append] at here ⊢
    rw [search,if_neg (by simp [here])]
    exact ih fun zs some suffix => away zs some (suffix.trans (List.suffix_cons _ _))

theorem strstrAfter {before after : List UInt8} {c : UInt8} {needle : List UInt8}
    (away : c ∉ before) : strstr (before ++ after) (c::needle) = strstr after (c::needle) := by
  refine searchAfter fun zs some suffix => ?_
  cases zs with
  | nil => exact absurd rfl some
  | cons z zs =>
    have other : c ≠ z := fun same => away (suffix.subset (by simp [same]))
    simp [List.isPrefixOf,other]

theorem strstrExact {s needle r : List UInt8} : strstr s needle = some r ↔
    ∃ before after, s = before ++ r ∧ r = needle ++ after ∧
      ∀ p, p <+: before ++ needle → p ≠ before ++ needle → ¬ needle <:+ p := by
  constructor
  · intro found
    obtain ⟨before,rfl,first⟩ := searchFirst found
    obtain ⟨after,rfl⟩ := List.isPrefixOf_iff_prefix.mp (searchSound found).2
    refine ⟨before,after,rfl,rfl,fun p isPrefix shorter ends => ?_⟩
    obtain ⟨early,rfl⟩ := ends
    obtain ⟨zs,rfl⟩ : early <+: before := by
      refine List.prefix_of_prefix_length_le ((List.prefix_append _ _).trans isPrefix)
        (List.prefix_append _ _) ?_
      have size := isPrefix.length_le
      simp only [List.length_append] at size
      omega
    have some_ : zs ≠ [] := by
      rintro rfl
      simp at shorter
    have starts : needle <+: zs ++ needle :=
      (List.prefix_append_right_inj early).mp (by rw [← List.append_assoc]; exact isPrefix)
    have away := first zs some_ (List.suffix_append _ _)
    rw [← List.append_assoc,List.isPrefixOf_iff_prefix.mpr (starts.trans (List.prefix_append _ _))] at away
    cases away
  · rintro ⟨before,after,rfl,rfl,first⟩
    refine (searchAfter fun zs some_ suffix => ?_).trans (searchHere (by simp))
    refine Bool.eq_false_iff.mpr fun starts => ?_
    have starts : needle <+: zs ++ (needle ++ after) := List.isPrefixOf_iff_prefix.mp starts
    obtain ⟨early,rfl⟩ := suffix
    have inside : needle <+: zs ++ needle := by
      refine List.prefix_of_prefix_length_le starts ?_ (by simp)
      rw [← List.append_assoc]
      exact List.prefix_append _ _
    have isPrefix : early ++ needle <+: early ++ zs ++ needle := by
      rw [List.append_assoc]
      exact (List.prefix_append_right_inj early).mpr inside
    have shorter : early ++ needle ≠ early ++ zs ++ needle := by simp [some_]
    exact first _ isPrefix shorter (List.suffix_append _ _)

theorem strchrAfter {before after : List UInt8} {c : UInt8} (away : c ∉ before) :
    strchr (before ++ c::after) c = some (c::after) := by
  refine (searchAfter fun zs some suffix => ?_).trans (searchHere (by simp))
  cases zs with
  | nil => exact absurd rfl some
  | cons z zs =>
    have other : z ≠ c := fun same => away (suffix.subset (by simp [same]))
    simpa using other

theorem strchrNone {s : List UInt8} {c : UInt8} (away : c ∉ s) : strchr s c = none := by
  refine searchNone.mpr fun r suffix => ?_
  cases r with
  | nil => rfl
  | cons a r =>
    have other : a ≠ c := fun same => away (suffix.subset (by simp [same]))
    simpa using other

theorem wordExact {s : List UInt8} {c : UInt8} (away : c ∉ s) : s.takeWhile (· ≠ c) = s :=
  List.takeWhile_eq_self_iff.mpr fun a mem => by
    have other : a ≠ c := fun same => away (same ▸ mem)
    simpa using other

theorem wordEnds (b rest : List UInt8) (c : UInt8) : (b ++ c::rest).takeWhile (· ≠ c) = b.takeWhile (· ≠ c) := by
  rw [List.takeWhile_append]
  split
  · rename_i all
    rw [(List.takeWhile_prefix _).eq_of_length all]
    simp
  · rfl

theorem cstringExact {s : List UInt8} (noNul : 0 ∉ s) : cstring s = s := wordExact noNul

theorem cstringNoNul (s : List UInt8) : 0 ∉ cstring s := fun mem => by
  simpa using List.mem_takeWhile_imp mem

theorem cstringAppend {s : List UInt8} (noNul : 0 ∉ s) (rest : List UInt8) :
    cstring (s ++ rest) = s ++ cstring rest :=
  List.takeWhile_append_of_pos fun c mem => by
    have other : c ≠ 0 := fun zero => noNul (zero ▸ mem)
    simpa using other

theorem toupperColon {c : UInt8} (colon : toupper c = 58) : c = 58 := by
  unfold toupper at colon
  split at colon
  · rename_i lower
    obtain ⟨low,high⟩ := lower
    have low : 97 ≤ c.toNat := UInt8.le_iff_toNat_le.mp low
    have high : c.toNat ≤ 122 := UInt8.le_iff_toNat_le.mp high
    have size := congrArg UInt8.toNat colon
    rw [UInt8.toNat_sub_of_le _ _ (UInt8.le_iff_toNat_le.mpr (by change 32 ≤ c.toNat; omega))] at size
    change c.toNat - 32 = 58 at size
    omega
  · exact colon

theorem cstringEnds (s rest : List UInt8) : ∃ more, s ++ 0::rest = cstring s ++ 0::more := by
  induction s with
  | nil => exact ⟨rest,rfl⟩
  | cons c s ih =>
    by_cases zero : c = 0
    · exact ⟨s ++ 0::rest,by simp [cstring,zero]⟩
    · exact ih.imp fun more same => by simpa [cstring,zero] using same

theorem digitByte {c : Char} (h : c.isDigit = true) :
    isdigit c.toUInt8 = true ∧ c.toUInt8.toNat = c.toNat := by
  simp only [Char.isDigit,Bool.and_eq_true,decide_eq_true_eq,ge_iff_le] at h
  obtain ⟨low,high⟩ := h
  have low : 48 ≤ c.toNat := low
  have high : c.toNat ≤ 57 := high
  have same : c.toUInt8.toNat = c.toNat := by
    change (c.val.toUInt8).toNat = c.val.toNat
    rw [UInt32.toNat_toUInt8,Nat.mod_eq_of_lt]
    exact Nat.lt_of_le_of_lt high (by decide)
  refine ⟨?_,same⟩
  simp only [isdigit,Bool.and_eq_true,decide_eq_true_eq,UInt8.le_iff_toNat_le,same]
  exact ⟨low,high⟩

theorem decimalDigits (n : Nat) : ∀ c ∈ decimal n, isdigit c = true := by
  intro c hc
  obtain ⟨d,hd,rfl⟩ := List.mem_map.mp hc
  exact (digitByte (Nat.isDigit_of_mem_toDigits (by decide) (by decide) hd)).1

theorem decimalValue (n : Nat) : digits (decimal n) = n := by
  have exact : ∀ (cs : List Char) (init : Nat), (∀ c ∈ cs, c.isDigit = true) →
      (cs.map Char.toUInt8).foldl (fun n c => 10 * n + (c.toNat - 48)) init =
        Nat.ofDigitChars 10 cs init := by
    intro cs
    induction cs with
    | nil => simp
    | cons c cs ih =>
      intro init h
      rw [List.map_cons,List.foldl_cons,ih _ fun d hd => h d (by simp [hd]),Nat.ofDigitChars_cons,
        (digitByte (h c (by simp))).2]
      rfl
  exact (exact _ 0 fun c hc => Nat.isDigit_of_mem_toDigits (by decide) (by decide) hc).trans
    Nat.ofDigitChars_ten_toDigits

theorem decimalNonempty (n : Nat) : decimal n ≠ [] := by
  simp [decimal]

theorem atoiDigits {ds rest : List UInt8} (nonempty : ds ≠ []) (all : ∀ c ∈ ds, isdigit c = true)
    (bound : digits ds < 2 ^ 31) (ends : ∀ c ∈ rest.head?, isdigit c = false) :
    atoi (ds ++ rest) = digits ds := by
  obtain ⟨d,ds',hd⟩ := List.exists_cons_of_ne_nil nonempty
  have first : isdigit d = true := all d (by simp [hd])
  have notSpace : isspace d = false := by
    simp only [isdigit,Bool.and_eq_true,decide_eq_true_eq,UInt8.le_iff_toNat_le] at first
    have digit : 48 ≤ d.toNat := first.1
    have notBlank : d ≠ 32 := by rintro rfl; simp at digit
    have above : ¬ d ≤ 13 := by rw [UInt8.le_iff_toNat_le]; change ¬ d.toNat ≤ 13; omega
    simp [isspace,notBlank,above]
  have skip : (ds ++ rest).dropWhile isspace = ds ++ rest := by
    simp [hd,notSpace]
  have sign : d ≠ 45 ∧ d ≠ 43 := by
    constructor <;> rintro rfl <;> simp [isdigit] at first
  have taken : (ds ++ rest).takeWhile isdigit = ds := by
    rw [List.takeWhile_append_of_pos all]
    cases rest with
    | nil => simp
    | cons c rest => simp [ends c (by simp)]
  have unsigned : ¬ ((ds ++ rest).head? = some 45 ∨ (ds ++ rest).head? = some 43) := by
    simp [hd,sign]
  simp only [atoi,skip,unsigned,if_false,taken]
  rw [if_neg (fun h => unsigned (Or.inl h)),clamp]
  rw [Int.bmod_eq_of_le] <;> omega

theorem atoiDecimal {n : Nat} (bound : n < 2 ^ 31) {rest : List UInt8}
    (ends : ∀ c ∈ rest.head?, isdigit c = false) : atoi (decimal n ++ rest) = n := by
  have value := decimalValue n
  rw [atoiDigits (decimalNonempty n) (decimalDigits n) (by rw [value]; exact bound) ends,value]

theorem atoiBlank {c : UInt8} (begun : isspace c = false) (s rest : List UInt8) :
    atoi (c::s ++ 32::rest) = atoi (c::s) := by
  have until_ : ∀ s : List UInt8, (s ++ 32::rest).takeWhile isdigit = s.takeWhile isdigit := fun s => by
    have blank : isdigit 32 = false := by decide
    induction s with
    | nil => simp [blank]
    | cons c s ih => simp only [List.cons_append,List.takeWhile_cons,ih]
  have skip : ∀ s, (c::s).dropWhile isspace = c::s := fun s =>
    List.dropWhile_cons_of_neg (by simp [begun])
  simp only [atoi,List.cons_append,skip,List.head?_cons,List.tail_cons]
  by_cases signed : some c = some 45 ∨ some c = some 43
  · rw [if_pos signed,if_pos signed,until_ s]
  · rw [if_neg signed,if_neg signed,← List.cons_append,until_ (c::s)]

theorem splitsOnce {sep : UInt8} {xs ys zs ws : List UInt8} (left : sep ∉ xs) (right : sep ∉ ys)
    (h : xs ++ sep::zs = ys ++ sep::ws) : xs = ys := by
  rw [← wordExact left,← wordEnds xs zs sep,h,wordEnds,wordExact right]

theorem componentExact {sep : UInt8} {word s : List UInt8} (plain : sep ∉ word) :
    word ∈ s.splitOn sep ↔ sep::(word ++ [sep]) <:+: sep::(s ++ [sep]) := by
  by_cases more : sep ∈ s
  · obtain ⟨first,rest,rfl,away⟩ := List.eq_append_cons_of_mem more
    have ih : word ∈ rest.splitOn sep ↔ _ := componentExact plain
    rw [List.splitOn_append_cons_self_of_not_mem away,List.mem_cons,ih]
    constructor
    · rintro (rfl | later)
      · exact ⟨[],rest ++ [sep],by simp⟩
      · exact later.trans ⟨sep::first,[],by simp⟩
    · rintro ⟨pre,post,eq⟩
      cases pre with
      | nil => exact Or.inl (splitsOnce plain away (by simpa using eq))
      | cons c pre =>
        have inside : pre ++ sep::(word ++ [sep] ++ post) = first ++ sep::(rest ++ [sep]) := by
          simpa using (List.cons.inj eq).2
        refine Or.inr ?_
        rcases List.append_eq_append_iff.mp inside with ⟨as,split,same⟩ | ⟨bs,_,same⟩
        · cases as with
          | nil => exact ⟨[],post,by simpa using same⟩
          | cons b as => exact absurd (by simp [split,(List.cons.inj same).1]) away
        · exact ⟨bs,post,by simpa using same.symm⟩
  · rw [List.splitOn_eq_singleton more,List.mem_singleton]
    constructor
    · rintro rfl; exact List.infix_refl _
    · rintro ⟨pre,post,eq⟩
      cases pre with
      | nil => exact splitsOnce plain more (by simpa using eq)
      | cons c pre =>
        have count := congrArg (List.count sep) (List.cons.inj eq).2
        simp [List.count_eq_zero.mpr more] at count
        omega
termination_by s.length
decreasing_by subst_vars; simp; omega

end IttyBittyServer.Text
