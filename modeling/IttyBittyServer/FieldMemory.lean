import IttyBittyServer.Memory
import IttyBittyServer.Header

/-! getHeaderField and strcasestr on the objects that they read and write: the header, the
field's name with its final NUL, the copy that is searched and the value that is returned. -/
namespace IttyBittyServer.FieldMemory
open Sockets Text Memory
open Header (eol)

def matchLoop (haystack needle : List UInt8) (i j : Nat) : Nat → Option Bool
  | 0 => some true
  | left + 1 => do
    let ch1 ← load haystack (i + j)
    let ch2 ← load needle j
    if toupper ch1 ≠ toupper ch2 then some false else matchLoop haystack needle i (j + 1) left

def searchLoop (haystack needle : List UInt8) (needleLength i : Nat) : Nat → Option (Option Int)
  | 0 => some none
  | left + 1 => do
    if ← matchLoop haystack needle i 0 needleLength then some (some i)
    else searchLoop haystack needle needleLength (i + 1) left

def strcasestr (haystack needle : List UInt8) : Option (Option Int) := do
  let needleLength := int (← strlen needle 0)
  let haystackLength := int (← strlen haystack 0)
  let last ← difference haystackLength needleLength
  searchLoop haystack needle needleLength.toNat 0 last.toNat

def skipBlanks (b : List UInt8) (toFind : Int) : Nat → Option Int
  | 0 => none
  | left + 1 => do
    let c ← load b toFind
    if c = 32 then skipBlanks b (toFind + 1) left else some toFind

/- A value that begins behind its line's end has a size beyond PTRDIFF_MAX. -/
def copyValue (toSearch : List UInt8) (toFind endOfLine : Int) : Option (Option (List UInt8)) :=
  match calloc (endOfLine - toFind + 1) with
  | none => some none
  | some retVal => do
    let retVal ← strncpy retVal 0 toSearch toFind (endOfLine - toFind)
    some (some retVal)

def fieldValue (toSearch : List UInt8) (toFind : Int) : Option (Option (List UInt8)) := do
  match ← strstr toSearch toFind eol with
  | none => some none
  | some endOfLine =>
    match ← strchr toSearch toFind 58 with
    | none => some none
    | some colon =>
      let toFind ← skipBlanks toSearch (colon + 1) toSearch.length
      copyValue toSearch toFind endOfLine

def searchField (toSearch field : List UInt8) : Option (Option (List UInt8)) := do
  match ← strcasestr toSearch field with
  | none => some none
  | some toFind => fieldValue toSearch toFind

def getHeaderField (header : List UInt8) (headerLength : Int) (field : List UInt8) :
    Option (Option (List UInt8)) :=
  match calloc (headerLength + 1) with
  | none => some none
  | some toSearch => do
    let toSearch ← strncpy toSearch 0 header 0 headerLength
    searchField toSearch field

section
variable {s field : List UInt8}

theorem matchExact (s field rest more : List UInt8) {i j left : Nat} (inside : i + j + left ≤ s.length)
    (short : j + left ≤ field.length) : matchLoop (s ++ rest) (field ++ more) i j left =
      some (((s.drop (i + j)).take left).map toupper == ((field.drop j).take left).map toupper) := by
  induction left generalizing j with
  | zero => simp [matchLoop]
  | succ left ih =>
    have here : load (s ++ rest) ((i : Int) + j) = some s[i + j] :=
      loadFront rest (show i + j < s.length by omega)
    have there : load (field ++ more) (j : Int) = some field[j] :=
      loadFront more (show j < field.length by omega)
    have next := @ih (j + 1) (by omega) (by omega)
    rw [matchLoop,here,there,List.drop_eq_getElem_cons (show i + j < s.length by omega),
      List.drop_eq_getElem_cons (show j < field.length by omega)]
    simp only [bind,Option.bind_some,next,List.take_succ_cons,List.map_cons,List.cons_beq_cons]
    by_cases same : toupper s[i + j] = toupper field[j]
    · rw [if_neg (not_not.mpr same),Nat.add_assoc,same,beq_self_eq_true,Bool.true_and]
    · rw [if_pos same,beq_false_of_ne same,Bool.false_and]

def foundBefore (s field : List UInt8) (n stop : Nat) (r : List UInt8) : Bool :=
  s.length < stop + r.length && (r.take n).map toupper == (field.take n).map toupper

theorem searchLoopExact (s field rest more : List UInt8) {n i left : Nat} (within : i ≤ s.length)
    (inside : n = 0 ∨ left = 0 ∨ i + left + n ≤ s.length) (short : n ≤ field.length) :
    searchLoop (s ++ rest) (field ++ more) n i left =
      some ((search (foundBefore s field n (i + left)) (s.drop i)).map (place s)) := by
  induction left generalizing i with
  | zero =>
    have none_ : search (foundBefore s field n (i + 0)) (s.drop i) = none := by
      refine searchNone.mpr fun r suffix => ?_
      have size := suffix.length_le
      rw [List.length_drop] at size
      have far : ¬ s.length < i + r.length := by omega
      simp only [foundBefore,Nat.add_zero,decide_eq_false far,Bool.false_and]
    rw [searchLoop,none_]
    rfl
  | succ left ih =>
    have fits : i + 0 + n ≤ s.length := by omega
    rw [searchLoop,matchExact s field rest more fits (by simpa using short)]
    simp only [bind,Option.bind_some,Nat.add_zero,List.drop_zero]
    split
    · rename_i same
      have found : foundBefore s field n (i + (left + 1)) (s.drop i) = true := by
        have near : s.length < i + (left + 1) + (s.drop i).length := by simp; omega
        simp only [foundBefore,near,decide_true,Bool.true_and]
        exact same
      rw [searchHere found]
      simp [place]
      omega
    · rename_i other
      have some_ : n ≠ 0 := fun zero => other (by simp [zero])
      have here : foundBefore s field n (i + (left + 1)) (s.drop i) = false := by
        simp only [foundBefore,Bool.and_eq_false_iff]
        exact .inr (by simpa using other)
      have next := @ih (i + 1) (by omega) (by omega)
      have stop : i + 1 + left = i + (left + 1) := by omega
      rw [next,stop]
      rw [List.drop_eq_getElem_cons (show i < s.length by omega)] at here ⊢
      rw [search,if_neg (Bool.eq_false_iff.mp here)]

theorem intBelow (n : Nat) : int n ≤ n := by
  simp only [int,Int.bmod]
  split <;> omega

def matched (s field : List UInt8) (needleLength haystackLength : Int) (r : List UInt8) : Bool :=
  (s.length : Int) - r.length < haystackLength - needleLength &&
    (r.take needleLength.toNat).map toupper == (field.take needleLength.toNat).map toupper

theorem matchedName {needleLength haystackLength : Int} {r : List UInt8}
    (found : matched s field needleLength haystackLength r = true) :
    (r.take needleLength.toNat).map toupper = (field.take needleLength.toNat).map toupper :=
  beq_iff_eq.mp (Bool.and_eq_true_iff.mp found).2

theorem matchedLoop {needleLength haystackLength : Int} (rest more : List UInt8)
    (below : haystackLength ≤ s.length) (short : needleLength ≤ field.length) :
    searchLoop (s ++ rest) (field ++ more) needleLength.toNat 0 (haystackLength - needleLength).toNat =
      some ((search (matched s field needleLength haystackLength) s).map (place s)) := by
  rw [searchLoopExact s field _ _ (Nat.zero_le _) (by omega) (by omega),List.drop_zero]
  refine congrArg (fun found => some (Option.map (place s) found)) (searchCongr fun r suffix => ?_)
  have size := suffix.length_le
  have same : s.length < 0 + (haystackLength - needleLength).toNat + r.length ↔
      (s.length : Int) - r.length < haystackLength - needleLength := by omega
  rw [foundBefore,matched,decide_eq_decide.mpr same]

def reached (s field : List UInt8) : List UInt8 → Bool :=
  matched s field (int field.length) (int s.length)

theorem strcasestrLengths {haystack needle : List UInt8} {n m : Int} (needleLength : strlen needle 0 = some n)
    (haystackLength : strlen haystack 0 = some m) : strcasestr haystack needle =
      (difference (int m) (int n)).bind fun last => searchLoop haystack needle (int n).toNat 0 last.toNat := by
  simp only [strcasestr,needleLength,haystackLength,bind,Option.bind_some]

theorem differenceOf {a b last : Int} (h : difference a b = some last) : last = a - b := by
  unfold difference at h
  split at h <;> cases h
  rfl

theorem strcasestrExact (noNul : 0 ∉ s) (plain : 0 ∉ field) (rest : List UInt8) :
    strcasestr (s ++ 0::rest) (field ++ [0]) =
      (difference (int s.length) (int field.length)).map fun _ => (search (reached s field) s).map (place s) := by
  have needleLength : strlen (field ++ [0]) 0 = some (field.length : Int) := by
    simpa using strlenHere plain [] (Nat.zero_le _)
  have haystackLength : strlen (s ++ 0::rest) 0 = some (s.length : Int) := by
    simpa using strlenHere noNul rest (Nat.zero_le _)
  rw [strcasestrLengths needleLength haystackLength]
  cases fits : difference (int s.length) (int field.length) with
  | none => rfl
  | some last =>
    rw [differenceOf fits,Option.bind_some,Option.map_some]
    exact @matchedLoop s field (int field.length) (int s.length) (0::rest) [0] (intBelow _) (intBelow _)

theorem reachedShort (short : field.length < 2 ^ 31) :
    (difference (int s.length) (int field.length)).map (fun _ => search (reached s field) s) =
      Header.strcasestr s field := by
  have same : int field.length = field.length := intExact (by omega) (by omega)
  rw [Header.strcasestr,same]
  cases difference (int s.length) field.length with
  | none => rfl
  | some last =>
    refine congrArg some (searchCongr fun r suffix => ?_)
    rw [reached,same]
    generalize int s.length = haystackLength
    have near : (s.length : Int) - r.length < haystackLength - field.length ↔
        (s.length : Int) - haystackLength + field.length < r.length := by omega
    rw [matched,Header.matchesAt,decide_eq_decide.mpr near,Int.toNat_natCast,List.take_length]

theorem skipBlanksExact (pre v rest : List UInt8) {left : Nat} (enough : v.length < left) :
    skipBlanks (pre ++ (v ++ 0::rest)) pre.length left =
      some (pre.length + (v.takeWhile (· == 32)).length) := by
  induction v generalizing pre left with
  | nil =>
    obtain ⟨left,rfl⟩ := Nat.exists_eq_succ_of_ne_zero (Nat.ne_of_gt enough)
    rw [skipBlanks,List.nil_append,loadAfter]
    simp
  | cons c v ih =>
    obtain ⟨left,rfl⟩ := Nat.exists_eq_succ_of_ne_zero (Nat.ne_of_gt (Nat.lt_of_le_of_lt (Nat.zero_le _) enough))
    rw [skipBlanks,List.cons_append,loadAfter]
    simp only [bind,Option.bind_some]
    by_cases blank : c = 32
    · have next := @ih (pre ++ [c]) left (by simpa using enough)
      simp only [List.append_assoc,List.singleton_append,List.length_append,List.length_singleton,
        Int.natCast_add,Int.natCast_one] at next
      rw [if_pos blank,next]
      simp [blank]
      omega
    · simp [blank]

theorem valueApart {c e : List UInt8} (colon : 58::c <:+ s) (endOfLine : e <:+ s) (starts : e.head? = some 13) :
    (c.dropWhile (· == 32)).length + 1 ≠ e.length := by
  intro size
  have split : 58::c = (58::c.takeWhile (· == 32)) ++ c.dropWhile (· == 32) := by simp
  obtain ⟨front,last,ends⟩ := List.eq_nil_or_concat (58::c.takeWhile (· == 32)) |>.resolve_left (by simp)
  have before : last = 58 ∨ last = 32 := by
    have mem : last ∈ 58::c.takeWhile (· == 32) := by simp [ends]
    exact (List.mem_cons.mp mem).imp id fun blank => by simpa using List.mem_takeWhile_imp blank
  have suffix : last::c.dropWhile (· == 32) <:+ s :=
    List.IsSuffix.trans ⟨front,by rw [split,ends]; simp⟩ colon
  have same : e = last::c.dropWhile (· == 32) :=
    (List.suffix_of_suffix_length_le endOfLine suffix (by simp; omega)).eq_of_length (by simp; omega)
  rw [same] at starts
  rcases before with rfl | rfl <;> cases starts

theorem blanksBehind (front c rest : List UInt8) :
    skipBlanks (front ++ 58::c ++ 0::rest) (place (front ++ 58::c) (58::c) + 1)
      (front ++ 58::c ++ 0::rest).length = some (place (front ++ 58::c) (c.dropWhile (· == 32))) := by
  have here := @skipBlanksExact (front ++ [58]) c rest (front ++ 58::c ++ 0::rest).length (by simp; omega)
  have whole : front ++ [58] ++ (c ++ 0::rest) = front ++ 58::c ++ 0::rest := by simp
  have index : ((front ++ [58]).length : Int) = place (front ++ 58::c) (58::c) + 1 := by simp [place]
  have size := congrArg List.length (@List.takeWhile_append_dropWhile _ (· == 32) c)
  rw [List.length_append] at size
  rw [whole,index] at here
  rw [here]
  refine congrArg some ?_
  simp only [place,List.length_append,List.length_cons,List.length_nil]
  omega

theorem copyValueExact {v e : List UInt8} (noNul : 0 ∉ s) (rest : List UInt8) (room : s.length < 2 ^ 63 - 1)
    (suffix : v <:+ s) (apart : v.length + 1 ≠ e.length) : copyValue (s ++ 0::rest) (place s v) (place s e) =
      some ((if v.length < e.length then none else some (v.take (v.length - e.length))).map
        fun value => value ++ [0]) := by
  have size := suffix.length_le
  have count : place s e - place s v = (v.length : Int) - e.length := by
    unfold place
    omega
  unfold copyValue
  rw [count]
  by_cases behind : v.length < e.length
  · have negative : calloc ((v.length : Int) - e.length + 1) = none := by
      unfold calloc
      rw [if_neg (by omega)]
    rw [negative,if_pos behind]
    rfl
  · obtain ⟨n,hn⟩ : ∃ n, v.length = e.length + n := ⟨v.length - e.length,by omega⟩
    obtain ⟨front,rfl⟩ := suffix
    have plain : 0 ∉ v := fun mem => noNul (List.mem_append_right _ mem)
    have fresh : calloc ((v.length : Int) - e.length + 1) = some (List.replicate (n + 1) 0) := by
      unfold calloc
      rw [if_pos (by omega)]
      congr 2
      omega
    have index : place (front ++ v) v = front.length := by simp [place]
    have cut : (v.length : Int) - e.length = n := by omega
    have tail : (front ++ v ++ 0::rest).drop front.length = v ++ 0::rest := by
      rw [List.append_assoc,List.drop_left]
    have taken : cstring (((front ++ v ++ 0::rest).drop front.length).take n) = v.take n := by
      rw [tail,List.take_append_of_le_length (by omega)]
      exact cstringExact fun mem => plain (List.mem_of_mem_take mem)
    have copied := @strncpyFresh (front ++ v ++ 0::rest) front.length n (.inl (by rw [tail]; simp))
    have all : v.length - e.length = n := by omega
    have none_ : n - min n v.length = 0 := by omega
    rw [taken] at copied
    rw [fresh,if_neg behind,index,cut]
    simp only [copied,all,bind,Option.bind_some,Option.map_some,List.length_take,none_]
    rfl

theorem fieldValueExact (noNul : 0 ∉ s) (rest : List UInt8) (room : s.length < 2 ^ 63 - 1) {i : Nat}
    (inside : i ≤ s.length) : fieldValue (s ++ 0::rest) i =
      some ((Header.valueOf (s.drop i)).map fun value => value ++ [0]) := by
  unfold fieldValue Header.valueOf
  rw [strstrHere noNul rest eol inside]
  cases he : Text.strstr (s.drop i) eol with
  | none => rfl
  | some e =>
    have colons := strchrHere noNul rest (by decide : (58 : UInt8) ≠ 0) inside
    simp only [Option.map_some,bind,Option.bind_some,colons]
    cases hc : Text.strchr (s.drop i) 58 with
    | none => rfl
    | some c =>
      obtain ⟨suffix,starts⟩ := searchSound he
      obtain ⟨suffix',first⟩ := searchSound hc
      obtain ⟨c,rfl⟩ : ∃ c', c = 58::c' := by
        cases c with
        | nil => simp at first
        | cons a c => exact ⟨c,by simpa using first⟩
      have endOfLine : e <:+ s := suffix.trans (List.drop_suffix _ _)
      have colon : 58::c <:+ s := suffix'.trans (List.drop_suffix _ _)
      have cr : e.head? = some 13 := by
        obtain ⟨after,rfl⟩ := List.isPrefixOf_iff_prefix.mp starts
        rfl
      have behind : c.dropWhile (· == 32) <:+ s :=
        (List.dropWhile_suffix _).trans ((List.suffix_cons 58 c).trans colon)
      have copied := copyValueExact noNul rest room behind (valueApart colon endOfLine cr)
      obtain ⟨front,rfl⟩ := colon
      simp only [Option.map_some,Option.bind_some,blanksBehind,copied,List.tail_cons]
      rfl

theorem searchFieldExact (noNul : 0 ∉ s) (plain : 0 ∉ field) (rest : List UInt8) (room : s.length < 2 ^ 63 - 1) :
    searchField (s ++ 0::rest) (field ++ [0]) =
      (difference (int s.length) (int field.length)).map fun _ =>
        ((search (reached s field) s).bind Header.valueOf).map fun value => value ++ [0] := by
  rw [searchField,strcasestrExact noNul plain]
  have sound := @searchSound (reached s field) s
  generalize search (reached s field) s = found at sound
  cases difference (int s.length) (int field.length) with
  | none => rfl
  | some last =>
    cases found with
    | none => rfl
    | some toFind =>
      obtain ⟨front,rfl⟩ := (sound rfl).1
      have index : place (front ++ toFind) toFind = front.length := by simp [place]
      have value := @fieldValueExact _ noNul rest room front.length (by simp)
      rw [List.drop_left] at value
      simp only [Option.map_some,index,bind,Option.bind_some,value]

theorem copiedField {header copy fresh : List UInt8} {n : Int} (room : calloc (n + 1) = some fresh)
    (copied : strncpy fresh 0 header 0 n = some copy) :
    getHeaderField header n field = searchField copy field := by
  simp only [getHeaderField,room,copied,bind,Option.bind_some]

theorem getHeaderFieldExact {header : List UInt8} (plain : 0 ∉ field) (room : header.length < 2 ^ 63 - 1) :
    getHeaderField header header.length (field ++ [0]) =
      (difference (int (cstring header).length) (int field.length)).map fun _ =>
        ((search (reached (cstring header) field) (cstring header)).bind Header.valueOf).map
          fun value => value ++ [0] := by
  have fresh : calloc ((header.length : Int) + 1) = some (List.replicate (header.length + 1) 0) := by
    unfold calloc
    rw [if_pos (by omega)]
    congr 2
  have noNul := cstringNoNul header
  have size : (cstring header).length ≤ header.length := (List.takeWhile_prefix _).length_le
  have copied := @strncpyFresh header 0 header.length (.inr (by omega))
  simp only [List.drop_zero,List.take_length,Nat.cast_zero] at copied
  rw [copiedField fresh copied]
  exact @searchFieldExact _ _ noNul plain (List.replicate (header.length - (cstring header).length) 0)
    (by omega)

theorem getHeaderFieldHuge {header : List UInt8} (huge : ¬ header.length < 2 ^ 63 - 1) :
    getHeaderField header header.length field = some none := by
  have none_ : calloc ((header.length : Int) + 1) = none := by
    unfold calloc
    rw [if_neg (by omega)]
  rw [getHeaderField,none_]

theorem fieldRefined {header : List UInt8} (plain : 0 ∉ field) (short : field.length < 2 ^ 31)
    (room : header.length < 2 ^ 63 - 1) : getHeaderField header header.length (field ++ [0]) =
      (Header.getHeaderField header field).map fun retVal => retVal.map fun value => value ++ [0] := by
  rw [getHeaderFieldExact plain room,Header.getHeaderFieldExact,← reachedShort short,Option.map_map,Option.map_map]
  rfl

theorem getHeaderFieldObject {header : List UInt8} {retVal : Option (List UInt8)} (plain : 0 ∉ field)
    (found : getHeaderField header header.length (field ++ [0]) = some retVal) :
    ∃ value : Option (List UInt8), retVal = value.map fun value => value ++ [0] := by
  by_cases room : header.length < 2 ^ 63 - 1
  · rw [getHeaderFieldExact plain room] at found
    obtain ⟨_,_,same⟩ := Option.map_eq_some_iff.mp found
    exact ⟨_,same.symm⟩
  · rw [getHeaderFieldHuge room] at found
    exact ⟨none,(Option.some.inj found).symm⟩

theorem objectFound {header object : List UInt8} (plain : 0 ∉ field) (short : field.length < 2 ^ 31)
    (found : getHeaderField header header.length (field ++ [0]) = some (some object)) :
    ∃ value, object = value ++ [0] ∧ 0 ∉ value ∧ header.length < 2 ^ 63 - 1 ∧
      Header.getHeaderField header field = some (some value) := by
  by_cases room : header.length < 2 ^ 63 - 1
  · rw [fieldRefined plain short room] at found
    obtain ⟨retVal,extracted,same⟩ := Option.map_eq_some_iff.mp found
    obtain ⟨value,rfl,rfl⟩ := Option.map_eq_some_iff.mp same
    exact ⟨value,rfl,Header.valueNoNul extracted,room,extracted⟩
  · rw [getHeaderFieldHuge room] at found
    cases found

/-- No access outside an object, and a value that is a slice of the header: behind the name,
a colon and blanks, up to the first end of a line. -/
def Extracts (header field : List UInt8) : Prop :=
  ∃ retVal, getHeaderField header header.length (field ++ [0]) = some retVal ∧
    ∀ object ∈ retVal, ∃ before name between blanks value after, object = value ++ [0] ∧
      header = before ++ (name ++ between ++ 58::(List.replicate blanks 32 ++ value)) ++ eol ++ after ∧
      name.map toupper = (field.take (int field.length).toNat).map toupper ∧
      ¬ eol <:+: name ++ between ++ 58::(List.replicate blanks 32 ++ value) ∧
      value.head? ≠ some 32 ∧ 0 ∉ value

/- The copy is refused, or the two lengths have as ints a difference that is an int. -/
def Measured (header field : List UInt8) : Prop :=
  2 ^ 63 - 1 ≤ header.length ∨
    -2 ^ 31 ≤ int (cstring header).length - int field.length ∧
      int (cstring header).length - int field.length < 2 ^ 31

instance (header field : List UInt8) : Decidable (Measured header field) := inferInstanceAs (Decidable (_ ∨ _))

theorem measuredExact {header : List UInt8} (plain : 0 ∉ field) :
    (∃ retVal, getHeaderField header header.length (field ++ [0]) = some retVal) ↔ Measured header field := by
  by_cases room : header.length < 2 ^ 63 - 1
  · rw [getHeaderFieldExact plain room,Measured,or_iff_right (by omega),difference]
    split
    · exact iff_of_true ⟨_,rfl⟩ (by assumption)
    · refine iff_of_false (fun ran => ?_) (by assumption)
      obtain ⟨_,ran⟩ := ran
      cases ran
  · exact iff_of_true ⟨none,getHeaderFieldHuge room⟩ (.inl (by omega))

theorem foundExtracts {header : List UInt8} (noColon : 58 ∉ field) {value : List UInt8}
    (found : (search (reached (cstring header) field) (cstring header)).bind Header.valueOf = some value) :
    ∃ before name between blanks after,
      header = before ++ (name ++ between ++ 58::(List.replicate blanks 32 ++ value)) ++ eol ++ after ∧
      name.map toupper = (field.take (int field.length).toNat).map toupper ∧
      ¬ eol <:+: name ++ between ++ 58::(List.replicate blanks 32 ++ value) ∧
      value.head? ≠ some 32 ∧ 0 ∉ value := by
  obtain ⟨toFind,found,extracted⟩ := Option.bind_eq_some_iff.mp found
  obtain ⟨⟨before,isSuffix⟩,content⟩ := searchSound found
  obtain ⟨front,blanks,after,rfl,away,noEol,noBlank⟩ := Header.valueSound extracted
  obtain ⟨rest,whole⟩ : cstring header <+: header := List.takeWhile_prefix _
  have noNul := cstringNoNul header
  have same := @matchedName (cstring header) field (int field.length) (int (cstring header).length) _ content
  generalize (int field.length).toNat = n at same ⊢
  -- the name has no colon, and so it lies in front of the first one
  have away : 58 ∉ field.take n := fun mem => noColon (List.mem_of_mem_take mem)
  have short : n ≤ front.length := by
    rw [List.append_assoc,List.append_assoc] at same
    exact Header.colonBehind away same
  have named : (front ++ 58::(List.replicate blanks 32 ++ value) ++ eol ++ after).take n = front.take n := by
    rw [List.append_assoc,List.append_assoc,List.take_append_of_le_length short]
  rw [named] at same
  refine ⟨before,front.take n,front.drop n,blanks,after ++ rest,?_,same,?_,noBlank,?_⟩
  · rw [List.take_append_drop,← whole,← isSuffix]
    simp
  · rw [List.take_append_drop]
    exact noEol
  · intro mem
    refine noNul ?_
    rw [← isSuffix]
    simp [mem]

/-- The extraction is safe on every header and field but those whose lengths' difference
overflows. -/
theorem getHeaderFieldSafe {header field : List UInt8} (plain : 0 ∉ field) (noColon : 58 ∉ field) :
    Extracts header field ↔ Measured header field := by
  refine ⟨fun ⟨retVal,ran,_⟩ => (measuredExact plain).mp ⟨retVal,ran⟩,fun measured => ?_⟩
  obtain ⟨retVal,ran⟩ := (measuredExact plain).mpr measured
  refine ⟨retVal,ran,fun object mem => ?_⟩
  by_cases room : header.length < 2 ^ 63 - 1
  · rw [getHeaderFieldExact plain room] at ran
    obtain ⟨_,_,rfl⟩ := Option.map_eq_some_iff.mp ran
    obtain ⟨value,found,rfl⟩ := Option.map_eq_some_iff.mp mem
    obtain ⟨before,name,between,blanks,after,slice⟩ := foundExtracts noColon found
    exact ⟨before,name,between,blanks,value,after,rfl,slice⟩
  · rw [getHeaderFieldHuge room] at ran
    cases Option.some.inj ran
    cases mem

theorem measuredShort {header field : List UInt8} (short : header.length < 2 ^ 31) (few : field.length < 2 ^ 31) :
    Measured header field := by
  have size : (cstring header).length ≤ header.length := (List.takeWhile_prefix _).length_le
  have here : int (cstring header).length = (cstring header).length := intExact (by omega) (by omega)
  have there : int field.length = field.length := intExact (by omega) (by omega)
  unfold Measured
  omega

theorem noColonSafe : Extracts (ascii "A\r\nHost h\r\nX: 1\r\n") (ascii "\nHost") ∧
    (Extracts (ascii "A\r\nHost h\r\nX: 1\r\n") (ascii "\nHost") ↔
      Measured (ascii "A\r\nHost h\r\nX: 1\r\n") (ascii "\nHost")) :=
  have safe := @getHeaderFieldSafe (ascii "A\r\nHost h\r\nX: 1\r\n") (ascii "\nHost") (by decide) (by decide)
  ⟨safe.mpr (measuredShort (by decide) (by decide)),safe⟩

theorem lengthsApart : ¬ ∀ header field : List UInt8, field ≠ [] → 0 ∉ field → 13 ∉ field → 58 ∉ field →
    Extracts header field := by
  intro extracts
  obtain ⟨n,length⟩ : ∃ n, n = 2 ^ 31 + 4 := ⟨_,rfl⟩
  have noNul : (0 : UInt8) ∉ List.replicate n 65 := fun mem =>
    absurd (List.eq_of_mem_replicate mem) (by decide)
  have size : (cstring (List.replicate n 65)).length = n := by rw [cstringExact noNul,List.length_replicate]
  have low : int (n : Int) = -2 ^ 31 + 4 := by
    rw [length]
    decide
  have five : int ((ascii "\nHost").length : Int) = 5 := by decide
  have apart : ¬ Measured (List.replicate n 65) (ascii "\nHost") := by
    rw [Measured,size,low,five,List.length_replicate]
    omega
  obtain ⟨retVal,ran,_⟩ := extracts (List.replicate n 65) (ascii "\nHost") (by decide) (by decide)
    (by decide) (by decide)
  exact apart ((measuredExact (by decide)).mp ⟨retVal,ran⟩)

end

end IttyBittyServer.FieldMemory
