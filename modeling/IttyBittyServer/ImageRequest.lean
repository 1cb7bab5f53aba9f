import IttyBittyServer.CaseSearch

/-! isJPG on a header of the given length: what the window of its first bytes says about the
request's target. -/
namespace IttyBittyServer.ImageRequest
open Text Memory CaseSearch

def literal (s : String) : List UInt8 := ascii s ++ [0]

def contentTypeJPG (toSearch : List UInt8) (length : Int) : Option Bool := do
  let field ← FieldMemory.getHeaderField toSearch length (literal "\nContent-Type")
  if (← strcasestr field (some (literal ".jpg"))).isSome then some true
  else some (← strcasestr field (some (literal "jpeg"))).isSome

/- `toSearch` has the bytes of the given length and no more. -/
def isJPG (toSearch : List UInt8) (length : Int) : Option Bool := do
  if ← contentTypeJPG toSearch length then some true
  else
    let buffer := List.replicate 100 0
    let buffer ← memcpy buffer 0 toSearch 0 10
    match ← strstr buffer 0 (ascii "GET") with
    | none => some false
    | some _ =>
      let buffer ← memcpy buffer 0 toSearch 0 99
      some (← strcasestr (some buffer) (some (literal ".jpg"))).isSome

def jpg : List UInt8 := ascii ".jpg"

structure GetRequest (header target rest : List UInt8) : Prop where
  split : header = ascii "GET " ++ target ++ 32::rest
  noBlank : 32 ∉ target

def Meets (header target : List UInt8) : Prop :=
  ∃ r, isJPG header header.length = some r ∧ (r = true ↔ ∃ k, Occurs target jpg k)

def window (header : List UInt8) : List UInt8 := cstring (header.take 99)

/-- The header fills the window, a target that names a JPG does so in front of the window's last
byte, and next to another target no text there does. -/
structure Decided (header target : List UInt8) : Prop where
  long : 99 ≤ header.length
  early : ∀ k, Occurs target jpg k → ∃ j, Occurs target jpg j ∧ 4 + j + 4 < (window header).length
  alone : (∀ k, ¬ Occurs target jpg k) → ∀ k, Occurs (window header) jpg k → (window header).length ≤ k + 4

section
variable {header target rest : List UInt8}

theorem copied {n m : Nat} (buffer : List UInt8) (size : buffer.length = m) (fits : n ≤ m) :
    memcpy buffer 0 header 0 n = if n ≤ header.length then some (header.take n ++ buffer.drop n) else none := by
  by_cases long : n ≤ header.length
  · rw [if_pos long,memcpyPossible (Int.le_refl _) (by omega) (by omega) (Int.le_refl _) (by omega)]
    simp
  · rw [if_neg long,memcpy,Memory.read,if_neg (by omega)]
    rfl

theorem blankApart {s : List UInt8} {k p : Nat} (here : Occurs s jpg k) (blank : s[p]? = some 32) :
    p < k ∨ k + 4 ≤ p := by
  by_contra inside
  obtain ⟨within,same⟩ := here
  have four : jpg.length = 4 := by decide
  rw [four] at within same
  have index : ((s.drop k).take 4)[p - k]? = some 32 := by
    rw [List.getElem?_take,if_pos (by omega),List.getElem?_drop]
    have at_ : k + (p - k) = p := by omega
    rw [at_,blank]
  have upper : toupper 32 ∈ jpg.map toupper := by
    rw [← same]
    exact List.mem_map_of_mem (List.mem_of_getElem? index)
  exact absurd upper (by decide)

theorem occursTarget (get : GetRequest header target rest) {k : Nat} (fits : k + 4 ≤ target.length) :
    Occurs header jpg (4 + k) ↔ Occurs target jpg k := by
  have method : (ascii "GET ").length = 4 := by decide
  have four : jpg.length = 4 := by decide
  have behind : header.drop (4 + k) = target.drop k ++ 32::rest := by
    rw [get.split,List.append_assoc,List.drop_append,method,List.drop_of_length_le (by rw [method]; omega)]
    rw [List.nil_append,Nat.add_sub_cancel_left,List.drop_append_of_le_length (by omega)]
  have size := congrArg List.length get.split
  rw [List.length_append,List.length_append,List.length_cons,method] at size
  rw [Occurs,Occurs,four,behind,List.take_append_of_le_length (by rw [List.length_drop]; omega)]
  exact and_congr_left fun _ => iff_of_true (by omega) fits

theorem occursInside (get : GetRequest header target rest) {k : Nat} (here : Occurs header jpg k) :
    (∃ j, k = 4 + j ∧ Occurs target jpg j) ∨ 4 + target.length < k := by
  have method : (ascii "GET ").length = 4 := by decide
  have first : header[3]? = some 32 := by
    rw [get.split,List.append_assoc]
    rfl
  have second : header[4 + target.length]? = some 32 := by
    rw [get.split,List.getElem?_append_right (by rw [List.length_append,method]),List.length_append,method]
    simp
  rcases blankApart here second with far | near
  · exact .inr far
  · obtain ⟨j,rfl⟩ : ∃ j, k = 4 + j := ⟨k - 4,by have := blankApart here first; omega⟩
    exact .inl ⟨j,rfl,(occursTarget get (by omega)).mp here⟩

theorem windowPrefix (header : List UInt8) : window header <+: header :=
  (List.takeWhile_prefix _).trans (List.take_prefix _ _)

theorem windowDecides (get : GetRequest header target rest) :
    ((∃ k, Occurs (window header) jpg k ∧ k + 4 < (window header).length) ↔ ∃ k, Occurs target jpg k) ↔
      (∀ k, Occurs target jpg k → ∃ j, Occurs target jpg j ∧ 4 + j + 4 < (window header).length) ∧
      ((∀ k, ¬ Occurs target jpg k) → ∀ k, Occurs (window header) jpg k → (window header).length ≤ k + 4) := by
  have four : jpg.length = 4 := by decide
  have isPrefix := windowPrefix header
  constructor
  · intro same
    refine ⟨fun k here => ?_,fun none_ k here => ?_⟩
    · obtain ⟨i,found,near⟩ := same.mpr ⟨k,here⟩
      rcases occursInside get ((occursPrefix isPrefix (by omega)).mp found) with ⟨j,rfl,there⟩ | far
      · exact ⟨j,there,by omega⟩
      · have within := here.1
        rw [four] at within
        exact ⟨k,here,by omega⟩
    · by_contra near
      obtain ⟨j,there⟩ := same.mp ⟨k,here,by omega⟩
      exact none_ j there
  · rintro ⟨early,alone⟩
    constructor
    · rintro ⟨k,here,near⟩
      by_contra none_
      have far := alone (fun j there => none_ ⟨j,there⟩) k here
      omega
    · rintro ⟨k,here⟩
      obtain ⟨j,there,near⟩ := early k here
      have within := there.1
      rw [four] at within
      refine ⟨4 + j,(occursPrefix isPrefix (by omega)).mpr ((occursTarget get within).mpr there),near⟩

theorem methodFound (get : GetRequest header target rest) (more : List UInt8) :
    ∃ found, strstr (header.take 10 ++ 0::more) 0 (ascii "GET") = some (some found) := by
  have front : cstring (header.take 10) = ascii "GET" ++ 32::cstring ((target ++ 32::rest).take 6) := by
    rw [get.split,List.append_assoc]
    rfl
  rw [strstrFront,front,Text.strstr,searchHere (by simp)]
  exact ⟨_,rfl⟩

theorem windowSearched (header : List UInt8) : ∃ r,
    strcasestr (some (header.take 99 ++ [0])) (some (literal ".jpg")) = some r ∧
      (r.isSome = true ↔ ∃ k, Occurs (window header) jpg k ∧ k + 4 < (window header).length) := by
  have noNul : 0 ∉ window header := cstringNoNul _
  have plain : 0 ∉ jpg := by decide
  have size : (window header).length ≤ 99 :=
    (List.takeWhile_prefix _).length_le.trans (List.length_take_le _ _)
  have haystack : (window header).length < 2 ^ 31 := by omega
  have needle : jpg.length < 2 ^ 31 := by decide
  have four : jpg.length = 4 := by decide
  obtain ⟨more,ends⟩ := cstringEnds (header.take 99) []
  obtain ⟨r,ran,_,none_⟩ := strcasestrPlace noNul plain more (fitsShort haystack needle)
  rw [ends]
  refine ⟨r,ran,?_⟩
  rw [← Option.ne_none_iff_isSome,ne_eq,none_,not_forall_not]
  simp only [placeShort haystack needle,four]

theorem isJPGUntyped (get : GetRequest header target rest)
    (untyped : contentTypeJPG header header.length = some false) :
    if 99 ≤ header.length then ∃ r, isJPG header header.length = some r ∧
      (r = true ↔ ∃ k, Occurs (window header) jpg k ∧ k + 4 < (window header).length)
    else isJPG header header.length = none := by
  have size : (List.replicate 100 (0 : UInt8)).length = 100 := List.length_replicate
  have first := @copied header 10 100 (List.replicate 100 0) size (by decide)
  have zeros : (List.replicate 100 (0 : UInt8)).drop 10 = 0::List.replicate 89 0 := by rw [List.drop_replicate]; rfl
  rw [zeros,Nat.cast_ofNat] at first
  by_cases ten : 10 ≤ header.length
  · obtain ⟨found,method⟩ := methodFound get (List.replicate 89 0)
    have size' : (header.take 10 ++ 0::List.replicate 89 0).length = 100 := by simp; omega
    have second := @copied header 99 100 (header.take 10 ++ 0::List.replicate 89 0) size' (by decide)
    have last : (header.take 10 ++ 0::List.replicate 89 0).drop 99 = [0] := by
      have ten' : (header.take 10).length = 10 := by simp; omega
      rw [List.drop_append,List.drop_of_length_le (by omega),ten']
      rfl
    rw [last,Nat.cast_ofNat] at second
    rw [if_pos ten] at first
    by_cases long : 99 ≤ header.length
    · rw [if_pos long] at second ⊢
      obtain ⟨r,ran,same⟩ := windowSearched header
      refine ⟨r.isSome,?_,same⟩
      simp only [isJPG,untyped,first,method,second,ran,bind,Option.bind_some,Bool.false_eq_true,if_false]
    · rw [if_neg long] at second ⊢
      simp only [isJPG,untyped,first,method,second,bind,Option.bind_some,Option.bind_none,Bool.false_eq_true,
        if_false]
  · rw [if_neg ten] at first
    rw [if_neg (by omega)]
    simp only [isJPG,untyped,first,bind,Option.bind_some,Option.bind_none,Bool.false_eq_true,if_false]

def contentType : List UInt8 := ascii "\nContent-Type"

theorem untyped (none_ : ∀ k, ¬ Occurs header contentType k) : contentTypeJPG header header.length =
    if FieldMemory.Measured header contentType then some false else none := by
  have isPrefix : cstring header <+: header := List.takeWhile_prefix _
  have plain : 0 ∉ contentType := by decide
  have needle : contentType.length < 2 ^ 31 := by decide
  have away : search (FieldMemory.reached (cstring header) contentType) (cstring header) = none := by
    refine searchPlaceNone.mpr fun k within => ?_
    refine Bool.eq_false_iff.mpr fun found => ?_
    have here := placeOccurs needle ((placeMatched within).mp found)
    exact none_ k ((occursPrefix isPrefix here.1).mp here)
  have name : literal "\nContent-Type" = contentType ++ [0] := rfl
  have measured := @FieldMemory.measuredExact contentType header plain
  cases ran : FieldMemory.getHeaderField header header.length (contentType ++ [0]) with
  | none =>
    rw [if_neg fun fits => by obtain ⟨retVal,other⟩ := measured.mpr fits; cases ran.symm.trans other]
    rw [contentTypeJPG,name,ran]
    rfl
  | some retVal =>
    have absent : retVal = none := by
      by_cases room : header.length < 2 ^ 63 - 1
      · rw [FieldMemory.getHeaderFieldExact plain room,away] at ran
        obtain ⟨_,_,same⟩ := Option.map_eq_some_iff.mp ran
        exact same.symm
      · rw [FieldMemory.getHeaderFieldHuge room] at ran
        exact (Option.some.inj ran).symm
    rw [if_pos (measured.mp ⟨retVal,ran⟩),contentTypeJPG,name,ran,absent]
    rfl

theorem typedExact (get : GetRequest header target rest) : Meets header target ↔
    contentTypeJPG header header.length = some true ∧ (∃ k, Occurs target jpg k) ∨
      contentTypeJPG header header.length = some false ∧ Decided header target := by
  cases easy : contentTypeJPG header header.length with
  | none =>
    refine iff_of_false (fun ⟨r,ran,_⟩ => ?_) (by simp)
    rw [isJPG,easy] at ran
    cases ran
  | some typed =>
    cases typed with
    | true =>
      have ran : isJPG header header.length = some true := by simp [isJPG,easy]
      constructor
      · rintro ⟨r,ran',same⟩
        cases Option.some.inj (ran.symm.trans ran')
        exact .inl ⟨rfl,same.mp rfl⟩
      · rintro (⟨_,here⟩ | ⟨other,_⟩)
        · exact ⟨true,ran,iff_of_true rfl here⟩
        · cases other
    | false =>
      have ran := isJPGUntyped get easy
      have decides := windowDecides get
      constructor
      · rintro ⟨r,ran',same⟩
        by_cases long : 99 ≤ header.length
        · rw [if_pos long] at ran
          obtain ⟨r',ran,same'⟩ := ran
          cases Option.some.inj (ran.symm.trans ran')
          have ⟨early,alone⟩ := decides.mp (same'.symm.trans same)
          exact .inr ⟨rfl,long,early,alone⟩
        · rw [if_neg long] at ran
          cases ran.symm.trans ran'
      · rintro (⟨other,_⟩ | ⟨_,decided⟩)
        · cases other
        · rw [if_pos decided.long] at ran
          obtain ⟨r,ran,same⟩ := ran
          exact ⟨r,ran,same.trans (decides.mpr ⟨decided.early,decided.alone⟩)⟩

/-- Without a line that begins with Content-Type the window decides, and with one whose value
names a JPG the target has to name one as well. -/
theorem isJPGExact (get : GetRequest header target rest) :
    ((∀ k, ¬ Occurs header contentType k) →
      (Meets header target ↔ FieldMemory.Measured header contentType ∧ Decided header target)) ∧
    (Meets header target ↔
      contentTypeJPG header header.length = some true ∧ (∃ k, Occurs target jpg k) ∨
        contentTypeJPG header header.length = some false ∧ Decided header target) := by
  refine ⟨fun none_ => ?_,typedExact get⟩
  rw [typedExact get,untyped none_]
  by_cases measured : FieldMemory.Measured header contentType
  · rw [if_pos measured]
    simp [measured]
  · rw [if_neg measured]
    simp [measured]

theorem occursNowhere (near : ∀ k < header.length, ¬ Occurs header contentType k) :
    ∀ k, ¬ Occurs header contentType k := fun k here => near k (by
  have within := here.1
  have some_ : 0 < contentType.length := by decide
  omega) here

def pictureRequest : List UInt8 :=
  ascii "GET /pictures/a.jpg HTTP/1.0\r\nHost: www.x.org\r\n" ++
    ascii "User-Agent: a browser whose name fills up the window\r\n\r\n"

theorem pictureDecided : Meets pictureRequest (ascii "/pictures/a.jpg") := by
  have here : Occurs (ascii "/pictures/a.jpg") jpg 11 := by decide +kernel
  have decided : Decided pictureRequest (ascii "/pictures/a.jpg") :=
    ⟨by decide +kernel,fun _ _ => ⟨11,here,by decide +kernel⟩,fun none_ => absurd here (none_ 11)⟩
  have none_ : ∀ k, ¬ Occurs pictureRequest contentType k := occursNowhere (by decide +kernel)
  exact ((@isJPGExact _ _ (pictureRequest.drop 20) ⟨by decide +kernel,by decide +kernel⟩).1 none_).mpr
    ⟨FieldMemory.measuredShort (by decide +kernel) (by decide),decided⟩

def pageRequest : List UInt8 :=
  ascii "GET / HTTP/1.0\r\nReferer: http://www.x.org/a.jpg\r\n" ++
    ascii "User-Agent: a browser whose name fills up the window\r\n\r\n"

theorem refererDecides : ¬ ∀ header target rest : List UInt8, GetRequest header target rest →
    (∀ k, ¬ Occurs header contentType k) → Meets header target := by
  intro meets
  obtain ⟨r,ran,same⟩ := meets pageRequest (ascii "/") (pageRequest.drop 6)
    ⟨by decide +kernel,by decide⟩ (occursNowhere (by decide +kernel))
  have found : isJPG pageRequest pageRequest.length = some true := by decide +kernel
  cases Option.some.inj (found.symm.trans ran)
  obtain ⟨k,here⟩ := same.mp rfl
  have within := here.1
  have apart : (ascii "/").length < jpg.length := by decide
  omega

end

end IttyBittyServer.ImageRequest
