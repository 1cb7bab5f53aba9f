import IttyBittyServer.Receive
import IttyBittyServer.Rewrite

/-! stripAbsURL on the objects that it reads and writes: the header, the new header, and
the 10000 bytes in which it prints the part of the address that it takes out. -/
namespace IttyBittyServer.StripMemory
open Text Memory
open Header (eol)
open Rewrite (hostField)

structure Stripped where
  newHeader : List UInt8
  newLength : Int
  firstHalf : Int
  secondHalf : Int
  deriving DecidableEq, Repr

def http : List UInt8 := ascii "http://"

/- A first space that is not found is NULL, from which no half of the header is reached. -/
def stripHost (toFind header host : List UInt8) (oldLength : Int) : Option (Option Stripped) := do
  let newLength := oldLength - http.length - (← strlen host 0)
  match calloc newLength with
  | none => some none
  | some newHeader =>
    let toFind ← snprintf toFind 9999 (http ++ (← text host 0))
    let start ← (← strchr header 0 32)
    let end_ := start + (← strlen toFind 0) + 1
    let firstHalf := start + 1
    let secondHalf := oldLength - (← strlen toFind 0) - firstHalf
    let newHeader ← memcpy newHeader 0 header 0 firstHalf
    let newHeader ← memcpy newHeader (start + 1) header end_ secondHalf
    some (some ⟨newHeader,newLength,firstHalf,secondHalf⟩)

def stripAbsURL (header : List UInt8) (oldLength : Int) : Option (Option Stripped) := do
  match ← FieldMemory.getHeaderField header oldLength (hostField ++ [0]) with
  | none => some none
  | some host => stripHost (List.replicate 10000 0) header host oldLength

section
variable {header host : List UInt8}

def Fits (header host : List UInt8) : Prop :=
  ∃ front rest, header = front ++ 32::rest ∧ 32 ∉ front ∧ 0 ∉ front ∧
    7 + host.length ≤ 9998 ∧ 7 + host.length ≤ rest.length

def halves (newHeader header : List UInt8) (oldLength newLength m start : Int) : Option (Option Stripped) := do
  let newHeader ← memcpy newHeader 0 header 0 (start + 1)
  let newHeader ← memcpy newHeader (start + 1) header (start + m + 1) (oldLength - m - (start + 1))
  some (some ⟨newHeader,newLength,start + 1,oldLength - m - (start + 1)⟩)

theorem stripStart {buffer toFind newHeader object : List UInt8} {oldLength n m : Int}
    (hostLength : strlen object 0 = some n) (value : text object 0 = some host)
    (room : calloc (oldLength - http.length - n) = some newHeader)
    (printed : snprintf buffer 9999 (http ++ host) = some toFind) (length : strlen toFind 0 = some m) :
    stripHost buffer header object oldLength =
      (strchr header 0 32).join.bind (halves newHeader header oldLength (oldLength - http.length - n) m) := by
  simp only [stripHost,hostLength,value,room,printed,length,bind,Option.bind_some]
  rcases strchr header 0 32 with _ | _ | start <;> rfl

theorem toFindLength {host : List UInt8} (plain : 0 ∉ host) : ∃ toFind,
    snprintf (List.replicate 10000 0) 9999 (http ++ host) = some toFind ∧
      strlen toFind 0 = some ((min (7 + host.length) 9998 : Nat) : Int) := by
  have room : 9999 ≤ (List.replicate 10000 (0 : UInt8)).length := by rw [List.length_replicate]; decide
  obtain ⟨rest,printed⟩ := snprintfHere (http ++ host) (by decide) room
  refine ⟨_,printed,?_⟩
  have seven : http.length = 7 := by decide
  have noNul : 0 ∉ (http ++ host).take (9999 - 1) := fun mem => by
    rcases List.mem_append.mp (List.mem_of_mem_take mem) with first | second
    · exact absurd first (by decide)
    · exact plain second
  rw [strlen,textFront,cstringExact noNul,Option.map_some,List.length_take,List.length_append,seven,
    Nat.min_comm]

theorem halvesPossible {n start : Nat} (newLength : Int) (fits : start + 1 + n ≤ header.length) :
    halves (List.replicate (header.length - n) 0) header header.length newLength n start =
      some (some ⟨header.take (start + 1) ++ header.drop (start + 1 + n),newLength,start + 1,
        header.length - n - (start + 1)⟩) := by
  have first := @memcpyPossible _ (List.replicate (header.length - n) 0) header 0 0 (start + 1) (by omega) (by omega)
    (by omega) (by omega) (by simp; omega)
  have one : ((start : Int) + 1).toNat = start + 1 := by omega
  simp only [Int.toNat_zero,List.take_zero,List.drop_zero,List.nil_append,Int.zero_add,one,List.drop_replicate] at first
  have second := @memcpyPossible _ (header.take (start + 1) ++ List.replicate (header.length - n - (start + 1)) 0)
    header (start + 1) (start + n + 1) (header.length - n - (start + 1)) (by omega) (by omega) (by omega) (by omega)
    (by simp; omega)
  have size : (header.take (start + 1)).length = start + 1 := by simp; omega
  have from_ : ((start : Int) + n + 1).toNat = start + 1 + n := by omega
  have count : ((header.length : Int) - n - (start + 1)).toNat = header.length - (start + 1 + n) := by omega
  have ends : ((start : Int) + 1 + (header.length - n - (start + 1))).toNat = header.length - n := by omega
  have all : (header.drop (start + 1 + n)).take (header.length - (start + 1 + n)) = header.drop (start + 1 + n) :=
    List.take_of_length_le (by simp)
  have none_ : (header.take (start + 1) ++ List.replicate (header.length - n - (start + 1)) 0).drop (header.length - n) = [] :=
    List.drop_eq_nil_of_le (by simp; omega)
  rw [one,from_,count,ends,all,none_,List.append_nil,List.take_left' size] at second
  rw [halves,first]
  simp only [bind,Option.bind_some,second]

theorem halvesNecessary {n m start : Nat} {newLength : Int} {s : Stripped} (cut : m ≤ n) (enough : n ≤ header.length)
    (h : halves (List.replicate (header.length - n) 0) header header.length newLength m start = some (some s)) :
    m = n ∧ start + 1 + n ≤ header.length := by
  simp only [halves,bind,Option.bind_eq_some_iff] at h
  obtain ⟨part,first,whole,second,_⟩ := h
  have size := writeLength (Option.bind_eq_some_iff.mp first).choose_spec.2
  obtain ⟨_,count,_,_,inside,_⟩ := memcpyExact second
  rw [size,List.length_replicate] at inside
  omega

theorem stripFound {object : List UInt8} {oldLength : Int}
    (found : FieldMemory.getHeaderField header oldLength (hostField ++ [0]) = some (some object)) :
    stripAbsURL header oldLength = stripHost (List.replicate 10000 0) header object oldLength := by
  unfold stripAbsURL
  generalize List.replicate 10000 (0 : UInt8) = buffer
  simp only [found,bind,Option.bind_some]

theorem stripHalves (noNul : 0 ∉ host) (enough : 7 + host.length ≤ header.length) (room : header.length < 2 ^ 63 - 1)
    (found : FieldMemory.getHeaderField header header.length (hostField ++ [0]) = some (some (host ++ [0]))) :
    stripAbsURL header header.length = (strchr header 0 32).join.bind
      (halves (List.replicate (header.length - (7 + host.length)) 0) header header.length
        (header.length - (7 + host.length)) (min (7 + host.length) 9998 : Nat)) := by
  have value : text (host ++ [0]) 0 = some host := by rw [textFront,cstringExact noNul]
  have hostLength : strlen (host ++ [0]) 0 = some (host.length : Int) := by rw [strlen,value]; rfl
  obtain ⟨toFind,printed,length⟩ := toFindLength noNul
  have newLength : (header.length : Int) - http.length - host.length = header.length - (7 + host.length) := by
    rw [show (http.length : Int) = 7 by decide]
    omega
  have size : ((header.length : Int) - (7 + host.length)).toNat = header.length - (7 + host.length) := by omega
  have fresh : calloc ((header.length : Int) - http.length - host.length) =
      some (List.replicate (header.length - (7 + host.length)) 0) := by
    rw [newLength,calloc,if_pos (by omega),size]
  rw [stripFound found,stripStart hostLength value fresh printed length,newLength]

/-- The two halves make up the new header, inside both objects, exactly for a header that fits. -/
theorem stripSafe {object : List UInt8}
    (found : FieldMemory.getHeaderField header header.length (hostField ++ [0]) = some (some object)) :
    ∃ host, text object 0 = some host ∧
      ((∃ s, stripAbsURL header header.length = some (some s) ∧ 0 ≤ s.newLength ∧ 0 ≤ s.firstHalf ∧
        0 ≤ s.secondHalf ∧ s.firstHalf + s.secondHalf = s.newLength) ↔ Fits header host) := by
  obtain ⟨host,rfl,noNul,room,extracted⟩ := FieldMemory.objectFound (by decide) (by decide) found
  have five : hostField.length = 5 := by decide
  have size := Header.valueLength (by decide) extracted
  have enough : 7 + host.length ≤ header.length := by omega
  refine ⟨host,by rw [textFront,cstringExact noNul],?_⟩
  rw [stripHalves noNul enough room found]
  constructor
  · rintro ⟨s,stripped,_⟩
    obtain ⟨start,first,stripped⟩ := Option.bind_eq_some_iff.mp stripped
    obtain ⟨front,rest,rfl,away,plain,rfl⟩ := strchrFront.mp (Option.join_eq_some_iff.mp first)
    have necessary := halvesNecessary (Nat.min_le_left _ _) enough stripped
    simp only [List.length_append,List.length_cons] at necessary
    exact ⟨front,rest,rfl,away,plain,by omega,by omega⟩
  · rintro ⟨front,rest,rfl,away,plain,short,behind⟩
    have first := strchrFront.mpr ⟨front,rest,rfl,away,plain,rfl⟩
    have printed : min (7 + host.length) 9998 = 7 + host.length := Nat.min_eq_left short
    rw [first,printed]
    refine ⟨_,halvesPossible _ (by simp; omega),?_⟩
    simp
    omega

theorem cutFits : FieldMemory.getHeaderField (ascii "GET http://h/ HTTP/1.0\r\nHost: h\r\n\r\n")
      (ascii "GET http://h/ HTTP/1.0\r\nHost: h\r\n\r\n").length (hostField ++ [0]) =
        some (some (ascii "h" ++ [0])) ∧
    ∃ s, stripAbsURL (ascii "GET http://h/ HTTP/1.0\r\nHost: h\r\n\r\n")
      (ascii "GET http://h/ HTTP/1.0\r\nHost: h\r\n\r\n").length = some (some s) ∧ 0 ≤ s.newLength ∧
        0 ≤ s.firstHalf ∧ 0 ≤ s.secondHalf ∧ s.firstHalf + s.secondHalf = s.newLength := by
  have found : FieldMemory.getHeaderField (ascii "GET http://h/ HTTP/1.0\r\nHost: h\r\n\r\n")
      (ascii "GET http://h/ HTTP/1.0\r\nHost: h\r\n\r\n").length (hostField ++ [0]) =
        some (some (ascii "h" ++ [0])) := by decide +kernel
  obtain ⟨host,value,exact⟩ := stripSafe found
  have same : text (ascii "h" ++ [0]) 0 = some (ascii "h") := by decide
  cases Option.some.inj (same.symm.trans value)
  exact ⟨found,exact.mpr ⟨ascii "GET",ascii "http://h/ HTTP/1.0\r\nHost: h\r\n\r\n",by decide,by decide,by decide,
    by decide,by decide⟩⟩

theorem noSpaceFaults : ¬ ∀ header object : List UInt8,
    FieldMemory.getHeaderField header header.length (hostField ++ [0]) = some (some object) →
      ∃ s, stripAbsURL header header.length = some (some s) := by
  intro safe
  have found : FieldMemory.getHeaderField (ascii "A\r\nHost:h\r\n\r\n") (ascii "A\r\nHost:h\r\n\r\n").length
    (hostField ++ [0]) = some (some (ascii "h" ++ [0])) := by decide +kernel
  obtain ⟨s,stripped⟩ := safe _ _ found
  rw [stripHalves (by decide) (by decide) (by decide) found] at stripped
  obtain ⟨start,first,_⟩ := Option.bind_eq_some_iff.mp stripped
  have none_ : (strchr (ascii "A\r\nHost:h\r\n\r\n") 0 32).join = none := by decide +kernel
  rw [none_] at first
  cases first

theorem halvesFaults {n m start : Nat} {newLength : Int} (cut : m ≤ n) (enough : n ≤ header.length)
    (outside : ¬ (m = n ∧ start + 1 + n ≤ header.length)) :
    halves (List.replicate (header.length - n) 0) header header.length newLength m start = none := by
  cases h : halves (List.replicate (header.length - n) 0) header header.length newLength m start with
  | none => rfl
  | some stripped =>
    have copied := h
    simp only [halves,bind,Option.bind_eq_some_iff] at h
    obtain ⟨_,_,_,_,same⟩ := h
    cases Option.some.inj same
    exact absurd (halvesNecessary cut enough copied) outside

theorem spaceRefined (header : List UInt8) : (strchr header 0 32).join =
    (Text.strchr (cstring header) 32).map fun start => ((cstring header).length : Int) - start.length := by
  obtain ⟨rest,whole⟩ : cstring header <+: header := List.takeWhile_prefix _
  have noNul := cstringNoNul header
  by_cases space : 32 ∈ cstring header
  · obtain ⟨front,r,split,away⟩ := List.eq_append_cons_of_mem space
    have plain : 0 ∉ front := fun mem => noNul (by rw [split]; exact List.mem_append_left _ mem)
    have behind : header = front ++ 32::(r ++ rest) := by rw [← whole,split]; simp
    rw [strchrFront.mpr ⟨front,r ++ rest,behind,away,plain,rfl⟩,split,strchrAfter away]
    simp
  · rw [strchrNone space]
    cases first : (strchr header 0 32).join with
    | none => rfl
    | some start =>
      obtain ⟨front,r,split,away,plain,_⟩ := strchrFront.mp (Option.join_eq_some_iff.mp first)
      refine absurd ?_ space
      rw [split,cstringAppend plain]
      simp [cstring]

theorem stripRefined (room : header.length < 2 ^ 63 - 1) :
    (stripAbsURL header header.length).map (Option.map Stripped.newHeader) = ProxyIteration.stripAbsURL header := by
  have found := @FieldMemory.fieldRefined hostField header (by decide) (by decide) room
  rw [ProxyIteration.stripAbsURL,show ascii "\nHost" = hostField from rfl]
  cases extracted : Header.getHeaderField header hostField with
  | none =>
    rw [extracted] at found
    rw [stripAbsURL,found]
    rfl
  | some retVal =>
    rw [extracted] at found
    cases retVal with
    | none =>
      rw [stripAbsURL,found]
      rfl
    | some host =>
      have five : hostField.length = 5 := by decide
      have size := Header.valueLength (by decide) extracted
      have enough : 7 + host.length ≤ header.length := by omega
      rw [stripHalves (Header.valueNoNul extracted) enough room found,spaceRefined]
      simp only [bind,Option.bind_some,if_neg (show ¬ header.length < 7 + host.length by omega)]
      cases looked : Text.strchr (cstring header) 32 with
      | none => rfl
      | some after =>
        have inside := (searchSound looked).1.length_le
        obtain ⟨start,index⟩ : ∃ start : Nat, ((cstring header).length : Int) - after.length = start :=
          ⟨(cstring header).length - after.length,by omega⟩
        have same : (cstring header).length - after.length = start := by omega
        simp only [Option.map_some,Option.bind_some,index,same]
        by_cases outside : 9998 < 7 + host.length ∨ header.length < start + 1 + 7 + host.length
        · rw [if_pos outside,halvesFaults (Nat.min_le_left _ _) enough (by omega)]
          rfl
        · have printed : min (7 + host.length) 9998 = 7 + host.length := by omega
          have place : start + 1 + (7 + host.length) = start + 1 + 7 + host.length := by omega
          rw [if_neg outside,printed,halvesPossible _ (by omega),place]
          rfl

end

end IttyBittyServer.StripMemory
