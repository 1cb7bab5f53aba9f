import IttyBittyServer.CaseSearch
import IttyBittyServer.Lines

/-! Headers of named lines, and what the program's three lookups find in them. The search
takes any occurrence of the name for the field. -/
namespace IttyBittyServer.FieldLookup
open Sockets Text
open Header (eol valueOf)
open FieldMemory (Measured)
open CaseSearch (Occurs)
open Lines (endAfter firstEnd)

def nameByte (c : UInt8) : Bool :=
  isdigit c || (65 ≤ c && c ≤ 90) || (97 ≤ c && c ≤ 122) || c == 45

structure Line where
  name : List UInt8
  value : List UInt8
  named : name ≠ []
  word : ∀ c ∈ name, nameByte c = true
  noNul : 0 ∉ value
  noEnd : ¬ eol <:+: value

def Line.bytes (l : Line) : List UInt8 := l.name ++ 58::32::l.value

def Line.text (l : Line) : List UInt8 := l.value.dropWhile (· == 32)

structure Message where
  start : List UInt8
  lines : List Line
  noNul : 0 ∉ start
  noEnd : ¬ eol <:+: start

def Message.header (m : Message) : List UInt8 := Lines.header (m.start::m.lines.map Line.bytes)

inductive Field where
  | contentLength | host | contentType
  deriving DecidableEq, Repr

def Field.asked : Field → List UInt8
  | .contentLength => Header.contentLength
  | .host => ascii "Host"
  | .contentType => ascii "Content-Type"

def Field.lead : Field → List UInt8
  | .contentLength => []
  | .host | .contentType => [10]

def Field.needle (f : Field) : List UInt8 := f.lead ++ f.asked

def Field.names (f : Field) (l : Line) : Bool := strcasecmp l.name f.asked

def Message.first (m : Message) (f : Field) : Option Line := m.lines.find? f.names

def Message.value (m : Message) (f : Field) : Option (List UInt8) := (m.first f).map Line.text

theorem blanksEnd (value after : List UInt8) :
    (value ++ (eol ++ after)).dropWhile (· == 32) = value.dropWhile (· == 32) ++ (eol ++ after) := by
  induction value with
  | nil => rfl
  | cons c value ih =>
    simp only [List.cons_append,List.dropWhile_cons,ih]
    split <;> rfl

theorem valueColon {name value after : List UInt8} (noColon : 58 ∉ name)
    (noEnd : ¬ eol <:+: name ++ 58::value) :
    valueOf (name ++ 58::value ++ (eol ++ after)) = some (value.dropWhile (· == 32)) := by
  have endOfLine := @endAfter (name ++ 58::value) after noEnd
  have colon : strchr (name ++ 58::value ++ (eol ++ after)) 58 = some (58::(value ++ (eol ++ after))) := by
    rw [List.append_assoc]
    exact strchrAfter noColon
  simp only [valueOf,endOfLine,colon,bind,Option.bind_some,List.tail_cons,blanksEnd]
  generalize eol ++ after = rest
  rw [if_neg (by simp),List.length_append,Nat.add_sub_cancel,List.take_left]

theorem valueColonless {line after : List UInt8} (noColon : 58 ∉ line) (noEnd : ¬ eol <:+: line) :
    valueOf (line ++ (eol ++ after)) = none := by
  refine Option.eq_none_iff_forall_ne_some.mpr fun value found => ?_
  obtain ⟨between,blanks,after',whole,_,noEnd',_⟩ := Header.valueSound found
  have here := @endAfter line after noEnd
  rw [whole,List.append_assoc,endAfter noEnd'] at here
  rw [List.append_assoc] at whole
  rw [Option.some.inj here] at whole
  have same := List.append_cancel_right whole
  exact noColon (by rw [same]; simp)

theorem wordPlain {c : UInt8} (word : nameByte c = true) : c ≠ 58 ∧ c ≠ 0 := by
  constructor <;> rintro rfl <;> exact absurd word (by decide)

theorem nameNoColon (l : Line) : 58 ∉ l.name := fun mem => (wordPlain (l.word _ mem)).1 rfl

theorem nameNoNul (l : Line) : 0 ∉ l.name := fun mem => (wordPlain (l.word _ mem)).2 rfl

theorem headerNoNul (m : Message) : 0 ∉ m.header := by
  refine Lines.headerNoNul fun bytes mem => ?_
  rcases List.mem_cons.mp mem with rfl | mem
  · exact m.noNul
  · obtain ⟨l,_,rfl⟩ := List.mem_map.mp mem
    simp [Line.bytes,nameNoNul l,l.noNul]

theorem headerEnds (m : Message) : eol <:+ m.header :=
  List.IsSuffix.trans ⟨eol,rfl⟩ Lines.headerEnds

theorem needleSize (f : Field) : 2 ≤ f.needle.length := by cases f <;> decide

def Message.place (m : Message) (f : Field) (before : List Line) : Nat :=
  (((m.start::before.map Line.bytes).map (· ++ eol)).flatten).length - f.lead.length

/-- The asked text lies at k for the first time, and the search gets there: it counts in ints
and leaves the last place of all out. -/
structure First (m : Message) (f : Field) (k : Nat) : Prop where
  here : Occurs m.header f.needle k
  first : ∀ j < k, ¬ Occurs m.header f.needle j
  near : (k : Int) + f.needle.length < int m.header.length
  held : m.header.length < 2 ^ 63 - 1

/- How the right answer comes about. The asked text lies nowhere within reach and no line has
the name; it first lies at the line of that name; it first lies elsewhere, in front of a colon
and a text like the field's, or in the rest of a line without a colon when no line has the
name. -/
inductive Answered (m : Message) (f : Field) : Prop
  | nowhere (away : ∀ k, ¬ First m f k) (unnamed : m.first f = none)
      (measured : Measured m.header f.needle)
  | itself (before : List Line) (l : Line) (after : List Line) (lines : m.lines = before ++ l::after)
      (others : ∀ k ∈ before, f.names k = false) (named : f.names l = true)
      (place : First m f (m.place f before))
  | alike (k : Nat) (name value after : List UInt8) (l : Line) (place : First m f k)
      (text : m.header.drop k = name ++ 58::value ++ (eol ++ after)) (noColon : 58 ∉ name)
      (noEnd : ¬ eol <:+: name ++ 58::value) (first : m.first f = some l)
      (same : value.dropWhile (· == 32) = l.text)
  | colonless (k : Nat) (line after : List UInt8) (place : First m f k)
      (text : m.header.drop k = line ++ (eol ++ after)) (noColon : 58 ∉ line) (noEnd : ¬ eol <:+: line)
      (unnamed : m.first f = none)

theorem needlePlain (f : Field) : 0 ∉ f.needle := by cases f <;> decide

theorem needleShort (f : Field) : f.needle.length < 2 ^ 31 := by cases f <;> decide

theorem needleInt (f : Field) : int f.needle.length = f.needle.length :=
  intExact (by omega) (by exact_mod_cast needleShort f)

theorem firstShort {m : Message} {f : Field} {k : Nat} (short : m.header.length < 2 ^ 31) :
    First m f k ↔ Occurs m.header f.needle k ∧ ∀ j < k, ¬ Occurs m.header f.needle j := by
  refine ⟨fun place => ⟨place.here,place.first⟩,fun ⟨here,first⟩ => ⟨here,first,?_,by omega⟩⟩
  have same : int m.header.length = m.header.length := intExact (by omega) (by omega)
  have least := needleSize f
  have within := here.1
  rw [same]
  suffices apart : k + f.needle.length ≠ m.header.length by omega
  intro flush
  obtain ⟨pre,ends⟩ := headerEnds m
  have size := congrArg List.length ends
  rw [List.length_append] at size
  have rest : m.header.drop k = pre.drop k ++ eol := by
    rw [← ends,List.drop_append_of_le_length (by simp [eol] at size ⊢; omega)]
  have equal := here.2
  rw [List.take_of_length_le (by rw [List.length_drop]; omega),rest] at equal
  have last := congrArg List.getLast? equal
  have newline : ((pre.drop k ++ eol).map toupper).getLast? = some 10 := by
    rw [List.map_append]
    simp [eol,toupper]
  rw [newline] at last
  cases f <;> exact absurd last (by decide)

theorem foundPlace {s needle : List UInt8} {k : Nat} (within : k ≤ s.length) :
    Header.matchesAt (s.length - int s.length) needle (s.drop k) = true ↔
      Occurs s needle k ∧ (k : Int) + needle.length < int s.length := by
  have below := FieldMemory.intBelow s.length
  rw [Header.matchesAt,Bool.and_eq_true,decide_eq_true_iff,beq_iff_eq,List.length_drop,Occurs]
  generalize int s.length = haystackLength at below ⊢
  constructor
  · rintro ⟨near,same⟩
    exact ⟨⟨by omega,same⟩,by omega⟩
  · rintro ⟨⟨_,same⟩,near⟩
    exact ⟨by omega,same⟩

theorem firstSearched {m : Message} {f : Field} {k : Nat} (place : First m f k) :
    Header.strcasestr m.header f.needle = some (some (m.header.drop k)) := by
  have below := FieldMemory.intBelow m.header.length
  have above := (intRange m.header.length).2.1
  have near := place.near
  have within : k ≤ m.header.length := by omega
  have searched : (search (Header.matchesAt (m.header.length - int m.header.length) f.needle) m.header).map
      (Memory.place m.header) = some (k : Int) := by
    refine CaseSearch.searchPlace.mpr ⟨within,(foundPlace within).mpr ⟨place.here,near⟩,fun j earlier => ?_⟩
    rw [← Bool.not_eq_true,foundPlace (by omega)]
    exact fun ⟨there,_⟩ => place.first j earlier there
  obtain ⟨toFind,found,index⟩ := Option.map_eq_some_iff.mp searched
  obtain ⟨front,whole⟩ := (searchSound found).1
  have size := congrArg List.length whole
  rw [List.length_append] at size
  have split : k = front.length := by
    simp only [Memory.place] at index
    omega
  rw [Header.strcasestr,differenceExact (by omega) (by omega),found,split]
  rw [← whole,List.drop_left]
  rfl

theorem awaySearched {m : Message} {f : Field} (away : ∀ k, ¬ First m f k) (held : m.header.length < 2 ^ 63 - 1)
    (measured : Measured m.header f.needle) : Header.strcasestr m.header f.needle = some none := by
  have whole : cstring m.header = m.header := cstringExact (headerNoNul m)
  rw [Measured,whole,needleInt,or_iff_right (by omega)] at measured
  have searched : search (Header.matchesAt (m.header.length - int m.header.length) f.needle) m.header = none := by
    refine CaseSearch.searchPlaceNone.mpr fun k within => ?_
    by_contra here
    rw [Bool.not_eq_false,foundPlace within] at here
    obtain ⟨j,⟨there,near⟩,least⟩ := @CaseSearch.firstPlace
      (fun k => Occurs m.header f.needle k ∧ (k : Int) + f.needle.length < int m.header.length) k here
    exact away j ⟨there,fun i earlier before => least i earlier ⟨before,by omega⟩,near,held⟩
  rw [Header.strcasestr,differenceExact measured.1 measured.2,searched]
  rfl

/- What the lookup makes of what the search finds. -/
theorem lookupSearched {m : Message} {f : Field} {found : Option (List UInt8)}
    (held : m.header.length < 2 ^ 63 - 1) (searched : Header.strcasestr m.header f.needle = some found) :
    FieldMemory.getHeaderField m.header m.header.length (f.needle ++ [0]) =
      some ((found.bind valueOf).map fun value => value ++ [0]) := by
  rw [FieldMemory.fieldRefined (needlePlain f) (needleShort f) held,Header.getHeaderFieldExact,
    cstringExact (headerNoNul m),searched]
  rfl

theorem lookupPlace {m : Message} {f : Field} {k : Nat} (place : First m f k) :
    FieldMemory.getHeaderField m.header m.header.length (f.needle ++ [0]) =
      some ((valueOf (m.header.drop k)).map fun value => value ++ [0]) :=
  lookupSearched place.held (firstSearched place)

theorem lookupAway {m : Message} {f : Field} (away : ∀ k, ¬ First m f k)
    (measured : Measured m.header f.needle) :
    FieldMemory.getHeaderField m.header m.header.length (f.needle ++ [0]) = some none := by
  by_cases held : m.header.length < 2 ^ 63 - 1
  · exact lookupSearched held (awaySearched away held measured)
  · exact FieldMemory.getHeaderFieldHuge held

theorem foundLine {m : Message} {f : Field} {k : Nat} (place : First m f k) :
    ∃ line after, m.header.drop k = line ++ (eol ++ after) ∧ ¬ eol <:+: line := by
  have least := needleSize f
  have within := place.here.1
  have long : eol.length ≤ (m.header.drop k).length := by
    change 2 ≤ _
    rw [List.length_drop]
    omega
  exact firstEnd (List.suffix_of_suffix_length_le (headerEnds m) (List.drop_suffix _ _) long).isInfix

/- A colon in the line would end its first part, so the line's end does not move. -/
theorem leadNoEnd (f : Field) (l : Line) : ¬ eol <:+: (f.lead ++ l.name) ++ 58::32::l.value := by
  have noReturn : (13 : UInt8) ∉ f.lead ++ l.name ++ [58,32] := by
    have lead : (13 : UInt8) ∉ f.lead := by cases f <;> decide
    have name : (13 : UInt8) ∉ l.name := fun mem => absurd (l.word _ mem) (by decide)
    simp [lead,name]
  rintro ⟨pre,post,same⟩
  refine l.noEnd ?_
  have whole : f.lead ++ l.name ++ [58,32] ++ l.value = pre ++ 13::10::post := by
    simpa [eol] using same.symm
  rcases List.append_eq_append_iff.mp whole with ⟨more,split,rest⟩ | ⟨more,split,rest⟩
  · exact ⟨more,post,by simp [rest,eol]⟩
  · cases more with
    | nil => exact ⟨[],post,by simpa [eol] using rest⟩
    | cons c more =>
      refine absurd ?_ noReturn
      rw [split,← (List.cons.inj rest).1]
      simp

theorem ownText {m : Message} {f : Field} {before after : List Line} {l : Line}
    (lines : m.lines = before ++ l::after) :
    m.header.drop (m.place f before) = f.lead ++ Lines.header ((l::after).map Line.bytes) := by
  have whole : m.header = ((m.start::before.map Line.bytes).map (· ++ eol)).flatten ++
      Lines.header ((l::after).map Line.bytes) := by
    simp [Message.header,Lines.header,lines]
  obtain ⟨front,ends⟩ : f.lead <:+ ((m.start::before.map Line.bytes).map (· ++ eol)).flatten := by
    have last : [10] <:+ ((m.start::before.map Line.bytes).map (· ++ eol)).flatten := by
      obtain ⟨pre,line,same⟩ := List.eq_nil_or_concat (m.start::before.map Line.bytes) |>.resolve_left (by simp)
      rw [same]
      exact ⟨(pre.map (· ++ eol)).flatten ++ line ++ [13],by simp [eol]⟩
    cases f with
    | contentLength => exact List.nil_suffix
    | host => exact last
    | contentType => exact last
  rw [whole,Message.place,← ends,List.length_append,Nat.add_sub_cancel,List.append_assoc,List.drop_left]

theorem objectValue {m : Message} {f : Field} {found : Option (List UInt8)}
    (right : (found.map fun value => value ++ [0]) = (m.value f).map fun value => value ++ [0]) :
    found = m.value f :=
  Option.map_injective (fun _ _ same => List.append_cancel_right same) right

/-- The lookup answers with the first field of the name in exactly these cases, whatever else
the header holds. -/
theorem lookupExact (m : Message) (f : Field) :
    FieldMemory.getHeaderField m.header m.header.length (f.needle ++ [0]) =
      some ((m.value f).map fun value => value ++ [0]) ↔ Answered m f := by
  constructor
  · intro right
    by_cases somewhere : ∃ k, First m f k
    · obtain ⟨k,place⟩ := somewhere
      obtain ⟨line,after,text,noEnd⟩ := foundLine place
      rw [lookupPlace place,text] at right
      have right := objectValue (Option.some.inj right)
      by_cases colon : 58 ∈ line
      · obtain ⟨name,value,rfl,noColon⟩ := List.eq_append_cons_of_mem colon
        rw [valueColon noColon noEnd] at right
        obtain ⟨l,first,same⟩ := Option.map_eq_some_iff.mp right.symm
        exact .alike k name value after l place text noColon noEnd first same.symm
      · rw [valueColonless colon noEnd] at right
        exact .colonless k line after place text colon noEnd (Option.map_eq_none_iff.mp right.symm)
    · have away : ∀ k, ¬ First m f k := fun k place => somewhere ⟨k,place⟩
      have measured := (FieldMemory.measuredExact (needlePlain f)).mp ⟨_,right⟩
      rw [lookupAway away measured] at right
      have right := @objectValue m f none (Option.some.inj right)
      exact .nowhere away (Option.map_eq_none_iff.mp right.symm) measured
  · rintro (⟨away,unnamed,measured⟩ | ⟨before,l,after,lines,others,named,place⟩ |
      ⟨k,name,value,after,l,place,text,noColon,noEnd,first,same⟩ |
      ⟨k,line,after,place,text,noColon,noEnd,unnamed⟩)
    · rw [lookupAway away measured,Message.value,unnamed]
      rfl
    · have text : f.lead ++ Lines.header ((l::after).map Line.bytes) =
          (f.lead ++ l.name) ++ 58::(32::l.value) ++ (eol ++ Lines.header (after.map Line.bytes)) := by
        rw [List.map_cons,Lines.headerCons]
        simp [Line.bytes]
      have first : m.first f = some l := by
        rw [Message.first,lines,List.find?_append,List.find?_eq_none.mpr fun k mem => by simp [others k mem]]
        simp [named]
      have noColon : 58 ∉ f.lead ++ l.name := by
        have lead : (58 : UInt8) ∉ f.lead := by cases f <;> decide
        simp [lead,nameNoColon l]
      rw [lookupPlace place,ownText lines,text,valueColon noColon (leadNoEnd f l),Message.value,first]
      rfl
    · rw [lookupPlace place,text,valueColon noColon noEnd,Message.value,first,same]
      rfl
    · rw [lookupPlace place,text,valueColonless noColon noEnd,Message.value,unnamed]
      rfl

def shadowed : Message where
  start := ascii "HTTP/1.0 200 OK"
  lines := [
    ⟨ascii "X-Content-Length",ascii "7",by decide,by decide +kernel,by decide,by decide⟩,
    ⟨ascii "Content-Length",ascii "5",by decide,by decide +kernel,by decide,by decide⟩]
  noNul := by decide
  noEnd := by decide

theorem longerNameAnswers :
    FieldMemory.getHeaderField shadowed.header shadowed.header.length (Field.needle .contentLength ++ [0]) =
        some (some (ascii "7" ++ [0])) ∧
      shadowed.value .contentLength = some (ascii "5") ∧
      ¬ ∀ (m : Message) (f : Field), FieldMemory.getHeaderField m.header m.header.length (f.needle ++ [0]) =
        some ((m.value f).map fun value => value ++ [0]) := by
  have found : FieldMemory.getHeaderField shadowed.header shadowed.header.length
      (Field.needle .contentLength ++ [0]) = some (some (ascii "7" ++ [0])) := by decide +kernel
  have asked : shadowed.value .contentLength = some (ascii "5") := by decide +kernel
  refine ⟨found,asked,fun right => ?_⟩
  have other := right shadowed .contentLength
  rw [found,asked] at other
  exact absurd other (by decide)

end IttyBittyServer.FieldLookup
