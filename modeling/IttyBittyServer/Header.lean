import IttyBittyServer.Sockets
import IttyBittyServer.Text

/-! Receiving a header byte by byte, and finding a field in it. Allocation succeeds;
what would read outside a buffer has no result. -/
namespace IttyBittyServer.Header
open Sockets Text

def eol : List UInt8 := [13,10]

/- The length of the rest counts because the loop ends one place early; `beyond` is what
the haystack's length loses as an int. -/
def matchesAt (beyond : Int) (needle rest : List UInt8) : Bool :=
  beyond + needle.length < rest.length && (rest.take needle.length).map toupper == needle.map toupper

def strcasestr (haystack needle : List UInt8) : Option (Option (List UInt8)) := do
  let _ ← difference (int haystack.length) needle.length
  some (search (matchesAt (haystack.length - int haystack.length) needle) haystack)

/- What getHeaderField makes of the place at which it has found the field: calloc fails on
the negative size of a value that starts behind its line's end. -/
def valueOf (toFind : List UInt8) : Option (List UInt8) := do
  let endOfLine ← strstr toFind eol
  let colon ← strchr toFind 58
  let value := colon.tail.dropWhile (· == 32)
  if value.length < endOfLine.length then none
  else some (value.take (value.length - endOfLine.length))

def getHeaderField (header field : List UInt8) : Option (Option (List UInt8)) := do
  let toFind ← strcasestr (cstring header) field
  some (toFind.bind valueOf)

theorem getHeaderFieldExact (header field : List UInt8) :
    getHeaderField header field = (strcasestr (cstring header) field).map fun toFind => toFind.bind valueOf := by
  rw [getHeaderField]
  cases strcasestr (cstring header) field <;> rfl

def Measured (header field : List UInt8) : Prop :=
  -2 ^ 31 ≤ int (cstring header).length - field.length ∧ int (cstring header).length - field.length < 2 ^ 31

instance (header field : List UInt8) : Decidable (Measured header field) := inferInstanceAs (Decidable (_ ∧ _))

theorem measuredExact {header field : List UInt8} :
    (∃ found, getHeaderField header field = some found) ↔ Measured header field := by
  rw [getHeaderFieldExact,strcasestr,difference,Measured]
  split
  · exact iff_of_true ⟨_,rfl⟩ (by assumption)
  · exact iff_of_false (fun ⟨_,ran⟩ => by cases ran) (by assumption)

theorem strcasestrSearch {haystack needle : List UInt8} {found : Option (List UInt8)}
    (h : strcasestr haystack needle = some found) :
    found = search (matchesAt (haystack.length - int haystack.length) needle) haystack := by
  simp only [strcasestr,bind,Option.bind_eq_some_iff] at h
  obtain ⟨_,_,last⟩ := h
  exact (Option.some.inj last).symm

theorem fieldPlace {header field value : List UInt8} (h : getHeaderField header field = some (some value)) :
    ∃ toFind, search (matchesAt ((cstring header).length - int (cstring header).length) field) (cstring header) =
      some toFind ∧ valueOf toFind = some value := by
  simp only [getHeaderField,bind,Option.bind_eq_some_iff] at h
  obtain ⟨found,searched,last⟩ := h
  rw [strcasestrSearch searched] at last
  exact Option.bind_eq_some_iff.mp (Option.some.inj last)

theorem lineEnd {s endOfLine : List UInt8} (found : strstr s eol = some endOfLine) :
    ∃ line after, s = line ++ endOfLine ∧ endOfLine = eol ++ after ∧ ¬ eol <:+: line := by
  obtain ⟨line,rfl,first⟩ := searchFirst found
  obtain ⟨after,rfl⟩ := List.isPrefixOf_iff_prefix.mp (searchSound found).2
  refine ⟨line,after,rfl,rfl,?_⟩
  rintro ⟨pre,post,rfl⟩
  have other := first (eol ++ post) (by simp [eol]) ⟨pre,by simp⟩
  simp [eol,List.isPrefixOf] at other

theorem valueSound {toFind value : List UInt8} (h : valueOf toFind = some value) :
    ∃ between blanks after, toFind = between ++ 58::(List.replicate blanks 32 ++ value) ++ eol ++ after ∧
      58 ∉ between ∧ ¬ eol <:+: between ++ 58::(List.replicate blanks 32 ++ value) ∧ value.head? ≠ some 32 := by
  simp only [valueOf,bind,Option.bind_eq_some_iff] at h
  obtain ⟨endOfLine,found,colon,foundColon,h⟩ := h
  split at h <;> try contradiction
  rename_i behind
  cases Option.some.inj h
  obtain ⟨before,after,rfl,ends,noEnd⟩ := lineEnd found
  obtain ⟨between,whole,firstColon⟩ := searchFirst foundColon
  have starts := (searchSound foundColon).2
  obtain ⟨rest,rfl⟩ : ∃ rest, colon = 58::rest := by
    cases colon with
    | nil => simp at starts
    | cons c rest => exact ⟨rest,by simpa using starts⟩
  simp only [List.tail_cons] at behind ⊢
  have blank : ∀ c ∈ rest.takeWhile (· == 32), c = 32 := fun c mem => by
    simpa using List.mem_takeWhile_imp mem
  have split : rest = List.replicate (rest.takeWhile (· == 32)).length 32 ++ rest.dropWhile (· == 32) := by
    rw [← List.eq_replicate_of_mem blank,List.takeWhile_append_dropWhile]
  have head := List.head?_dropWhile_not (· == 32) rest
  generalize (rest.takeWhile (· == 32)).length = blanks at split
  generalize rest.dropWhile (· == 32) = tail at split behind head ⊢
  have suffix : endOfLine <:+ tail := by
    refine List.suffix_of_suffix_length_le ⟨before,rfl⟩ ?_ (by omega)
    exact ⟨between ++ 58::List.replicate blanks 32,by rw [whole,split]; simp⟩
  obtain ⟨value,rfl⟩ := suffix
  have taken : (value ++ endOfLine).take ((value ++ endOfLine).length - endOfLine.length) = value := by
    simp
  have front : before = between ++ 58::(List.replicate blanks 32 ++ value) := by
    have same : before ++ endOfLine = between ++ 58::(List.replicate blanks 32 ++ value) ++ endOfLine := by
      rw [whole,split]
      simp
    exact List.append_cancel_right same
  rw [taken]
  refine ⟨between,blanks,after,?_,fun mem => ?_,?_,fun starts => ?_⟩
  · rw [front,List.append_assoc (between ++ _),← ends]
  · obtain ⟨pre,post,rfl⟩ := List.append_of_mem mem
    have other := firstColon (58::post) (List.cons_ne_nil _ _) ⟨pre,rfl⟩
    simp at other
  · rw [← front]
    exact noEnd
  · cases value with
    | nil => simp at starts
    | cons c value =>
      rw [List.head?_cons] at starts
      cases Option.some.inj starts
      simp at head

theorem colonBehind {front rest name : List UInt8} {n : Nat} (noColon : 58 ∉ name)
    (same : ((front ++ 58::rest).take n).map toupper = name.map toupper) : n ≤ front.length := by
  refine Nat.le_of_not_lt fun long => ?_
  have mem : (58 : UInt8) ∈ name.map toupper := by
    rw [← same]
    refine List.mem_map.mpr ⟨58,?_,by decide⟩
    rw [List.take_append,List.take_cons (by omega)]
    simp
  obtain ⟨c,mem,colon⟩ := List.mem_map.mp mem
  exact noColon (toupperColon colon ▸ mem)

theorem valueLength {header field value : List UInt8} (noColon : 58 ∉ field)
    (h : getHeaderField header field = some (some value)) : field.length + value.length + 3 ≤ header.length := by
  obtain ⟨toFind,found,extracted⟩ := fieldPlace h
  obtain ⟨suffix,content⟩ := searchSound found
  obtain ⟨between,blanks,after,rfl,_⟩ := valueSound extracted
  have same := beq_iff_eq.mp (Bool.and_eq_true_iff.mp content).2
  rw [List.append_assoc,List.append_assoc] at same
  have short := colonBehind noColon same
  have size := suffix.length_le.trans (List.takeWhile_prefix _).length_le
  simp only [List.length_append,List.length_cons,List.length_replicate,eol,List.length_nil] at size
  omega

theorem valueNoNul {header field value : List UInt8} (h : getHeaderField header field = some (some value)) :
    0 ∉ value := by
  obtain ⟨toFind,found,extracted⟩ := fieldPlace h
  obtain ⟨between,blanks,after,rfl,_⟩ := valueSound extracted
  intro mem
  exact cstringNoNul header ((searchSound found).1.subset (by simp [mem]))

/- The code is copied over the front of the buffer, whose other bytes stay. -/
def getStatusCode (header : List UInt8) : Option Int := do
  let buffer := cstring (header.take 100)
  let ptr ← strchr buffer 32
  let after ← strchr ptr.tail 32
  let num := ptr.tail.take (ptr.tail.length - after.length)
  some (atoi (num ++ buffer.drop num.length))

structure Received where
  header : Option (List UInt8)
  headerLength : Int
  bodyLength : Int
  socket : Receiver
  deriving DecidableEq, Repr

def contentLength : List UInt8 := ascii "Content-Length"

def bodyLength (header : List UInt8) : Option Int := do
  match ← getHeaderField header contentLength with
  | some bLength => some (atoi bLength)
  | none => do
    let code ← getStatusCode header
    some (if code = 200 then -1 else 0)

/- `inputChar` holds the last bytes, the newest first. -/
def headerLoop (inputChar retVal stream : List UInt8) (answers : List Answer) : Option Received :=
  match answers with
  | [] => none
  | a::rest => match a.bytes (stream.take 1) with
    | none => some ⟨none,retVal.length,0,⟨stream,rest⟩⟩
    | some [] => some ⟨if retVal = [] then none else some retVal,retVal.length,0,⟨stream,rest⟩⟩
    | some (c::_) =>
      let inputChar := c::inputChar.take 3
      let retVal := retVal ++ [c]
      if (strstr (cstring inputChar) [10,13,10,13]).isNone then
        headerLoop inputChar retVal (stream.drop 1) rest
      else do
        let bodyLength ← bodyLength retVal
        some ⟨some retVal,retVal.length,bodyLength,⟨stream.drop 1,rest⟩⟩

def recvHeader (socket : Receiver) : Option Received :=
  headerLoop [0,0,0,0] [] socket.stream socket.answers

theorem matchesHere {beyond : Int} {after : List UInt8} (needle : List UInt8) (near : beyond < after.length) :
    matchesAt beyond needle (needle ++ after) = true := by
  simp only [matchesAt,List.take_left,beq_self_eq_true,Bool.and_true,decide_eq_true_eq,List.length_append]
  omega

theorem strcasestrShort {haystack needle : List UInt8} (short : haystack.length < 2 ^ 31)
    (few : needle.length < 2 ^ 31) :
    strcasestr haystack needle = some (search (matchesAt 0 needle) haystack) := by
  have same : int haystack.length = haystack.length := Int.bmod_eq_of_le (by omega) (by omega)
  rw [strcasestr,same,differenceExact (by omega) (by omega),Int.sub_self]
  rfl

theorem getHeaderFieldShort {header field : List UInt8} (short : header.length < 2 ^ 31)
    (few : field.length < 2 ^ 31) : getHeaderField header field =
      some ((search (matchesAt 0 field) (cstring header)).bind valueOf) := by
  have size : (cstring header).length ≤ header.length := (List.takeWhile_prefix _).length_le
  rw [getHeaderFieldExact,strcasestrShort (by omega) few,Option.map_some]

theorem measuredShort {header field : List UInt8} (short : header.length < 2 ^ 31)
    (few : field.length < 2 ^ 31) : Measured header field :=
  measuredExact.mp ⟨_,getHeaderFieldShort short few⟩

def blankLine : List UInt8 := [13,10,13,10]

theorem endsSome {s : List UInt8} (ends : blankLine <:+ s) : s ≠ [] := by
  rintro rfl
  exact absurd (List.suffix_nil.mp ends) (by decide)

def window (received : List UInt8) : List UInt8 := (received.reverse ++ [0,0,0,0]).take 4

theorem windowNext (received : List UInt8) (c : UInt8) :
    c::(window received).take 3 = window (received ++ [c]) := by
  simp [window,List.take_take]

theorem windowLast (received : List UInt8) :
    window received = [10,13,10,13] ↔ blankLine <:+ received := by
  have back : blankLine <:+ received ↔ [10,13,10,13] <+: received.reverse := by
    rw [← List.reverse_prefix]; rfl
  rw [back,window,List.prefix_iff_eq_take.trans eq_comm]
  generalize received.reverse = back
  rcases back with _ | ⟨a,_ | ⟨b,_ | ⟨c,_ | ⟨d,back⟩⟩⟩⟩ <;> simp

theorem windowBlank (received : List UInt8) :
    (strstr (cstring (window received)) [10,13,10,13]).isNone = true ↔ ¬ blankLine <:+ received := by
  rw [← windowLast]
  constructor
  · intro none same
    rw [same] at none
    contradiction
  · intro other
    cases found : strstr (cstring (window received)) [10,13,10,13] with
    | none => rfl
    | some r =>
      obtain ⟨suffix,starts⟩ := searchSound found
      have starts : [10,13,10,13] <+: r := List.isPrefixOf_iff_prefix.mp starts
      have short : (window received).length ≤ 4 := by simp [window]
      have isPrefix : cstring (window received) <+: window received := List.takeWhile_prefix _
      have least := starts.length_le
      rw [List.length_cons,List.length_cons,List.length_cons,List.length_cons] at least
      have longer := suffix.length_le
      have shorter := isPrefix.length_le
      have same : r = window received :=
        (suffix.eq_of_length (by omega)).trans (isPrefix.eq_of_length (by omega))
      have exact : [10,13,10,13] = r := starts.eq_of_length (by simp; omega)
      exact absurd (same.symm.trans exact.symm) other

theorem headerLoopEnds {header got left rest : List UInt8} {answers : List Answer}
    (whole : header = got ++ left) (more : left ≠ []) (ends : blankLine <:+ header)
    (first : ∀ p, p <+: header → p ≠ header → ¬ blankLine <:+ p) (received : NoError answers) :
    headerLoop (window got) got (left ++ rest) answers =
      if left.length ≤ answers.length then (bodyLength header).map fun n =>
        ⟨header,header.length,n,⟨rest,answers.drop left.length⟩⟩ else none := by
  induction answers generalizing got left with
  | nil => simp [headerLoop,more]
  | cons a answers ih =>
    obtain ⟨⟨k,rfl⟩,later⟩ := noErrorCons received
    obtain ⟨c,left,rfl⟩ := List.exists_cons_of_ne_nil more
    have one : (Answer.upTo k).bytes ((c::left ++ rest).take 1) = some [c] := by simp [Answer.bytes]
    rw [headerLoop,one]
    simp only [windowNext,windowBlank]
    by_cases last : left = []
    · subst left
      rw [if_neg (by rw [← whole]; simpa using ends),if_pos (by simp),← whole]
      cases bodyLength header <;> rfl
    · have isPrefix : got ++ [c] <+: header := ⟨left,by simp [whole]⟩
      have shorter : got ++ [c] ≠ header := by
        rw [whole]; intro same; simp at same; exact last same
      rw [if_pos (first _ isPrefix shorter)]
      have next := @ih (got ++ [c]) left (by simp [whole]) last later
      simpa using next

theorem recvHeaderEnds {header rest : List UInt8} {answers : List Answer} (some : header ≠ [])
    (ends : blankLine <:+ header) (first : ∀ p, p <+: header → p ≠ header → ¬ blankLine <:+ p)
    (received : NoError answers) :
    recvHeader ⟨header ++ rest,answers⟩ =
      if header.length ≤ answers.length then (bodyLength header).map fun n =>
        ⟨header,header.length,n,⟨rest,answers.drop header.length⟩⟩ else none :=
  @headerLoopEnds header [] header rest answers rfl some ends first received

end IttyBittyServer.Header
