import IttyBittyServer.ProxyIteration

/-! What stripAbsURL makes of a request with an absolute URL, and the host name that
chopPortNum makes of its Host field. -/
namespace IttyBittyServer.Rewrite
open Sockets Text Header ProxyIteration

def hostField : List UInt8 := ascii "\nHost"

def newL (header : List UInt8) : Option Int :=
  (getHeaderField header hostField).join.map fun host => header.length - 7 - host.length

/- `eos` goes backwards over the string; in front of it there is nothing to read. -/
def chopLoop : List UInt8 → Option (List UInt8)
  | [] => none
  | ch::eos =>
    if isdigit ch ∨ ch = 32 ∨ ch = 58 then
      if ch = 58 then some eos else chopLoop eos
    else some (ch::eos)

def chopPortNum (server : List UInt8) : Option (List UInt8) :=
  (chopLoop server.reverse).map List.reverse

structure Request where
  method : List UInt8
  authority : List UInt8
  path : List UInt8
  version : List UInt8
  lines : List UInt8
  front : List UInt8
  back : List UInt8
  deriving DecidableEq, Repr

def Request.header (r : Request) : List UInt8 :=
  r.method ++ ascii " http://" ++ r.authority ++ r.path ++ [32] ++ r.version ++ eol ++ r.lines

def Request.relative (r : Request) : List UInt8 :=
  r.method ++ [32] ++ r.path ++ [32] ++ r.version ++ eol ++ r.lines

structure HostLine (header front authority back : List UInt8) : Prop where
  split : header = front ++ (hostField ++ ascii ": " ++ authority ++ eol ++ back)
  first : ∀ pre post, header.map toupper = pre ++ hostField.map toupper ++ post →
    front.length ≤ pre.length
  noNul : 0 ∉ header
  plain : authority ≠ [] ∧ 32 ∉ authority ∧ 13 ∉ authority ∧ 10 ∉ authority

structure Request.WellFormed (r : Request) : Prop where
  host : HostLine r.header r.front r.authority r.back
  method : 32 ∉ r.method ∧ 10 ∉ r.method
  line : 10 ∉ r.path ∧ 10 ∉ r.version
  ends : blankLine <:+ r.header
  fits : 7 + r.authority.length ≤ 9998

def Rewritten (r : Request) : Prop :=
  stripAbsURL r.header = some (some r.relative) ∧
  newL r.header = some ((r.header.length : Int) - 7 - r.authority.length) ∧
  ∀ h digits, r.authority = h ++ 58::digits → h ≠ [] → 58 ∉ h → (∀ c ∈ digits, isdigit c) →
    (getHeaderField r.header hostField).join.bind chopPortNum = some h

variable {header front authority back : List UInt8}

theorem hostAway (line : HostLine header front authority back) (beyond : Int) :
    ∀ zs, zs ≠ [] → zs <:+ front →
      matchesAt beyond hostField (zs ++ (hostField ++ ascii ": " ++ authority ++ eol ++ back)) = false := by
  rintro zs nonempty ⟨pre,rfl⟩
  by_contra found
  simp only [matchesAt,Bool.not_eq_false,Bool.and_eq_true,beq_iff_eq] at found
  have same := found.2
  generalize hw : zs ++ (hostField ++ ascii ": " ++ authority ++ eol ++ back) = whole at same
  have split : header.map toupper =
      pre.map toupper ++ hostField.map toupper ++ (whole.drop hostField.length).map toupper := by
    rw [line.split,List.append_assoc,hw,← same,List.append_assoc,← List.map_append,
      List.take_append_drop,List.map_append]
  have least := line.first _ _ split
  have more := List.length_pos_iff.mpr nonempty
  simp only [List.length_append,List.length_map] at least
  omega

theorem hostSearched (line : HostLine header front authority back) :
    search (matchesAt (header.length - int header.length) hostField) header =
      if (front.length + 5 : Int) < int header.length then
        some (hostField ++ ascii ": " ++ authority ++ eol ++ back) else none := by
  have size := congrArg List.length line.split
  rw [List.length_append] at size
  have five : hostField.length = 5 := by decide
  generalize hb : (header.length : Int) - int header.length = beyond
  conv_lhs => rw [line.split]
  rw [searchAfter (hostAway line beyond)]
  generalize hr : hostField ++ ascii ": " ++ authority ++ eol ++ back = rest at size ⊢
  have starts : (rest.take 5).map toupper = hostField.map toupper := by
    rw [← five]; simp [← hr]
  split
  · exact searchHere (by simp [matchesAt,starts,five]; omega)
  · refine searchNone.mpr fun r suffix => ?_
    have shorter := suffix.length_le
    have far : ¬ (beyond + 5 < r.length) := by omega
    simp [matchesAt,five,far]

theorem hostNear (line : HostLine header front authority back) (short : header.length < 2 ^ 31) :
    (front.length + 5 : Int) < int header.length := by
  have same : int header.length = header.length := Int.bmod_eq_of_le (by omega) (by omega)
  have size := congrArg List.length line.split
  have five : hostField.length = 5 := by decide
  have two : eol.length = 2 := by decide
  simp only [List.length_append,five,two] at size
  omega

theorem hostFirst (away : ∀ k < front.length,
    ((header.map toupper).drop k).take 5 ≠ hostField.map toupper) :
    ∀ pre post, header.map toupper = pre ++ hostField.map toupper ++ post → front.length ≤ pre.length := by
  intro pre post split
  by_contra early
  refine away pre.length (by omega) ?_
  rw [split,List.append_assoc,List.drop_left]
  exact List.take_left' (by decide)

theorem hostLineMore (line : HostLine header front authority back) {more : List UInt8} (noNul : 0 ∉ more) :
    HostLine (header ++ more) front authority (back ++ more) := by
  refine ⟨by rw [line.split]; simp,fun pre post split => ?_,by simp [line.noNul,noNul],line.plain⟩
  by_contra early
  have size := congrArg List.length line.split
  have five : (hostField.map toupper).length = 5 := by decide
  have name : hostField.length = 5 := by decide
  rw [List.map_append] at split
  have isPrefix : pre ++ hostField.map toupper <+: header.map toupper :=
    List.prefix_of_prefix_length_le ⟨post,split.symm⟩ (List.prefix_append _ _) (by
      simp only [List.length_append,List.length_map,name] at size ⊢
      omega)
  obtain ⟨rest,same⟩ := isPrefix
  exact early (line.first pre rest same.symm)

theorem hostText (line : HostLine header front authority back) :
    valueOf (hostField ++ ascii ": " ++ authority ++ eol ++ back) = some authority := by
  obtain ⟨nonempty,noBlank,noCr,_⟩ := line.plain
  have endOfLine : strstr (hostField ++ ascii ": " ++ authority ++ eol ++ back) eol =
      some (eol ++ back) := by
    rw [List.append_assoc,eol,strstrAfter]
    · exact searchHere (by simp [List.isPrefixOf])
    · simp only [List.mem_append,not_or]
      exact ⟨by decide,noCr⟩
  have colon : strchr (hostField ++ ascii ": " ++ authority ++ eol ++ back) 58 =
      some (ascii ": " ++ authority ++ eol ++ back) := by
    have apart : ascii ": " = 58::[32] := by decide
    simp only [List.append_assoc,apart]
    exact strchrAfter (by decide)
  have value : (ascii ": " ++ authority ++ eol ++ back).tail.dropWhile (· == 32) =
      authority ++ (eol ++ back) := by
    obtain ⟨c,rest,rfl⟩ := List.exists_cons_of_ne_nil nonempty
    have apart : ascii ": " = [58,32] := by decide
    have notBlank : (c == 32) = false := by simpa using fun same : c = 32 => noBlank (by simp [same])
    simp [apart,notBlank]
  simp only [valueOf,endOfLine,colon,value,bind,Option.bind_some]
  rw [if_neg (by simp),@List.length_append _ authority,Nat.add_sub_cancel,List.take_left]

theorem hostValue (line : HostLine header front authority back)
    (near : (front.length + 5 : Int) < int header.length) :
    getHeaderField header hostField = some (some authority) := by
  have five : (hostField.length : Int) = 5 := by decide
  have above := (intRange header.length).2.1
  have searched := hostSearched line
  rw [if_pos near] at searched
  rw [getHeaderFieldExact,cstringExact line.noNul,strcasestr,five,differenceExact (by omega) (by omega),searched]
  exact congrArg some (hostText line)

theorem hostMissed (line : HostLine header front authority back)
    (far : ¬ (front.length + 5 : Int) < int header.length) : (getHeaderField header hostField).join = none := by
  have searched := hostSearched line
  rw [if_neg far] at searched
  rw [getHeaderFieldExact,cstringExact line.noNul,strcasestr,searched]
  cases difference (int header.length) hostField.length <;> rfl

theorem chopDigits {digits : List UInt8} (all : ∀ c ∈ digits, isdigit c) (h : List UInt8) :
    chopPortNum (h ++ 58::digits) = some h := by
  have loop : ∀ {back : List UInt8}, (∀ c ∈ back, isdigit c) → ∀ rest,
      chopLoop (back ++ 58::rest) = some rest := by
    intro back
    induction back with
    | nil => simp [chopLoop]
    | cons c back ih =>
      intro all rest
      have digit : isdigit c = true := all c (by simp)
      have other : c ≠ 58 := by rintro rfl; exact absurd digit (by decide)
      simp only [List.cons_append,chopLoop,digit,other]
      exact ih (fun d hd => all d (by simp [hd])) rest
  have reversed : (h ++ 58::digits).reverse = digits.reverse ++ 58::h.reverse := by simp
  rw [chopPortNum,reversed,loop (by simpa using all),Option.map_some,List.reverse_reverse]

theorem strippedFound {r : Request} (wf : r.WellFormed)
    (found : getHeaderField r.header hostField = some (some r.authority)) :
    stripAbsURL r.header = some (some r.relative) := by
  have blank : ascii " http://" = 32::ascii "http://" := by decide
  have http : (ascii "http://").length = 7 := by decide
  generalize after : r.path ++ [32] ++ r.version ++ eol ++ r.lines = tail
  have whole : r.header = r.method ++ 32::(ascii "http://" ++ (r.authority ++ tail)) := by
    simp [Request.header,blank,← after]
  have result : r.relative = r.method ++ 32::tail := by simp [Request.relative,← after]
  have start : strchr r.header 32 = some (32::(ascii "http://" ++ (r.authority ++ tail))) := by
    rw [whole]; exact strchrAfter wf.method.1
  have size : r.header.length = r.method.length + 1 + 7 + r.authority.length + tail.length := by
    simp [whole,http]; omega
  have half : r.header.length - (32::(ascii "http://" ++ (r.authority ++ tail))).length + 1 =
      r.method.length + 1 := by
    rw [whole,List.length_append,Nat.add_sub_cancel]
  have fits := wf.fits
  unfold stripAbsURL
  rw [show ascii "\nHost" = hostField from rfl,found]
  simp only [cstringExact wf.host.noNul,start,half,bind,Option.bind_some]
  rw [if_neg (by omega),if_neg (by omega),result,whole]
  have first : (r.method ++ 32::(ascii "http://" ++ (r.authority ++ tail))).take (r.method.length + 1) =
      r.method ++ [32] := by
    rw [List.append_cons,List.take_left' (by simp)]
  have second : (r.method ++ 32::(ascii "http://" ++ (r.authority ++ tail))).drop
      (r.method.length + 1 + 7 + r.authority.length) = tail := by
    rw [show r.method ++ 32::(ascii "http://" ++ (r.authority ++ tail)) =
      (r.method ++ 32::(ascii "http://" ++ r.authority)) ++ tail by simp]
    exact List.drop_left' (by simp [http]; omega)
  rw [first,second]
  simp

/-- The request is rewritten exactly when the search for the host gets as far as its line. -/
theorem rewrittenExact {r : Request} (wf : r.WellFormed) :
    Rewritten r ↔ (r.front.length + 5 : Int) < int r.header.length := by
  constructor
  · intro ⟨_,length,_⟩
    by_contra far
    simp [newL,hostMissed wf.host far] at length
  · intro near
    have value := hostValue wf.host near
    refine ⟨strippedFound wf value,by simp [newL,value],fun h digits split _ _ all => ?_⟩
    rw [value,Option.join_some,Option.bind_some,split]
    exact chopDigits all h

def shortRequest : Request :=
  ⟨ascii "GET",ascii "h:80",ascii "/",ascii "HTTP/1.0",ascii "Host: h:80\r\n\r\n",
    ascii "GET http://h:80/ HTTP/1.0\r",ascii "\r\n"⟩

theorem rewrittenShort : shortRequest.WellFormed ∧
    (Rewritten shortRequest ↔ (shortRequest.front.length + 5 : Int) < int shortRequest.header.length) := by
  have line : HostLine shortRequest.header shortRequest.front shortRequest.authority shortRequest.back :=
    ⟨by decide,hostFirst (by decide +kernel),by decide,by decide⟩
  have wf : shortRequest.WellFormed := ⟨line,by decide,by decide,by decide,by decide⟩
  exact ⟨wf,rewrittenExact wf⟩

def longField (n : Nat) : List UInt8 := ascii "X: " ++ List.replicate n 97 ++ ascii "\r\n\r\n"

def longRequest (n : Nat) : Request :=
  ⟨ascii "GET",ascii "h",ascii "/",ascii "HTTP/1.0",ascii "Host: h\r\n" ++ longField n,
    ascii "GET http://h/ HTTP/1.0\r",longField n⟩

theorem longHeader (n : Nat) :
    (longRequest n).header = ascii "GET http://h/ HTTP/1.0\r\nHost: h\r\n" ++ longField n := by
  have front : ascii "GET http://h/ HTTP/1.0\r\nHost: h\r\n" = ascii "GET" ++ ascii " http://" ++
    ascii "h" ++ ascii "/" ++ [32] ++ ascii "HTTP/1.0" ++ eol ++ ascii "Host: h\r\n" := by decide
  rw [front,List.append_assoc]
  rfl

theorem longWellFormed (n : Nat) : (longRequest n).WellFormed := by
  have start : HostLine (ascii "GET http://h/ HTTP/1.0\r\nHost: h\r\n")
      (ascii "GET http://h/ HTTP/1.0\r") (ascii "h") [] :=
    ⟨by decide,hostFirst (by decide +kernel),by decide,by decide⟩
  have letters : (0 : UInt8) ∉ ascii "X: " ∧ (0 : UInt8) ∉ ascii "\r\n\r\n" := by decide
  have noNul : 0 ∉ longField n := by
    simp only [longField,List.mem_append,List.mem_replicate,not_or]
    exact ⟨⟨letters.1,fun same => absurd same.2 (by decide)⟩,letters.2⟩
  have blank : blankLine <:+ longField n :=
    ⟨ascii "X: " ++ List.replicate n 97,by rw [show blankLine = ascii "\r\n\r\n" by decide]; rfl⟩
  refine ⟨?_,by simp only [longRequest]; decide,by simp only [longRequest]; decide,?_,
    by simp only [longRequest]; decide⟩
  · rw [longHeader]
    exact hostLineMore start noNul
  · rw [longHeader]
    exact blank.trans (List.suffix_append _ _)

theorem longNotRewritten : (longRequest (2 ^ 31)).WellFormed ∧ ¬ Rewritten (longRequest (2 ^ 31)) := by
  refine ⟨longWellFormed _,fun ⟨_,length,_⟩ => ?_⟩
  have front : ∀ n, (longRequest n).front.length = 23 := fun _ => rfl
  have size : ∀ n, (longRequest n).header.length = n + 40 := by
    intro n
    have line : (ascii "GET http://h/ HTTP/1.0\r\nHost: h\r\n").length = 33 := by decide
    have name : (ascii "X: ").length = 3 := by decide
    have blank : (ascii "\r\n\r\n").length = 4 := by decide
    simp [longHeader,longField,line,name,blank]
    omega
  -- as an int the length is negative
  have far : ¬ ((longRequest (2 ^ 31)).front.length + 5 : Int) < int (longRequest (2 ^ 31)).header.length := by
    rw [size,front,int,Int.bmod]
    omega
  rw [newL,hostMissed (longWellFormed (2 ^ 31)).host far,Option.map_none] at length
  exact Option.some_ne_none _ length.symm

end IttyBittyServer.Rewrite
