import IttyBittyServer.Memory
import IttyBittyServer.Sockets
import IttyBittyServer.CheckAndSend

/-! checkAndSend on its local arrays: the line that is received, the tokens that sscanf
stores, the name that is decoded in its place, and what is printed around it. -/
namespace IttyBittyServer.RequestMemory
open Sockets Text Memory
open CheckAndSend (hexit scanToken Call Reply FileSystem badRequest sendFile)

def encoded (b : List UInt8) (from_ : Int) : Option Bool := do
  if (← load b from_) = 37 then
    if isxdigit (← load b (from_ + 1)) then some (isxdigit (← load b (from_ + 2))) else some false
  else some false

def strDecode (b : List UInt8) (to_ from_ : Int) : Nat → Option (List UInt8)
  | 0 => none
  | left + 1 => do
    let c ← load b from_
    if c = 0 then store b to_ 0
    else if ← encoded b from_ then
      let high ← load b (from_ + 1)
      let low ← load b (from_ + 2)
      strDecode (← store b to_ (hexit high * 16 + hexit low)) (to_ + 1) (from_ + 3) left
    else strDecode (← store b to_ c) (to_ + 1) (from_ + 1) left

/- %[^ ] stores a token and its end; the number of tokens is what sscanf returns, but for an
empty line. -/
def sscanf (s : List UInt8) : List (List UInt8) → Option (Nat × List (List UInt8))
  | [] => some (0,[])
  | array::arrays => match scanToken s with
    | none => some (0,array::arrays)
    | some (token,rest) => do
      let array ← write array 0 (token ++ [0])
      let (count,arrays) ← sscanf (rest.dropWhile isspace) arrays
      some (count + 1,array::arrays)

structure Arrays where
  method : List UInt8
  path : List UInt8
  protocol : List UInt8
  location : List UInt8
  idx : List UInt8
  methodSize : method.length = 10000
  pathSize : path.length = 10000
  protocolSize : protocol.length = 10000
  locationSize : location.length = 10000
  idxSize : idx.length = 10000

/- `file` is a pointer into the path or into a literal. -/
def forbidden (object : List UInt8) (file fileLen : Int) : Option Bool := do
  if (← load object file) = 47 then some true
  else
    let name ← text object file
    if name = ascii ".." ∨ name.take 3 = ascii "../" ∨ (Text.strstr name (ascii "/../")).isSome then some true
    else some ((← text object (file + fileLen - 3)) = ascii "/..")

def lookUp (a : Arrays) (fs : FileSystem) (path object : List UInt8) (file fileLen : Int) :
    Option (List Call × Reply) := do
  let name ← text object file
  match fs.found with
  | none => some ([.stat name],.error 404 (ascii "Not Found") none (ascii "File not found.\n"))
  | some false => some ([.stat name,.open name],sendFile fs name)
  | some true =>
    if (← load object (file + fileLen - 1)) ≠ 47 then
      let location ← snprintf a.location 9999 (ascii "Location: " ++ (← text path 0) ++ ascii "/\r\n")
      some ([.stat name],.error 302 (ascii "Found") (some (← text location 0))
        (ascii "Directories must end with a slash.\n"))
    else
      let idx ← snprintf a.idx 9999 (name ++ ascii "index.html")
      let index ← text idx 0
      if fs.index then some ([.stat name,.stat index,.open index],sendFile fs index)
      else if fs.listed then some ([.stat name,.stat index,.scandir name],.listing)
      else some ([.stat name,.stat index,.scandir name],
        .error 500 (ascii "Internal Server Error") none (ascii "The server encountered an error.\n"))

def checkName (a : Arrays) (fs : FileSystem) (path : List UInt8) : Option (List Call × Reply) := do
  let path ← strDecode path 1 1 path.length
  let (object,file) := if (← load path 1) = 0 then (ascii "./" ++ [0],(0 : Int)) else (path,1)
  let fileLen ← strlen object file
  if ← forbidden object file fileLen then some ([],badRequest "Illegal filename.\n")
  else lookUp a fs path object file fileLen

def checkAndSend (line : List UInt8) (a : Arrays) (fs : FileSystem) : Option (List Call × Reply) := do
  let (count,stored) ← sscanf (← text line 0) [a.method,a.path,a.protocol]
  if count ≠ 3 then some ([],badRequest "Can't parse request.\n")
  else
    let method ← text (← stored[0]?) 0
    if ¬ strcasecmp method (ascii "get") then
      some ([],.error 501 (ascii "Not Implemented") none (ascii "That method is not implemented.\n"))
    else
      let path ← stored[1]?
      if (← load path 0) ≠ 47 then some ([],badRequest "Bad filename.\n")
      else checkName a fs path

inductive Delivery where
  | socket (stream : List UInt8) (answer : Answer)
  | shared (chunks : List (List UInt8))
  deriving DecidableEq, Repr

def Delivery.request : Delivery → Option (List UInt8)
  | .socket stream answer => answer.bytes (stream.take 19999)
  | .shared chunks => some chunks.flatten

def accumulate (line : List UInt8) (bytes : Int) : List (List UInt8) → Option (List UInt8)
  | [] => some line
  | request::chunks => do
    let line ← write line bytes request
    accumulate line (bytes + request.length) chunks

def receive (line : List UInt8) : Delivery → Option (Option (List UInt8))
  | .socket stream answer => match answer.bytes (stream.take 19999) with
    | none => some none
    | some request => (write line 0 request).map some
  | .shared chunks => (accumulate line 0 chunks).map some

def serve (d : Delivery) (a : Arrays) (fs : FileSystem) : Option (List Call × Reply) := do
  match ← receive (List.replicate 20000 0) d with
  | none => some ([],badRequest "No request found.\n")
  | some line => checkAndSend line a fs

theorem encodedExact (front rest s : List UInt8) (c : UInt8) :
    encoded (front ++ (c::s ++ 0::rest)) front.length =
      some (match s with
        | a::b::_ => decide (c = 37) && isxdigit a && isxdigit b
        | _ => false) := by
  have first := loadAfter front c (s ++ 0::rest)
  have second := loadBehind front (c::s ++ 0::rest) 1
  have third := loadBehind front (c::s ++ 0::rest) 2
  rw [List.cons_append] at second third ⊢
  have nul : isxdigit 0 = false := by decide
  rw [encoded,first]
  simp only [bind,Option.bind_some,Int.cast_ofNat_Int] at second third ⊢
  rw [second,third]
  rcases s with _ | ⟨a,_ | ⟨b,s⟩⟩ <;> by_cases percent : c = 37 <;> simp [percent,nul]
  split <;> simp_all

theorem storeBehind (w gap : List UInt8) {u : List UInt8} (tail : List UInt8) (v : UInt8) (some_ : u ≠ []) :
    ∃ gap', store (w ++ gap ++ (u ++ tail)) w.length v = some (w ++ [v] ++ gap' ++ tail) ∧
      (w ++ [v] ++ gap').length = (w ++ gap).length + u.length := by
  obtain ⟨old,gap',split⟩ : ∃ old gap', gap ++ u = old::gap' := by
    cases gap with
    | nil => exact (List.exists_cons_of_ne_nil some_).imp fun _ h => h.imp fun _ h => by simpa using h
    | cons old gap => exact ⟨old,gap ++ u,rfl⟩
  have size := congrArg List.length split
  refine ⟨gap',?_,by simp at size ⊢; omega⟩
  have whole : w ++ gap ++ (u ++ tail) = w ++ old::(gap' ++ tail) := by
    rw [List.append_assoc,← List.append_assoc gap,split]
    simp
  rw [whole,storeAfter]
  simp

theorem decodeStep {u : List UInt8} (w gap tail : List UInt8) (v : UInt8) (left : Nat) (some_ : u ≠ []) :
    ∃ gap', (w ++ [v] ++ gap').length = (w ++ gap).length + u.length ∧
      (store (w ++ gap ++ (u ++ tail)) w.length v).bind (fun b =>
        strDecode b (w.length + 1) ((w ++ gap).length + u.length) left) =
          strDecode (w ++ [v] ++ gap' ++ tail) (w ++ [v]).length (w ++ [v] ++ gap').length left := by
  obtain ⟨gap',stored,size⟩ := storeBehind w gap tail v some_
  refine ⟨gap',size,?_⟩
  rw [stored,Option.bind_some,size]
  simp

theorem decodeHex {a b : UInt8} (w gap tail : List UInt8) (left : Nat)
    (hex : isxdigit a = true ∧ isxdigit b = true) : ∃ gap',
    strDecode (w ++ gap ++ (37::a::b::tail)) w.length (w ++ gap).length (left + 1) =
      strDecode (w ++ [hexit a * 16 + hexit b] ++ gap' ++ tail) (w ++ [hexit a * 16 + hexit b]).length
        (w ++ [hexit a * 16 + hexit b] ++ gap').length left := by
  obtain ⟨gap',_,step⟩ := decodeStep w gap tail (hexit a * 16 + hexit b) left (List.cons_ne_nil 37 [a,b])
  refine ⟨gap',?_⟩
  rw [← step]
  have first := loadBehind (w ++ gap) (37::a::b::tail) 0
  have second := loadBehind (w ++ gap) (37::a::b::tail) 1
  have third := loadBehind (w ++ gap) (37::a::b::tail) 2
  simp only [Int.cast_ofNat_Int,Int.add_zero] at first second third
  rw [strDecode,encoded,first,second,third]
  simp [hex]

theorem decodePlain {c : UInt8} (w gap tail : List UInt8) (left : Nat) (some_ : c ≠ 0)
    (plain : encoded (w ++ gap ++ c::tail) (w ++ gap).length = some false) : ∃ gap',
    strDecode (w ++ gap ++ c::tail) w.length (w ++ gap).length (left + 1) =
      strDecode (w ++ [c] ++ gap' ++ tail) (w ++ [c]).length (w ++ [c] ++ gap').length left := by
  obtain ⟨gap',_,step⟩ := decodeStep w gap tail c left (List.cons_ne_nil c [])
  refine ⟨gap',?_⟩
  rw [← step,strDecode,plain,loadAfter]
  simp [some_]

theorem strDecodeInPlace {s : List UInt8} (noNul : 0 ∉ s) (w gap rest : List UInt8) {left : Nat}
    (enough : s.length < left) : ∃ rest',
      strDecode (w ++ gap ++ (s ++ 0::rest)) w.length (w ++ gap).length left =
        some (w ++ CheckAndSend.strDecode s ++ 0::rest') := by
  induction s using CheckAndSend.strDecode.induct generalizing w gap left with
  | case1 c a b s hex ih =>
    obtain ⟨left,rfl⟩ := Nat.exists_eq_succ_of_ne_zero (Nat.ne_of_gt (Nat.lt_of_le_of_lt (Nat.zero_le _) enough))
    obtain ⟨rfl,hex⟩ := hex
    obtain ⟨gap',step⟩ := decodeHex w gap (s ++ 0::rest) left hex
    obtain ⟨rest',next⟩ := @ih (fun mem => noNul (by simp [mem])) (w ++ [hexit a * 16 + hexit b]) gap' left
      (by simp at enough; omega)
    refine ⟨rest',?_⟩
    rw [List.cons_append,List.cons_append,List.cons_append,step,next,CheckAndSend.strDecode,if_pos ⟨rfl,hex⟩]
    simp
  | case2 c a b s plain ih =>
    obtain ⟨left,rfl⟩ := Nat.exists_eq_succ_of_ne_zero (Nat.ne_of_gt (Nat.lt_of_le_of_lt (Nat.zero_le _) enough))
    have fails : (decide (c = 37) && isxdigit a && isxdigit b) = false := by
      simpa [and_assoc] using plain
    have test := (encodedExact (w ++ gap) rest (a::b::s) c).trans (congrArg some fails)
    obtain ⟨gap',step⟩ := decodePlain w gap (a::b::s ++ 0::rest) left (fun zero => noNul (by simp [zero])) test
    obtain ⟨rest',next⟩ := @ih (fun mem => noNul (List.mem_cons_of_mem _ mem)) (w ++ [c]) gap' left
      (by simpa using enough)
    refine ⟨rest',?_⟩
    rw [List.cons_append,step,next,CheckAndSend.strDecode,if_neg plain]
    simp
  | case3 c s short ih =>
    obtain ⟨left,rfl⟩ := Nat.exists_eq_succ_of_ne_zero (Nat.ne_of_gt (Nat.lt_of_le_of_lt (Nat.zero_le _) enough))
    have test := encodedExact (w ++ gap) rest s c
    have alone : CheckAndSend.strDecode (c::s) = c::CheckAndSend.strDecode s := by
      rcases s with _ | ⟨a,_ | ⟨b,s⟩⟩ <;> first | rfl | exact absurd rfl (short a b s)
    have fails : encoded (w ++ gap ++ (c::(s ++ 0::rest))) (w ++ gap).length = some false := by
      rcases s with _ | ⟨a,_ | ⟨b,s⟩⟩ <;> first | exact test | exact absurd rfl (short a b s)
    obtain ⟨gap',step⟩ := decodePlain w gap (s ++ 0::rest) left (fun zero => noNul (by simp [zero])) fails
    obtain ⟨rest',next⟩ := @ih (fun mem => noNul (List.mem_cons_of_mem _ mem)) (w ++ [c]) gap' left
      (by simpa using enough)
    refine ⟨rest',?_⟩
    rw [List.cons_append,step,next,alone]
    simp
  | case4 =>
    obtain ⟨left,rfl⟩ := Nat.exists_eq_succ_of_ne_zero (Nat.ne_of_gt (Nat.lt_of_le_of_lt (Nat.zero_le _) enough))
    have here := loadAfter (w ++ gap) 0 rest
    obtain ⟨gap',stored,_⟩ := storeBehind w gap rest 0 (List.cons_ne_nil 0 [])
    refine ⟨gap' ++ rest,?_⟩
    rw [List.nil_append,strDecode,here]
    simp only [bind,Option.bind_some,if_true]
    simpa [CheckAndSend.strDecode] using stored

def tokens (s : List UInt8) : Nat → List (List UInt8)
  | 0 => []
  | n + 1 => match scanToken s with
    | none => []
    | some (token,rest) => token::tokens (rest.dropWhile isspace) n

theorem tokensThree {s method path protocol : List UInt8} :
    CheckAndSend.sscanf s = some (method,path,protocol) ↔ tokens s 3 = [method,path,protocol] := by
  unfold CheckAndSend.sscanf
  rcases first : scanToken s with _ | ⟨m,r⟩
  · simp [tokens,first]
  · rcases second : scanToken (r.dropWhile isspace) with _ | ⟨p,r'⟩
    · simp [tokens,first,second]
    · rcases third : scanToken (r'.dropWhile isspace) with _ | ⟨q,r''⟩ <;> simp [tokens,first,second,third]

theorem storeToken {array : List UInt8} (token : List UInt8) (size : array.length = 10000) :
    write array 0 (token ++ [0]) =
      if token.length ≤ 9999 then some (token ++ 0::array.drop (token.length + 1)) else none := by
  by_cases fits : token.length ≤ 9999
  · rw [if_pos fits]
    refine writeExact.mpr ⟨Int.le_refl _,by simp; omega,by simp⟩
  · rw [if_neg fits,write,if_neg (by simp; omega)]

theorem sscanfFaults {s token : List UInt8} {arrays : List (List UInt8)}
    (sizes : ∀ array ∈ arrays, array.length = 10000) (mem : token ∈ tokens s arrays.length)
    (long : 9999 < token.length) : sscanf s arrays = none := by
  induction arrays generalizing s with
  | nil => cases mem
  | cons array arrays ih =>
    rw [List.length_cons,tokens] at mem
    rw [sscanf]
    rcases scanned : scanToken s with _ | ⟨first,rest⟩
    · rw [scanned] at mem
      cases mem
    · rw [scanned] at mem
      simp only [storeToken first (sizes array List.mem_cons_self)]
      rcases List.mem_cons.mp mem with rfl | later
      · rw [if_neg (Nat.not_le.mpr long)]
        rfl
      · have next := ih (fun array mem => sizes array (List.mem_cons_of_mem _ mem)) later
        split <;> simp [next]

theorem sscanfStores {s : List UInt8} {arrays : List (List UInt8)}
    (sizes : ∀ array ∈ arrays, array.length = 10000)
    (short : ∀ token ∈ tokens s arrays.length, token.length ≤ 9999) : ∃ stored,
      sscanf s arrays = some ((tokens s arrays.length).length,stored) ∧
      ∀ (i : Nat) token, (tokens s arrays.length)[i]? = some token → ∃ rest,
        stored[i]? = some (token ++ 0::rest) ∧ (token ++ 0::rest).length = 10000 := by
  induction arrays generalizing s with
  | nil => exact ⟨[],rfl,fun i token here => by cases here⟩
  | cons array arrays ih =>
    rw [List.length_cons,tokens] at short ⊢
    rw [sscanf]
    rcases scanned : scanToken s with _ | ⟨first,rest⟩
    · exact ⟨_,rfl,fun i token here => by cases here⟩
    · rw [scanned] at short
      have size := sizes array List.mem_cons_self
      have fits := short first List.mem_cons_self
      obtain ⟨stored,ran,held⟩ := @ih (rest.dropWhile isspace) (fun array mem => sizes array (List.mem_cons_of_mem _ mem))
        (fun token mem => short token (List.mem_cons_of_mem _ mem))
      simp only [storeToken first size,if_pos fits,bind,Option.bind_some,ran]
      refine ⟨(first ++ 0::array.drop (first.length + 1))::stored,rfl,fun i token here => ?_⟩
      cases i with
      | zero =>
        cases Option.some.inj here
        exact ⟨array.drop (first.length + 1),rfl,by simp; omega⟩
      | succ i => exact held i token here

def name (path : List UInt8) : List UInt8 := cstring (CheckAndSend.strDecode path.tail)

theorem nameLength (path : List UInt8) : (name path).length ≤ (CheckAndSend.strDecode path.tail).length :=
  (List.takeWhile_prefix _).length_le

theorem nameNoNul (path : List UInt8) : 0 ∉ 47::name path := fun mem => by
  rcases List.mem_cons.mp mem with zero | mem
  · cases zero
  · exact cstringNoNul _ mem

theorem namedPath {path rest : List UInt8} (slash : path.head? = some 47) (noNul : 0 ∉ path) : ∃ more,
    strDecode (path ++ 0::rest) 1 1 (path ++ 0::rest).length = some (47::name path ++ 0::more) := by
  obtain ⟨s,rfl⟩ : ∃ s, path = 47::s := by
    cases path with
    | nil => cases slash
    | cons c s => exact ⟨s,by rw [Option.some.inj slash]⟩
  obtain ⟨rest',decoded⟩ := @strDecodeInPlace s (fun mem => noNul (List.mem_cons_of_mem _ mem)) [47] [] rest
    (47::s ++ 0::rest).length (by rw [List.length_append,List.length_cons]; omega)
  obtain ⟨more,split⟩ := cstringEnds (CheckAndSend.strDecode s) rest'
  refine ⟨more,?_⟩
  change _ = some (47::(cstring (CheckAndSend.strDecode s) ++ 0::more))
  rw [← split]
  exact decoded

/- The tests of the name read in front of the path's array for a name of one byte. -/
theorem forbiddenRefined {n : List UInt8} (before more : List UInt8) (noNul : 0 ∉ 47::n)
    (long : n = [47] ∨ 2 ≤ n.length) :
    forbidden (47::n ++ 0::more) 1 n.length = some (CheckAndSend.forbidden (before ++ [47]) n) := by
  obtain ⟨c,n',rfl⟩ : ∃ c n', n = c::n' := List.exists_cons_of_ne_nil (by rintro rfl; simp at long)
  have first : load (47::c::n' ++ 0::more) 1 = some c := loadAfter [47] c (n' ++ 0::more)
  rw [forbidden,CheckAndSend.forbidden,first]
  by_cases slash : c = 47
  · simp [slash]
  · have two : 2 ≤ (c::n').length := long.resolve_left fun one => slash (List.cons.inj one).1
    have whole : text (47::c::n' ++ 0::more) 1 = some (c::n') := @textHere (47::c::n') noNul more 1 (by simp)
    have last := @textHere (47::c::n') noNul more ((c::n').length - 2) (by simp; omega)
    have index : (1 : Int) + (c::n').length - 3 = ((c::n').length - 2 : Nat) := by omega
    have behind : (before ++ [47] ++ c::n').drop ((before ++ [47] ++ c::n').length - 3) =
        (47::c::n').drop ((c::n').length - 2) := by
      have place : (before ++ [47] ++ c::n').length - 3 = before.length + ((c::n').length - 2) := by
        simp only [List.length_append,List.length_cons,List.length_nil] at two ⊢
        omega
      rw [place,List.append_assoc,List.drop_length_add_append]
      rfl
    have plain : 0 ∉ (47::c::n').drop ((c::n').length - 2) := fun mem => noNul (List.mem_of_mem_drop mem)
    have other : ((c::n').head? == some 47) = false := by simpa using slash
    rw [behind,cstringExact plain,other]
    simp only [bind,Option.bind_some,if_neg slash,whole,index,last,Bool.false_or]
    split <;> rename_i evil
    · rcases evil with same | start | inside
      · simp [same]
      · simp [start]
      · simp [inside]
    · obtain ⟨same,start,inside⟩ : ¬ _ ∧ ¬ _ ∧ ¬ _ := by simpa only [not_or] using evil
      rw [beq_false_of_ne same,beq_false_of_ne start,Bool.eq_false_iff.mpr inside]
      simp only [Bool.false_or]
      exact congrArg some (Bool.eq_iff_iff.mpr (by rw [decide_eq_true_iff,beq_iff_eq]))

theorem forbiddenFaults {c : UInt8} (more : List UInt8) (some_ : c ≠ 0) (other : c ≠ 47) :
    forbidden (47::[c] ++ 0::more) 1 1 = none := by
  have first : load (47::[c] ++ 0::more) 1 = some c := loadAfter [47] c (0::more)
  have whole : text (47::[c] ++ 0::more) 1 = some [c] := @textHere [47,c] (by simp [some_.symm]) more 1 (by simp)
  have front : text (47::[c] ++ 0::more) (1 + 1 - 3) = none := rfl
  rw [forbidden,first]
  have short : ¬ ([c] = ascii ".." ∨ [c].take 3 = ascii "../" ∨
      (Text.strstr [c] (ascii "/../")).isSome = true) := by
    rintro (same | start | inside)
    · exact absurd (show 1 = 2 from congrArg List.length same) (by decide)
    · exact absurd (show 1 = 3 from congrArg List.length start) (by decide)
    · exact absurd (show 4 ≤ 1 from (CheckAndSend.strstrExact.mp inside).length_le) (by decide)
  simp only [bind,Option.bind_some,if_neg other,whole,front,if_neg short,Option.bind_none]

theorem lookUpRefined {n : List UInt8} (a : Arrays) (fs : FileSystem) (more : List UInt8) (noNul : 0 ∉ 47::n)
    (some_ : n ≠ []) : lookUp a fs (47::n ++ 0::more) (47::n ++ 0::more) 1 n.length =
      some (CheckAndSend.lookUp fs (47::n) n) := by
  have whole : text (47::n ++ 0::more) 1 = some n := @textHere (47::n) noNul more 1 (by simp)
  have path : text (47::n ++ 0::more) 0 = some (47::n) := @textHere (47::n) noNul more 0 (by simp)
  obtain ⟨n',last,rfl⟩ := (List.eq_nil_or_concat' n).resolve_left some_
  have ends : load (47::(n' ++ [last]) ++ 0::more) (1 + (n' ++ [last]).length - 1) = some last := by
    have here := loadAfter (47::n') last (0::more)
    have index : ((47::n').length : Int) = 1 + (n' ++ [last]).length - 1 := by simp
    rw [index] at here
    simpa using here
  have plain : 0 ∉ n' ++ [last] := fun mem => noNul (List.mem_cons_of_mem _ mem)
  have cut : ∀ s : List UInt8, 0 ∉ s → cstring (s.take (9999 - 1)) = s.take 9998 :=
    fun s plain => cstringExact fun mem => plain (List.mem_of_mem_take mem)
  obtain ⟨rest,location⟩ := snprintfHere (ascii "Location: " ++ 47::(n' ++ [last]) ++ ascii "/\r\n") (by decide)
    (show 9999 ≤ a.location.length by rw [a.locationSize]; decide)
  obtain ⟨rest',idx⟩ := snprintfHere (n' ++ [last] ++ ascii "index.html") (by decide)
    (show 9999 ≤ a.idx.length by rw [a.idxSize]; decide)
  have located := cut (ascii "Location: " ++ 47::(n' ++ [last]) ++ ascii "/\r\n") (by
    simp only [List.mem_append,not_or]
    exact ⟨⟨by decide,fun mem => noNul mem⟩,by decide⟩)
  have indexed := cut (n' ++ [last] ++ ascii "index.html") (by
    simp only [List.mem_append,not_or]
    exact ⟨by simpa using plain,by decide⟩)
  rw [lookUp,CheckAndSend.lookUp,whole]
  simp only [bind,Option.bind_some]
  cases fs.found with
  | none => rfl
  | some dir =>
    cases dir with
    | false => rfl
    | true =>
      simp only [ends,path,location,idx,textFront,located,indexed,List.getLast?_concat,ne_eq,Option.some.injEq,
        Option.bind_some]
      split
      · rfl
      · split
        · rfl
        · split <;> rfl

/- The name of the root is a literal, and the last test reads in front of it. -/
theorem rootFaults : forbidden (ascii "./" ++ [0]) 0 2 = none := by decide

def Long (n : List UInt8) : Prop := n = [47] ∨ 2 ≤ n.length

theorem checkNameDecoded {object n more : List UInt8} (a : Arrays) (fs : FileSystem)
    (decoded : strDecode object 1 1 object.length = some (47::n ++ 0::more)) (noNul : 0 ∉ 47::n) (some_ : n ≠ []) :
    checkName a fs object = (forbidden (47::n ++ 0::more) 1 n.length).map fun evil =>
      if evil then ([],badRequest "Illegal filename.\n") else CheckAndSend.lookUp fs (47::n) n := by
  obtain ⟨c,n',rfl⟩ := List.exists_cons_of_ne_nil some_
  have first : load (47::c::n' ++ 0::more) 1 = some c := loadAfter [47] c (n' ++ 0::more)
  have nonzero : c ≠ 0 := fun zero => noNul (by simp [zero])
  have length : strlen (47::c::n' ++ 0::more) 1 = some ((c::n').length : Int) := by
    have here := @strlenHere (47::c::n') noNul more 1 (by simp)
    simpa using here
  have looked := lookUpRefined a fs more noNul some_
  rw [checkName,decoded]
  simp only [bind,Option.bind_some,first,if_neg nonzero,length,looked]
  cases forbidden (47::c::n' ++ 0::more) 1 (c::n').length with
  | none => rfl
  | some evil => cases evil <;> rfl

theorem checkNameRefined {path rest : List UInt8} (a : Arrays) (fs : FileSystem) (before : List UInt8)
    (slash : path.head? = some 47) (noNul : 0 ∉ path) (long : Long (name path)) :
    checkName a fs (path ++ 0::rest) = some (
      if CheckAndSend.forbidden (before ++ [47]) (name path) then ([],badRequest "Illegal filename.\n")
      else CheckAndSend.lookUp fs (47::name path) (name path)) := by
  obtain ⟨more,decoded⟩ := @namedPath path rest slash noNul
  have plain := nameNoNul path
  generalize name path = n at long plain decoded
  have some_ : n ≠ [] := by
    rintro rfl
    simp [Long] at long
  rw [checkNameDecoded a fs decoded plain some_,forbiddenRefined before more plain long]
  rfl

theorem checkNameFaults {path rest : List UInt8} (a : Arrays) (fs : FileSystem)
    (slash : path.head? = some 47) (noNul : 0 ∉ path) (short : ¬ Long (name path)) :
    checkName a fs (path ++ 0::rest) = none := by
  obtain ⟨more,decoded⟩ := @namedPath path rest slash noNul
  have plain := nameNoNul path
  generalize name path = n at short plain decoded
  rcases n with _ | ⟨c,_ | ⟨d,n⟩⟩
  · have first : load ([47] ++ 0::more) 1 = some 0 := loadAfter [47] 0 more
    have length : strlen (ascii "./" ++ [0]) 0 = some 2 := by decide
    rw [checkName,decoded]
    simp only [bind,Option.bind_some,first,if_true,length,rootFaults,Option.bind_none]
  · have other : c ≠ 47 := fun same => short (.inl (by rw [same]))
    have nonzero : c ≠ 0 := fun zero => plain (by simp [zero])
    rw [checkNameDecoded a fs decoded plain (List.cons_ne_nil _ _)]
    exact congrArg (Option.map _) (forbiddenFaults more nonzero other)
  · exact absurd (.inr (by simp)) short

structure Safe (request : List UInt8) : Prop where
  tokens : ∀ token ∈ tokens (cstring request) 3, token.length ≤ 9999
  name : ∀ method path protocol, CheckAndSend.sscanf (cstring request) = some (method,path,protocol) →
    strcasecmp method (ascii "get") → path.head? = some 47 → Long (name path)

theorem tokensWithin {s token : List UInt8} {n : Nat} (mem : token ∈ tokens s n) : token ⊆ s := by
  induction n generalizing s with
  | zero => cases mem
  | succ n ih =>
    rw [tokens] at mem
    have first : s.takeWhile (· ≠ 32) ⊆ s := (List.takeWhile_prefix _).subset
    have behind : (s.dropWhile (· ≠ 32)).dropWhile isspace ⊆ s :=
      ((List.dropWhile_suffix _).trans (List.dropWhile_suffix _)).subset
    unfold scanToken at mem
    cases taken : s.takeWhile (· ≠ 32) with
    | nil =>
      rw [taken] at mem
      cases mem
    | cons c t =>
      rw [taken] at mem first
      rcases List.mem_cons.mp mem with rfl | later
      · exact first
      · exact List.Subset.trans (ih later) behind

theorem tokensFewer {s : List UInt8} (none_ : CheckAndSend.sscanf s = none) : (tokens s 3).length ≠ 3 := by
  intro three
  obtain ⟨method,path,protocol,all⟩ := List.length_eq_three.mp three
  rw [tokensThree.mpr all] at none_
  cases none_

theorem arraysStored {s : List UInt8} (a : Arrays) (short : ∀ token ∈ tokens s 3, token.length ≤ 9999) : ∃ stored,
    sscanf s [a.method,a.path,a.protocol] = some ((tokens s 3).length,stored) ∧
      ∀ (i : Nat) token, (tokens s 3)[i]? = some token → ∃ rest, stored[i]? = some (token ++ 0::rest) := by
  obtain ⟨stored,ran,held⟩ := @sscanfStores s [a.method,a.path,a.protocol]
    (by simp [a.methodSize,a.pathSize,a.protocolSize]) short
  exact ⟨stored,ran,fun i token here => (held i token here).imp fun _ h => h.1⟩

theorem checkAndSendStored {request rest method path protocol : List UInt8} (a : Arrays) (fs : FileSystem)
    (short : ∀ token ∈ tokens (cstring request) 3, token.length ≤ 9999)
    (parsed : CheckAndSend.sscanf (cstring request) = some (method,path,protocol)) : ∃ rest',
      0 ∉ path ∧ checkAndSend (request ++ 0::rest) a fs =
        if ¬ strcasecmp method (ascii "get") then
          some ([],.error 501 (ascii "Not Implemented") none (ascii "That method is not implemented.\n"))
        else if path.head? ≠ some 47 then some ([],badRequest "Bad filename.\n")
        else checkName a fs (path ++ 0::rest') := by
  obtain ⟨stored,ran,held⟩ := arraysStored a short
  have three := tokensThree.mp parsed
  have within : ∀ token ∈ [method,path,protocol], token ⊆ cstring request := fun token mem =>
    tokensWithin (n := 3) (three ▸ mem)
  have noNul := cstringNoNul request
  have plain : ∀ token ∈ [method,path,protocol], 0 ∉ token := fun token mem nul => noNul (within token mem nul)
  rw [three] at ran held
  obtain ⟨rest₁,methodHeld⟩ := held 0 method rfl
  obtain ⟨rest₂,pathHeld⟩ := held 1 path rfl
  refine ⟨rest₂,plain path (by simp),?_⟩
  rw [checkAndSend,textFront]
  simp only [bind,Option.bind_some,ran,methodHeld,pathHeld,textFront,cstringExact (plain method (by simp)),
    List.length_cons,List.length_nil]
  rw [if_neg (by decide)]
  split
  · rfl
  · cases path with
    | nil =>
      have first : load ([] ++ 0::rest₂) 0 = some 0 := rfl
      rw [first]
      simp
    | cons c path =>
      have first : load (c::path ++ 0::rest₂) 0 = some c := rfl
      rw [first]
      simp

theorem checkAndSendRefined {request rest : List UInt8} (a : Arrays) (fs : FileSystem) (before literal : List UInt8)
    (safe : Safe request) : checkAndSend (request ++ 0::rest) a fs =
      some (CheckAndSend.checkAndSend (some request) before literal fs) := by
  cases parsed : CheckAndSend.sscanf (cstring request) with
  | none =>
    obtain ⟨stored,ran,_⟩ := arraysStored a safe.tokens
    rw [checkAndSend,textFront,CheckAndSend.checkAndSend]
    simp only [bind,Option.bind_some,ran,parsed,if_pos (tokensFewer parsed)]
  | some parts =>
    obtain ⟨method,path,protocol⟩ := parts
    obtain ⟨rest',noNul,checked⟩ := @checkAndSendStored request rest _ _ _ a fs safe.tokens parsed
    rw [checked,CheckAndSend.checkAndSend]
    simp only [parsed]
    split
    · rfl
    · rename_i get
      split
      · rfl
      · rename_i slash
        have long := safe.name method path protocol parsed (not_not.mp get) (not_not.mp slash)
        have some_ : cstring (CheckAndSend.strDecode path.tail) ≠ [] := by
          intro empty
          rw [name,empty] at long
          simp [Long] at long
        rw [checkNameRefined a fs before (not_not.mp slash) noNul long]
        simp only [CheckAndSend.fileName,if_neg some_,name]
        rfl

theorem checkAndSendFaults {request rest : List UInt8} (a : Arrays) (fs : FileSystem) (unsafe_ : ¬ Safe request) :
    checkAndSend (request ++ 0::rest) a fs = none := by
  by_cases short : ∀ token ∈ tokens (cstring request) 3, token.length ≤ 9999
  · cases parsed : CheckAndSend.sscanf (cstring request) with
    | none => exact absurd ⟨short,fun _ _ _ same => by cases parsed.symm.trans same⟩ unsafe_
    | some parts =>
      obtain ⟨method,path,protocol⟩ := parts
      obtain ⟨rest',noNul,checked⟩ := @checkAndSendStored request rest _ _ _ a fs short parsed
      have reached : strcasecmp method (ascii "get") = true ∧ path.head? = some 47 ∧ ¬ Long (name path) := by
        by_contra fine
        refine unsafe_ ⟨short,fun method' path' protocol' same get slash => ?_⟩
        cases Option.some.inj (parsed.symm.trans same)
        by_contra one
        exact fine ⟨get,slash,one⟩
      obtain ⟨get,slash,one⟩ := reached
      rw [checked,if_neg (not_not.mpr get),if_neg (not_not.mpr slash)]
      exact checkNameFaults a fs slash noNul one
  · simp only [not_forall,Nat.not_le] at short
    obtain ⟨token,mem,long⟩ := short
    have faults := @sscanfFaults _ _ [a.method,a.path,a.protocol]
      (by simp [a.methodSize,a.pathSize,a.protocolSize]) mem long
    rw [checkAndSend,textFront]
    simp only [bind,Option.bind_some,faults,Option.bind_none]

theorem accumulateExact {chunks : List (List UInt8)} (got : List UInt8) {n : Nat} (fits : chunks.flatten.length ≤ n) :
    accumulate (got ++ List.replicate n 0) got.length chunks =
      some (got ++ chunks.flatten ++ List.replicate (n - chunks.flatten.length) 0) := by
  induction chunks generalizing got n with
  | nil => simp [accumulate]
  | cons chunk chunks ih =>
    simp only [List.flatten_cons,List.length_append] at fits
    have written := writeAfter got (List.replicate (n - chunk.length) 0)
      (show chunk.length = (List.replicate chunk.length (0 : UInt8)).length by simp)
    have whole : chunk.length + (n - chunk.length) = n := by omega
    rw [List.replicate_append_replicate,whole,← List.append_assoc] at written
    have next := @ih (got ++ chunk) (n - chunk.length) (by omega)
    have bytes : ((got ++ chunk).length : Int) = got.length + chunk.length := by simp
    rw [bytes] at next
    rw [accumulate,written]
    simp only [bind,Option.bind_some,next]
    simp [Nat.sub_sub]

theorem receiveRequest {n : Nat} (d : Delivery) (short : ∀ request ∈ d.request, request.length < n) :
    ∃ rest, receive (List.replicate n 0) d = some (d.request.map fun request => request ++ 0::rest) := by
  cases d with
  | socket stream answer =>
    rw [receive,Delivery.request] at *
    cases got : answer.bytes (stream.take 19999) with
    | none => exact ⟨[],rfl⟩
    | some request =>
      have fits := short request got
      have written := writeAfter [] (List.replicate (n - request.length) 0)
        (show request.length = (List.replicate request.length (0 : UInt8)).length by simp)
      have whole : request.length + (n - request.length) = n := by omega
      obtain ⟨m,last⟩ : ∃ m, n - request.length = m + 1 := ⟨n - request.length - 1,by omega⟩
      refine ⟨List.replicate m 0,?_⟩
      rw [List.replicate_append_replicate,whole,last,List.replicate_succ] at written
      exact congrArg (Option.map some) written
  | shared chunks =>
    have fits := short chunks.flatten rfl
    have received := @accumulateExact chunks [] n (by omega)
    obtain ⟨m,last⟩ : ∃ m, n - chunks.flatten.length = m + 1 := ⟨n - chunks.flatten.length - 1,by omega⟩
    refine ⟨List.replicate m 0,?_⟩
    rw [last,List.replicate_succ] at received
    exact congrArg (Option.map some) received

theorem serveRequest {d : Delivery} {request : List UInt8} (a : Arrays) (fs : FileSystem)
    (whole : d.request = some request) (short : request.length ≤ 19999) :
    ∃ rest, serve d a fs = checkAndSend (request ++ 0::rest) a fs := by
  obtain ⟨rest,received⟩ := @receiveRequest 20000 d fun request' mem => by
    cases whole.symm.trans mem
    exact Nat.lt_succ_of_le short
  refine ⟨rest,?_⟩
  rw [serve,received,whole]
  rfl

/-- However a request comes, serving it stays inside the arrays exactly when it is safe. -/
theorem tokensFit {d : Delivery} (a : Arrays) (fs : FileSystem)
    (short : ∀ request ∈ d.request, request.length ≤ 19999) :
    (∃ r, serve d a fs = some r) ↔ ∀ request ∈ d.request, Safe request := by
  cases whole : d.request with
  | none =>
    obtain ⟨rest,received⟩ := @receiveRequest 20000 d fun request mem => by cases whole.symm.trans mem
    rw [serve,received,whole]
    exact iff_of_true ⟨_,rfl⟩ fun request mem => by cases mem
  | some request =>
    obtain ⟨rest,served⟩ := serveRequest a fs whole (short request whole)
    rw [served]
    constructor
    · rintro ⟨r,returned⟩ _ same
      cases same
      by_contra unsafe_
      rw [checkAndSendFaults a fs unsafe_] at returned
      cases returned
    · intro safe
      exact ⟨_,checkAndSendRefined a fs [] [] (safe request rfl)⟩

def cleared : Arrays :=
  ⟨List.replicate 10000 0,List.replicate 10000 0,List.replicate 10000 0,List.replicate 10000 0,
    List.replicate 10000 0,List.length_replicate,List.length_replicate,List.length_replicate,
    List.length_replicate,List.length_replicate⟩

theorem chunksServed : (∀ request ∈ (Delivery.shared [ascii "GET /a",ascii "b HTTP/1.0\r\n\r\n"]).request,
      request.length ≤ 19999) ∧
    ∃ r, serve (.shared [ascii "GET /a",ascii "b HTTP/1.0\r\n\r\n"]) cleared ⟨none,false,false,false⟩ = some r := by
  have whole : (Delivery.shared [ascii "GET /a",ascii "b HTTP/1.0\r\n\r\n"]).request =
    some (ascii "GET /ab HTTP/1.0\r\n\r\n") := by decide
  have short : ∀ request ∈ (Delivery.shared [ascii "GET /a",ascii "b HTTP/1.0\r\n\r\n"]).request,
      request.length ≤ 19999 := by
    rw [whole]
    rintro _ same
    cases same
    decide
  refine ⟨short,(tokensFit cleared ⟨none,false,false,false⟩ short).mpr ?_⟩
  rw [whole]
  rintro _ same
  cases same
  refine ⟨by decide,fun method path protocol parsed _ _ => ?_⟩
  have tokens : CheckAndSend.sscanf (cstring (ascii "GET /ab HTTP/1.0\r\n\r\n")) =
    some (ascii "GET",ascii "/ab",ascii "HTTP/1.0\r\n\r\n") := by decide
  cases Option.some.inj (tokens.symm.trans parsed)
  exact .inr (by decide)

theorem longTokenStored {n : Nat} (some_ : n ≠ 0) :
    List.replicate n 65 ∈ tokens (cstring (List.replicate n 65)) 3 := by
  obtain ⟨m,rfl⟩ := Nat.exists_eq_succ_of_ne_zero some_
  have plain : cstring (List.replicate (m + 1) 65) = List.replicate (m + 1) 65 :=
    cstringExact fun mem => absurd (List.eq_of_mem_replicate mem) (by decide)
  have taken : (List.replicate (m + 1) (65 : UInt8)).takeWhile (· ≠ 32) = List.replicate (m + 1) 65 := by
    simp
  have scanned : scanToken (List.replicate (m + 1) 65) =
      some (List.replicate (m + 1) 65,(List.replicate (m + 1) 65).dropWhile (· ≠ 32)) := by
    rw [scanToken,taken]
    rfl
  rw [plain,tokens,scanned]
  exact List.mem_cons_self

theorem longMethodFaults : ¬ ∀ (d : Delivery) (a : Arrays) (fs : FileSystem),
    (∀ request ∈ d.request, request.length ≤ 19999) → ∃ r, serve d a fs = some r := by
  intro fits
  have whole : (Delivery.shared [List.replicate 10000 65]).request = some (List.replicate 10000 65) := by
    rw [Delivery.request,List.flatten_singleton]
  have short : ∀ request ∈ (Delivery.shared [List.replicate 10000 65]).request, request.length ≤ 19999 := by
    rw [whole]
    rintro _ same
    rw [← Option.some.inj same,List.length_replicate]
    decide
  obtain ⟨r,served⟩ := fits _ cleared ⟨none,false,false,false⟩ short
  obtain ⟨rest,served'⟩ := serveRequest cleared ⟨none,false,false,false⟩ whole (short _ whole)
  have unsafe_ : ¬ Safe (List.replicate 10000 65) := fun safe => by
    have size := safe.tokens _ (longTokenStored (by decide))
    rw [List.length_replicate] at size
    exact absurd size (by decide)
  rw [served',checkAndSendFaults _ _ unsafe_] at served
  cases served

end IttyBittyServer.RequestMemory
