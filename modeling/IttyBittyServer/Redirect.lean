import IttyBittyServer.FileService
import IttyBittyServer.ClientRequest

/-! The redirection to a directory: what is printed as its Location, and what the server makes
of a request for that. -/
namespace IttyBittyServer.Redirect
open Text
open Header (eol blankLine)
open CheckAndSend (strDecode)
open Response (snprintf responseHeader errorPage)
open Answers (Files Conn Effect sendError)

def header : List Effect → List UInt8
  | .response status title headers mime length _::_ => snprintf 9999 (responseHeader status title headers mime length)
  | _ => []

def body : List Effect → List UInt8
  | .response _ _ _ _ _ body::_ => body
  | _ => []

def firstLine (s : List UInt8) : Option (List UInt8) :=
  (strstr s eol).map fun rest => s.take (s.length - rest.length)

def location (response : List UInt8) : Option (List UInt8) := do
  let found ← strstr response (ascii "Location: ")
  firstLine (found.drop (ascii "Location: ").length)

def request (link : List UInt8) : List UInt8 := ascii "GET " ++ link ++ ascii " HTTP/1.0"

structure Leads (trace : List Effect) (n : List UInt8) : Prop where
  ends : blankLine <:+ header trace
  once : ∀ front back, header trace = front ++ blankLine ++ back → back = []
  followed : ∃ link path, location (header trace ++ body trace) = some link ∧
    ClientRequest.pathToken (request link) = some path ∧ path.head? = some 47 ∧
    RequestMemory.name path = n ++ [47]

def Literal (s : List UInt8) : Prop :=
  ∀ a b, isxdigit a = true → isxdigit b = true → ¬ [37,a,b] <:+: s

structure Survives (n : List UInt8) : Prop where
  short : n.length ≤ 9913
  blank : 32 ∉ n
  line : ¬ eol <:+: n
  plain : Literal n

theorem infixInit {needle s : List UInt8} {c : UInt8} (last : needle.getLast? ≠ some c) (some_ : needle ≠ [])
    (inside : needle <:+: s ++ [c]) : needle <:+: s := by
  refine (List.infix_concat_iff.mp inside).resolve_left fun suffix => ?_
  rcases List.suffix_concat_iff.mp suffix with rfl | ⟨t,rfl,_⟩
  · exact some_ rfl
  · exact last (by simp)

theorem infixTail {needle front s : List UInt8} {c : UInt8} (away : c ∉ front)
    (inside : c::needle <:+: front ++ s) : c::needle <:+: s := by
  induction front with
  | nil => exact inside
  | cons d front ih =>
    refine ih (fun mem => away (List.mem_cons_of_mem _ mem)) ((List.infix_cons_iff.mp inside).resolve_left ?_)
    intro starts
    exact away (by rw [(List.cons_prefix_cons.mp starts).1]; exact List.mem_cons_self)

theorem literalCons {c : UInt8} {s : List UInt8} (literal : Literal s)
    (plain : ∀ a b, isxdigit a = true → isxdigit b = true → ¬ [37,a,b] <+: c::s) : Literal (c::s) :=
  fun a b high low inside => (List.infix_cons_iff.mp inside).elim (plain a b high low) (literal a b high low)

theorem decodeShortens (s : List UInt8) : strDecode s = s ∧ Literal s ∨ (strDecode s).length < s.length := by
  fun_induction strDecode s with
  | case1 c a b rest hex ih =>
    have short := CheckAndSend.strDecodeLength rest
    exact .inr (by simp only [List.length_cons]; omega)
  | case2 c a b rest plain ih =>
    refine ih.imp (fun kept => ⟨by rw [kept.1],literalCons kept.2 fun a' b' high low starts => ?_⟩)
      fun short => by simpa using short
    simp only [List.cons_prefix_cons] at starts
    obtain ⟨percent,rfl,rfl,_⟩ := starts
    exact plain ⟨percent.symm,high,low⟩
  | case3 c rest short ih =>
    refine ih.imp (fun kept => ⟨by rw [kept.1],literalCons kept.2 fun a b _ _ starts => ?_⟩)
      fun short => by simpa using short
    obtain ⟨after,split⟩ := (List.cons_prefix_cons.mp starts).2
    exact short a b after split.symm
  | case4 => exact .inl ⟨rfl,fun a b _ _ inside => by simp at inside⟩

theorem literalDecodes {s : List UInt8} (literal : Literal s) : strDecode s = s := by
  fun_induction strDecode s with
  | case1 c a b rest hex ih =>
    obtain ⟨rfl,high,low⟩ := hex
    exact absurd ⟨[],rest,rfl⟩ (literal a b high low)
  | case2 c a b rest plain ih =>
    rw [ih fun a b high low inside => literal a b high low (List.infix_cons_iff.mpr (.inr inside))]
  | case3 c rest short ih =>
    rw [ih fun a b high low inside => literal a b high low (List.infix_cons_iff.mpr (.inr inside))]
  | case4 => rfl

theorem firstLineExact {s link : List UInt8} :
    firstLine s = some link ↔ ∃ after, s = link ++ (eol ++ after) ∧ ¬ eol <:+: link := by
  constructor
  · intro read
    obtain ⟨rest,found,taken⟩ := Option.map_eq_some_iff.mp read
    obtain ⟨line,after,rfl,rfl,noEnd⟩ := Header.lineEnd found
    rw [List.length_append,Nat.add_sub_cancel,List.take_left] at taken
    exact ⟨after,by rw [← taken],by rwa [← taken]⟩
  · rintro ⟨after,rfl,noEnd⟩
    rw [firstLine,Lines.endAfter noEnd,Option.map_some,List.length_append,Nat.add_sub_cancel,List.take_left]

def page : List UInt8 := errorPage 302 (ascii "Found") (ascii "Directories must end with a slash.\n")

def front : List UInt8 := ascii "HTTP/1.0 302 Found \r\nLocation: "

def back : List UInt8 := ascii "Content-Length: 207 \r\nContent-Type: text/html \r\n\r\n"

def link (n : List UInt8) : List UInt8 := 47::(n ++ [47])

def whole (n : List UInt8) : List UInt8 := front ++ (link n ++ (eol ++ back))

theorem pageText : page.length = 207 ∧ 0 ∉ page := by decide +kernel

theorem headerParts (headers : List UInt8) :
    responseHeader 302 (ascii "Found") (some headers) (ascii "text/html") (Sockets.int page.length) =
      ascii "HTTP/1.0 302 Found \r\n" ++ (headers ++ back) := by
  have first : ascii "HTTP/1.0" ++ (ascii " " ++ (decimal 302 ++ (ascii " " ++ (ascii "Found" ++ (ascii " " ++
      eol))))) = ascii "HTTP/1.0 302 Found \r\n" := by decide +kernel
  have last : ascii "Content-Length: " ++ (decimal (Sockets.int (207 : Nat)) ++ (ascii " " ++ (eol ++
      (ascii "Content-Type: " ++ (ascii "text/html" ++ (ascii " " ++ (eol ++ eol))))))) = back := by decide +kernel
  rw [pageText.1,← first,← last]
  simp [responseHeader]

theorem wholeParts (n : List UInt8) : whole n =
    ascii "HTTP/1.0 302 Found \r\n" ++ ((ascii "Location: " ++ 47::n ++ ascii "/\r\n") ++ back) := by
  have first : ascii "HTTP/1.0 302 Found \r\n" ++ ascii "Location: " = front := by decide
  have slash : ascii "/\r\n" = 47::eol := by decide
  rw [whole,← first,slash]
  simp [link]

theorem takeTwice {α : Type} (a x r : List α) (k : Nat) : (a ++ (x.take k ++ r)).take k = (a ++ (x ++ r)).take k := by
  rcases Nat.le_total x.length k with short | long
  · rw [List.take_of_length_le short]
  · simp only [List.take_append,List.take_take,List.length_take]
    rw [Nat.min_eq_left (Nat.sub_le k _),Nat.min_eq_left long]
    have none_ : k - a.length - k = 0 := by omega
    have none' : k - a.length - x.length = 0 := by omega
    rw [none_,none']

theorem wholeLines (n : List UInt8) : whole n = Lines.header [ascii "HTTP/1.0 302 Found ",ascii "Location: " ++ link n,
    ascii "Content-Length: 207 ",ascii "Content-Type: text/html "] := by
  have first : ascii "HTTP/1.0 302 Found " ++ (eol ++ ascii "Location: ") = front := by decide
  have last : ascii "Content-Length: 207 " ++ (eol ++ (ascii "Content-Type: text/html " ++ (eol ++ eol))) = back := by
    decide
  rw [whole,← first,← last]
  simp [Lines.header]

theorem linkSize (n : List UInt8) : (link n).length = n.length + 2 := by simp [link]

theorem wholeSize (n : List UInt8) : (whole n).length = n.length + 85 := by
  have sizes : front.length = 31 ∧ back.length = 50 ∧ eol.length = 2 := by decide
  simp only [whole,List.length_append,linkSize,sizes]
  omega

theorem tailSize (n : List UInt8) : (link n ++ (eol ++ back)).length = n.length + 54 := by
  have sizes : back.length = 50 ∧ eol.length = 2 := by decide
  simp only [List.length_append,linkSize,sizes]

def cut (n : List UInt8) : List UInt8 := (link n ++ (eol ++ back)).take 9967

theorem wholeCut (n : List UInt8) : (whole n).take 9998 = front ++ cut n := by
  have size : front.length = 31 := by decide
  rw [whole,cut,List.take_append,List.take_of_length_le (by omega),size]

theorem linkEnd {n : List UInt8} : eol <:+: link n ↔ eol <:+: n := by
  constructor
  · intro inside
    have behind := infixTail (by decide : (13 : UInt8) ∉ [47]) inside
    exact infixInit (by decide) (by decide) behind
  · exact fun inside => inside.trans ⟨[47],[47],rfl⟩

theorem eachLine {n : List UInt8} (noEnd : ¬ eol <:+: n) : ∀ l ∈ [ascii "HTTP/1.0 302 Found ",ascii "Location: " ++ link n,
    ascii "Content-Length: 207 ",ascii "Content-Type: text/html "], Lines.IsLine l := by
  have constant : ∀ {l : List UInt8}, 13 ∉ l → l ≠ [] → Lines.IsLine l := fun away some_ =>
    ⟨some_,fun inside => away (inside.subset (by decide))⟩
  intro l mem
  simp only [List.mem_cons,List.not_mem_nil,or_false] at mem
  rcases mem with rfl | rfl | rfl | rfl
  · exact constant (by decide) (by decide)
  · refine ⟨by simp [link],fun inside => noEnd (linkEnd.mp ?_)⟩
    exact infixTail (by decide : (13 : UInt8) ∉ ascii "Location: ") inside
  · exact constant (by decide) (by decide)
  · exact constant (by decide) (by decide)

theorem locationExact {n read : List UInt8} : location ((whole n).take 9998 ++ page) = some read ↔
    ∃ after, cut n ++ page = read ++ (eol ++ after) ∧ ¬ eol <:+: read := by
  have parts : front = ascii "HTTP/1.0 302 Found \r\n" ++ ascii "Location: " := by decide
  have away : (76 : UInt8) ∉ ascii "HTTP/1.0 302 Found \r\n" := by decide
  have found : strstr ((whole n).take 9998 ++ page) (ascii "Location: ") =
      some (ascii "Location: " ++ (cut n ++ page)) := by
    rw [wholeCut,parts,List.append_assoc,List.append_assoc]
    refine (strstrAfter away).trans (searchHere ?_)
    exact List.isPrefixOf_iff_prefix.mpr (List.prefix_append _ _)
  rw [location,found]
  simp only [bind,Option.bind_some,List.drop_left]
  exact firstLineExact

theorem nulFree {n : List UInt8} (noNul : 0 ∉ n) : 0 ∉ cut n ++ page := by
  have constant : (0 : UInt8) ∉ eol ++ back := by decide
  intro mem
  rcases List.mem_append.mp mem with mem | mem
  · rcases List.mem_append.mp (List.mem_of_mem_take mem) with mem | mem
    · exact noNul (by simpa [link] using mem)
    · exact constant mem
  · exact pageText.2 mem

theorem requestText {read : List UInt8} (noNul : 0 ∉ 47::read) : cstring (request (47::read)) =
    ascii "GET" ++ 32::(47::read ++ 32::ascii "HTTP/1.0") := by
  have method : ascii "GET " = ascii "GET" ++ [32] := by decide
  have version : ascii " HTTP/1.0" = 32::ascii "HTTP/1.0" := by decide
  have words : (0 : UInt8) ∉ ascii "GET " ∧ (0 : UInt8) ∉ ascii " HTTP/1.0" := by decide
  have plain : 0 ∉ request (47::read) := fun mem => by
    rcases List.mem_append.mp mem with mem | mem
    · exact (List.mem_append.mp mem).elim words.1 noNul
    · exact words.2 mem
  rw [cstringExact plain,request,version,method]
  simp

theorem pathRead {read path : List UInt8} (noNul : 0 ∉ 47::read)
    (parsed : ClientRequest.pathToken (request (47::read)) = some path) : path = (47::read).takeWhile (· ≠ 32) := by
  have first : CheckAndSend.scanToken (ascii "GET" ++ 32::(47::read ++ 32::ascii "HTTP/1.0")) =
      some (ascii "GET",32::(47::read ++ 32::ascii "HTTP/1.0")) := ClientRequest.scanWord (by decide) (by decide)
  have blanks : (32::(47::read ++ 32::ascii "HTTP/1.0")).dropWhile isspace = 47::read ++ 32::ascii "HTTP/1.0" := by
    simp [isspace]
  have stops : (47::read ++ 32::ascii "HTTP/1.0").takeWhile (· ≠ 32) = (47::read).takeWhile (· ≠ 32) :=
    wordEnds (47::read) _ 32
  rw [ClientRequest.pathToken,requestText noNul] at parsed
  simp only [CheckAndSend.sscanf,first,blanks,bind,Option.bind_some,Option.map_eq_some_iff,
    Option.bind_eq_some_iff] at parsed
  obtain ⟨_,⟨second,scanned,third,_,same⟩,rfl⟩ := parsed
  cases Option.some.inj same
  rw [CheckAndSend.scanToken,stops] at scanned
  split at scanned
  · cases scanned
  · cases Option.some.inj scanned
    rfl

section
variable {n : List UInt8} {trace : List Effect}

theorem linkReached {path : List UInt8} (slash : path.head? = some 47)
    (named : RequestMemory.name path = n ++ [47]) : n.length + 2 ≤ path.length := by
  have decoded := CheckAndSend.strDecodeLength path.tail
  have ended := RequestMemory.nameLength path
  rw [named] at ended
  have some_ : 0 < path.length := by
    cases path with
    | nil => cases slash
    | cons c path => exact Nat.succ_pos _
  rw [List.length_tail] at decoded
  simp only [List.length_append,List.length_cons,List.length_nil] at ended
  omega

theorem nameUnbroken {read after : List UInt8} (ends : blankLine <:+ front ++ cut n)
    (split : cut n ++ page = read ++ (eol ++ after)) (noEnd : ¬ eol <:+: read) (long : n.length + 2 ≤ read.length) :
    ¬ eol <:+: n := by
  have first : read <+: cut n ++ page := ⟨eol ++ after,split.symm⟩
  have size := tailSize n
  by_cases fits : n.length + 2 ≤ 9967
  · have inside : link n <+: cut n := List.prefix_take_iff.mpr ⟨List.prefix_append _ _,by rw [linkSize]; exact fits⟩
    have reaches := List.prefix_of_prefix_length_le (inside.trans (List.prefix_append _ page)) first
      (by rw [linkSize]; exact long)
    exact fun broken => noEnd ((linkEnd.mpr broken).trans reaches.isInfix)
  · have full : (cut n).length = 9967 := by
      rw [cut,List.length_take,size]
      omega
    have reaches := List.prefix_of_prefix_length_le (List.prefix_append (cut n) page) first (by omega)
    have blank := List.suffix_of_suffix_length_le ends (List.suffix_append front (cut n))
      (by rw [full]; decide)
    have broken : eol <:+: blankLine := ⟨[],eol,rfl⟩
    exact absurd ((broken.trans blank.isInfix).trans reaches.isInfix) noEnd

theorem wholeFits : (whole n).take 9998 = whole n ↔ n.length ≤ 9913 := by
  rw [List.take_eq_self_iff,wholeSize]
  exact Nat.add_le_add_iff_right

theorem linkLocated (short : n.length ≤ 9913) (unbroken : ¬ eol <:+: n) :
    location ((whole n).take 9998 ++ page) = some (link n) := by
  have tail : cut n = link n ++ (eol ++ back) := by
    refine List.take_of_length_le ?_
    rw [tailSize]
    omega
  exact locationExact.mpr ⟨back ++ page,by rw [tail]; simp,fun broken => unbroken (linkEnd.mp broken)⟩

theorem linkNamed (noNul : 0 ∉ n) : RequestMemory.name (link n) = n ++ [47] ↔ Literal n := by
  constructor
  · intro named a b high low inside
    rcases decodeShortens (n ++ [47]) with ⟨_,literal⟩ | less
    · exact literal a b high low (inside.trans (List.infix_append' [] n [47]))
    · have ended : (RequestMemory.name (link n)).length ≤ (strDecode (n ++ [47])).length := RequestMemory.nameLength (link n)
      rw [named] at ended
      exact Nat.not_le.mpr less ended
  · intro literal
    have kept : Literal (n ++ [47]) := fun a b high low inside => by
      have other : [37,a,b].getLast? ≠ some 47 := fun last => by
        cases Option.some.inj last
        exact absurd low (by decide)
      exact literal a b high low (infixInit other (List.cons_ne_nil _ _) inside)
    rw [RequestMemory.name,link,List.tail_cons,literalDecodes kept]
    exact cstringExact (by simpa using noNul)

theorem leadsSurvives (noNul : 0 ∉ n) (head : header trace = (whole n).take 9998) (text : body trace = page)
    (leads : Leads trace n) : Survives n := by
  obtain ⟨read,path,found,parsed,slash,named⟩ := leads.followed
  have ends := leads.ends
  rw [head] at ends
  rw [head,text] at found
  obtain ⟨after,split,noEnd⟩ := locationExact.mp found
  obtain ⟨read,rfl⟩ : ∃ t, read = 47::t := by
    have starts := congrArg List.head? split
    cases read with
    | nil => cases starts
    | cons c read =>
      cases Option.some.inj starts
      exact ⟨read,rfl⟩
  have plain : 0 ∉ 47::read := fun mem => nulFree noNul (by rw [split]; exact List.mem_append_left _ mem)
  have token := pathRead plain parsed
  have isPrefix : path <+: 47::read := by
    rw [token]
    exact List.takeWhile_prefix _
  have reached := linkReached slash named
  have unbroken : ¬ eol <:+: n := by
    rw [wholeCut] at ends
    exact nameUnbroken ends split noEnd (Nat.le_trans reached isPrefix.length_le)
  -- A header that is cut has lost its empty line.
  have short : n.length ≤ 9913 := by
    refine wholeFits.mp ?_
    by_contra shorter
    rw [wholeLines] at ends shorter
    exact Lines.firstBlankLine (eachLine unbroken) (List.take_prefix _ _) shorter ends
  have same : 47::read = link n := Option.some.inj (found.symm.trans (linkLocated short unbroken))
  rw [same] at isPrefix token
  have all : path = link n := isPrefix.eq_of_length_le (by rw [linkSize]; exact reached)
  rw [all] at token named
  refine ⟨short,fun mem => ?_,unbroken,(linkNamed noNul).mp named⟩
  have blank : 32 ∈ link n := by simp [link,mem]
  rw [token] at blank
  simpa using List.mem_takeWhile_imp blank

theorem survivesLeads (noNul : 0 ∉ n) (head : header trace = (whole n).take 9998) (text : body trace = page)
    (survives : Survives n) : Leads trace n := by
  have located := linkLocated survives.short survives.line
  rw [← head,← text] at located
  rw [wholeFits.mpr survives.short,wholeLines] at head
  refine ⟨?_,fun front back split => ?_,link n,link n,located,?_,rfl,(linkNamed noNul).mpr survives.plain⟩
  · rw [head]
    exact Lines.headerEnds
  · rw [head] at split
    exact @Lines.blankLast _ front back (eachLine survives.line) (by rw [split]; simp [blankLine,eol])
  · have plain : 0 ∉ link n := by simpa [link] using noNul
    rw [ClientRequest.pathToken,link,requestText plain]
    exact ClientRequest.pathScanned (by simpa using survives.blank)

end

section
variable {files : Files} {before literal n : List UInt8} {conn : Conn} {trace : List Effect} {size : Nat}

theorem redirected (accepted : FileService.Accepted before literal conn n)
    (dir : files.stat n = some ⟨true,size⟩) (open_ : n.getLast? ≠ some 47)
    (answered : FileService.checkAndSend files before literal conn = some trace) :
    0 ∉ n ∧ header trace = (whole n).take 9998 ∧ body trace = page := by
  obtain ⟨name,noNul,same,looks⟩ := FileService.acceptedLooks accepted
  have some_ : name ≠ [] := fun empty => open_ (by rw [same,if_pos empty]; decide)
  rw [if_neg some_] at same
  subst same
  rw [FileService.checkAndSend,Option.ite_none_right_eq_some,Option.some.injEq,looks files] at answered
  obtain ⟨_,rfl⟩ := answered
  have found : Answers.lookUp files (47::n) n conn.shared = sendError 302 (ascii "Found")
      (some (snprintf 9999 (ascii "Location: " ++ 47::n ++ ascii "/\r\n")))
      (ascii "Directories must end with a slash.\n") conn.shared := by
    simp only [Answers.lookUp,dir,if_true]
    rw [if_pos open_]
  rw [found]
  refine ⟨noNul,?_,rfl⟩
  change snprintf 9999 (responseHeader 302 _ _ _ (Sockets.int page.length)) = _
  rw [headerParts,snprintf,snprintf,takeTwice,wholeParts]

/-- A redirection leads to its directory just where the name survives the header, the client and
the decoding. -/
theorem redirectExact (accepted : FileService.Accepted before literal conn n)
    (dir : files.stat n = some ⟨true,size⟩) (open_ : n.getLast? ≠ some 47)
    (answered : FileService.checkAndSend files before literal conn = some trace) :
    Leads trace n ↔ Survives n := by
  obtain ⟨noNul,head,text⟩ := redirected accepted dir open_ answered
  exact ⟨leadsSurvives noNul head text,survivesLeads noNul head text⟩

end


def getDocs : Conn := .connection (some (ascii "GET /docs HTTP/1.0\r\n\r\n"))

theorem docsAccepted : FileService.Accepted [] [] getDocs (ascii "docs") :=
  ⟨_,_,_,_,rfl,(by decide +kernel : CheckAndSend.sscanf (cstring (ascii "GET /docs HTTP/1.0\r\n\r\n")) =
    some (ascii "GET",ascii "/docs",ascii "HTTP/1.0\r\n\r\n")),by decide,by decide,by decide,by decide⟩

theorem docsReached : ∃ trace, FileService.checkAndSend (FileService.directory (ascii "docs") []) [] [] getDocs =
    some trace ∧ Leads trace (ascii "docs") := by
  have answered : FileService.checkAndSend (FileService.directory (ascii "docs") []) [] [] getDocs = some _ :=
    if_pos (by decide +kernel)
  refine ⟨_,answered,(redirectExact docsAccepted (FileService.directoryFound _ _) (by decide) answered).mpr ?_⟩
  refine ⟨by decide,by decide,by decide,fun a b _ _ inside => ?_⟩
  exact absurd (inside.subset (List.mem_cons_self)) (by decide)

def getBlank : Conn := .connection (some (ascii "GET /a%20b HTTP/1.0\r\n\r\n"))

theorem blankAccepted : FileService.Accepted [] [] getBlank (ascii "a b") :=
  ⟨_,_,_,_,rfl,(by decide +kernel : CheckAndSend.sscanf (cstring (ascii "GET /a%20b HTTP/1.0\r\n\r\n")) =
    some (ascii "GET",ascii "/a%20b",ascii "HTTP/1.0\r\n\r\n")),by decide,by decide,by decide,by decide⟩

theorem blankLost : ¬ ∀ (files : Files) (before literal n : List UInt8) (conn : Conn) (trace : List Effect) (size : Nat),
    FileService.Accepted before literal conn n → files.stat n = some ⟨true,size⟩ → n.getLast? ≠ some 47 →
      FileService.checkAndSend files before literal conn = some trace → Leads trace n := by
  intro leads
  have answered : FileService.checkAndSend (FileService.directory (ascii "a b") []) [] [] getBlank = some _ :=
    if_pos (by decide +kernel)
  have dir := FileService.directoryFound (ascii "a b") []
  have open_ : (ascii "a b").getLast? ≠ some 47 := by decide
  obtain ⟨noNul,head,text⟩ := redirected blankAccepted dir open_ answered
  have survives := leadsSurvives noNul head text (leads _ [] [] _ _ _ 0 blankAccepted dir open_ answered)
  exact survives.blank (by decide)

end IttyBittyServer.Redirect
