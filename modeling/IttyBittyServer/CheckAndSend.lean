import IttyBittyServer.Text

/-! checkAndSend from the request line to the file system: which names it opens and
what it answers. The file system's answers are given. -/
namespace IttyBittyServer.CheckAndSend
open Text

def hexit (c : UInt8) : UInt8 :=
  if 48 ≤ c ∧ c ≤ 57 then c - 48
  else if 97 ≤ c ∧ c ≤ 102 then c - 97 + 10
  else if 65 ≤ c ∧ c ≤ 70 then c - 65 + 10
  else 0

/- The two ends of the decoding move over the same buffer, the writing one behind. -/
def strDecode : List UInt8 → List UInt8
  | c::a::b::rest =>
    if c = 37 ∧ isxdigit a ∧ isxdigit b then (hexit a * 16 + hexit b)::strDecode rest
    else c::strDecode (a::b::rest)
  | c::rest => c::strDecode rest
  | [] => []

/- %[^ ] needs at least one byte. -/
def scanToken (s : List UInt8) : Option (List UInt8 × List UInt8) :=
  match s.takeWhile (· ≠ 32) with
  | [] => none
  | token => some (token,s.dropWhile (· ≠ 32))

/- A blank in the format passes over all white space. -/
def sscanf (line : List UInt8) : Option (List UInt8 × List UInt8 × List UInt8) := do
  let (method,rest) ← scanToken line
  let (path,rest) ← scanToken (rest.dropWhile isspace)
  let (protocol,_) ← scanToken (rest.dropWhile isspace)
  some (method,path,protocol)

def fileName (path : List UInt8) : List UInt8 :=
  let file := cstring (strDecode path.tail)
  if file = [] then ascii "./" else file

/- `front` is what lies in memory in front of the name. -/
def forbidden (front file : List UInt8) : Bool :=
  file.head? == some 47 || file == ascii ".." || file.take 3 == ascii "../" ||
    (strstr file (ascii "/../")).isSome ||
    cstring ((front ++ file).drop ((front ++ file).length - 3)) == ascii "/.."

def contentType (file : List UInt8) : List UInt8 :=
  match strrchr file 46 with
  | none => ascii "text/plain; charset=iso-8859-1"
  | some dot =>
    if dot ∈ [ascii ".html",ascii ".htm"] then ascii "text/html; charset=iso-8859-1"
    else if dot ∈ [ascii ".jpg",ascii ".jpeg"] then ascii "image/jpeg"
    else if dot = ascii ".gif" then ascii "image/gif"
    else if dot = ascii ".png" then ascii "image/png"
    else if dot = ascii ".css" then ascii "text/css"
    else if dot = ascii ".au" then ascii "audio/basic"
    else if dot = ascii ".wav" then ascii "audio/wav"
    else if dot = ascii ".avi" then ascii "video/x-msvideo"
    else if dot ∈ [ascii ".mov",ascii ".qt"] then ascii "video/quicktime"
    else if dot ∈ [ascii ".mpeg",ascii ".mpe"] then ascii "video/mpeg"
    else if dot ∈ [ascii ".vrml",ascii ".wrl"] then ascii "model/vrml"
    else if dot ∈ [ascii ".midi",ascii ".mid"] then ascii "audio/midi"
    else if dot = ascii ".mp3" then ascii "audio/mpeg"
    else if dot = ascii ".ogg" then ascii "application/ogg"
    else if dot = ascii ".pac" then ascii "application/x-ns-proxy-autoconfig"
    else ascii "text/plain; charset=iso-8859-1"

/- `found` says whether stat finds the name and whether that is a directory. -/
structure FileSystem where
  found : Option Bool
  index : Bool
  contents : Bool
  listed : Bool
  deriving DecidableEq, Repr

inductive Call where
  | stat (name : List UInt8) | open (name : List UInt8) | scandir (name : List UInt8)
  deriving DecidableEq, Repr

def Call.name : Call → List UInt8
  | .stat name | .open name | .scandir name => name

inductive Reply where
  | error (status : Int) (title : List UInt8) (headers : Option (List UInt8)) (text : List UInt8)
  | contents (mime : List UInt8)
  | listing
  deriving DecidableEq, Repr

def badRequest (text : String) : Reply := .error 400 (ascii "Bad Request") none (ascii text)

def sendFile (fs : FileSystem) (file : List UInt8) : Reply :=
  if fs.contents then .contents (contentType file)
  else .error 403 (ascii "Forbidden") none (ascii "File is protected.\n")

def lookUp (fs : FileSystem) (path file : List UInt8) : List Call × Reply :=
  match fs.found with
  | none => ([.stat file],.error 404 (ascii "Not Found") none (ascii "File not found.\n"))
  | some false => ([.stat file,.open file],sendFile fs file)
  | some true =>
    if file.getLast? ≠ some 47 then
      let location := (ascii "Location: " ++ path ++ ascii "/\r\n").take 9998
      ([.stat file],.error 302 (ascii "Found") (some location) (ascii "Directories must end with a slash.\n"))
    else
      let idx := (file ++ ascii "index.html").take 9998
      if fs.index then ([.stat file,.stat idx,.open idx],sendFile fs idx)
      else if fs.listed then ([.stat file,.stat idx,.scandir file],.listing)
      else ([.stat file,.stat idx,.scandir file],
        .error 500 (ascii "Internal Server Error") none (ascii "The server encountered an error.\n"))

/- `none` is a request that recv could not read. `before` lies in front of the buffer of the
path, and `literal` in front of the name that stands for the root. -/
def checkAndSend (request : Option (List UInt8)) (before literal : List UInt8) (fs : FileSystem) :
    List Call × Reply :=
  match request with
  | none => ([],badRequest "No request found.\n")
  | some line => match sscanf (cstring line) with
    | none => ([],badRequest "Can't parse request.\n")
    | some (method,path,_) =>
      if ¬ strcasecmp method (ascii "get") then
        ([],.error 501 (ascii "Not Implemented") none (ascii "That method is not implemented.\n"))
      else if path.head? ≠ some 47 then ([],badRequest "Bad filename.\n")
      else
        let file := fileName path
        let front := if cstring (strDecode path.tail) = [] then literal else before ++ [47]
        if forbidden front file then ([],badRequest "Illegal filename.\n")
        else lookUp fs (47::cstring (strDecode path.tail)) file

def Contained (name : List UInt8) : Prop :=
  name.head? ≠ some 47 ∧ ascii ".." ∉ name.splitOn 47

instance (name : List UInt8) : Decidable (Contained name) := inferInstanceAs (Decidable (_ ∧ _))

theorem parentExact (name : List UInt8) : ascii ".." ∈ name.splitOn 47 ↔
    name = ascii ".." ∨ ascii "../" <+: name ∨ ascii "/../" <:+: name ∨ ascii "/.." <:+ name := by
  have parent : ascii ".." = [46,46] := by decide
  have start : ascii "../" = [46,46,47] := by decide
  have middle : ascii "/../" = [47,46,46,47] := by decide
  have last : ascii "/.." = [47,46,46] := by decide
  rw [componentExact (by decide),parent,start,middle,last]
  have atStart : [47,46,46,47] <+: 47::(name ++ [47]) ↔ name = [46,46] ∨ [46,46,47] <+: name := by
    rw [List.cons_prefix_cons,List.prefix_concat_iff]
    have whole : [46,46,47] = name ++ [47] ↔ name = [46,46] :=
      (@List.append_left_inj _ [46,46] name [47]).trans eq_comm
    simp [whole]
  have atEnd : [47,46,46,47] <:+ name ++ [47] ↔ [47,46,46] <:+ name := by
    constructor
    · rintro ⟨t,eq⟩
      have same : t ++ [47,46,46] ++ [47] = name ++ [47] := by simpa using eq
      exact ⟨t,List.append_cancel_right same⟩
    · rintro ⟨t,rfl⟩; exact ⟨t,by simp⟩
  change [47,46,46,47] <:+: 47::(name ++ [47]) ↔ _
  rw [List.infix_cons_iff,List.infix_concat_iff,atStart,atEnd,or_assoc,@or_comm ([47,46,46] <:+ name)]

theorem strstrExact {s needle : List UInt8} : (strstr s needle).isSome = true ↔ needle <:+: s := by
  constructor
  · intro found
    obtain ⟨r,hr⟩ := Option.isSome_iff_exists.mp found
    obtain ⟨suffix,starts⟩ := searchSound hr
    exact (List.isPrefixOf_iff_prefix.mp starts).isInfix.trans suffix.isInfix
  · intro inside
    obtain ⟨r,starts,suffix⟩ := List.infix_iff_prefix_suffix.mp inside
    rw [Option.isSome_iff_ne_none]
    intro none
    have away := searchNone.mp none r suffix
    rw [List.isPrefixOf_iff_prefix.mpr starts] at away
    contradiction

theorem lastThree {memory : List UInt8} :
    cstring (memory.drop (memory.length - 3)) = ascii "/.." ↔ ascii "/.." <:+ memory := by
  have last : ascii "/.." = [47,46,46] := by decide
  rw [last]
  constructor
  · intro same
    have isPrefix : cstring (memory.drop (memory.length - 3)) <+: memory.drop (memory.length - 3) :=
      List.takeWhile_prefix _
    rw [same] at isPrefix
    have least := isPrefix.length_le
    rw [isPrefix.eq_of_length (by simp at least ⊢; omega)]
    exact List.drop_suffix _ _
  · intro suffix
    rw [show memory.drop (memory.length - 3) = [47,46,46] from (List.suffix_iff_eq_drop.mp suffix).symm]
    decide

/- What the last test reads in front of a short name decides nothing: next to the name stands
the path's slash, or the name is the root's. -/
theorem endsWithParent {front file : List UInt8} (nonempty : file ≠ [])
    (known : (∃ before, front = before ++ [47]) ∨ file = ascii "./")
    (h : ascii "/.." <:+ front ++ file) : file = ascii ".." ∨ ascii "/.." <:+ file := by
  have last : ascii "/.." = [47,46,46] := by decide
  rw [last] at h ⊢
  obtain ⟨pre,eq⟩ := h
  rcases List.append_eq_append_iff.mp eq with ⟨as,before,inside⟩ | ⟨bs,_,within⟩
  · rcases as with _ | ⟨a,_ | ⟨b,_ | ⟨c,as⟩⟩⟩
    · exact Or.inr ⟨[],by simpa using inside⟩
    · simp only [List.cons_append,List.nil_append,List.cons.injEq] at inside
      exact Or.inl (inside.2.symm.trans (by decide))
    · simp only [List.cons_append,List.nil_append,List.cons.injEq] at inside
      obtain ⟨rfl,rfl,rfl⟩ := inside
      rcases known with ⟨front',slash⟩ | root
      · rw [before] at slash
        have := congrArg List.getLast? slash
        simp at this
      · contradiction
    · simp at inside
      exact absurd inside.2.2.2.2 nonempty
  · exact Or.inr ⟨bs,within.symm⟩

theorem forbiddenExact {front file : List UInt8} (nonempty : file ≠ [])
    (known : (∃ before, front = before ++ [47]) ∨ file = ascii "./") :
    forbidden front file = true ↔ ¬ Contained file := by
  have start : file.take 3 = ascii "../" ↔ ascii "../" <+: file := by
    rw [List.prefix_iff_eq_take,eq_comm]; rfl
  have ends : ascii "/.." <:+ front ++ file → file = ascii ".." ∨ ascii "/.." <:+ file :=
    endsWithParent nonempty known
  have suffix : ascii "/.." <:+ file → ascii "/.." <:+ front ++ file :=
    fun h => h.trans (List.suffix_append _ _)
  have behind : file = ascii ".." ∨ ascii "/.." <:+ front ++ file ↔
      file = ascii ".." ∨ ascii "/.." <:+ file :=
    ⟨fun h => h.elim Or.inl ends,Or.imp_right suffix⟩
  simp only [forbidden,Bool.or_eq_true,beq_iff_eq,strstrExact,lastThree,start,Contained,parentExact,
    not_and_or,not_not]
  grind

theorem strDecodeLength (s : List UInt8) : (strDecode s).length ≤ s.length := by
  fun_induction strDecode s <;> simp <;> omega

theorem fileNameNonempty (path : List UInt8) : fileName path ≠ [] := by
  unfold fileName
  dsimp only
  split
  · decide
  · assumption

theorem fileNameLength {path : List UInt8} (fits : path.length ≤ 9999) : (fileName path).length ≤ 9998 := by
  have decoded := strDecodeLength path.tail
  have cut : (cstring (strDecode path.tail)).length ≤ (strDecode path.tail).length :=
    (List.takeWhile_prefix _).length_le
  rw [List.length_tail] at decoded
  unfold fileName
  dsimp only
  split
  · decide
  · omega

theorem indexContained {file : List UInt8} (contained : Contained file) (dir : file.getLast? = some 47)
    (fits : file.length ≤ 9998) : Contained ((file ++ ascii "index.html").take 9998) := by
  obtain ⟨dir',rfl⟩ := List.getLast?_eq_some_iff.mp dir
  obtain ⟨relative,inside⟩ := contained
  rw [List.take_append,List.take_of_length_le fits]
  generalize 9998 - (dir' ++ [47]).length = n
  have plain : 47 ∉ (ascii "index.html").take n := fun mem => by
    have := List.mem_of_mem_take mem
    revert this
    decide
  constructor
  · cases dir' with
    | nil => simp at relative
    | cons c dir' => simpa using relative
  · rw [List.append_assoc,List.singleton_append,List.splitOn_append_cons_self,List.splitOn_eq_singleton plain]
    rw [List.splitOn_append_cons_self] at inside
    have other : ascii ".." ≠ (ascii "index.html").take n := by
      cases n with
      | zero => decide
      | succ n => intro same; have := congrArg List.head? same; simp [ascii] at this; contradiction
    simp only [List.mem_append,List.mem_singleton,not_or] at inside ⊢
    exact ⟨inside.1,other⟩

theorem lookUpContained {fs : FileSystem} {path file : List UInt8} (contained : Contained file)
    (fits : file.length ≤ 9998) : ∀ c ∈ (lookUp fs path file).1, Contained c.name := by
  unfold lookUp
  split
  · simpa [Call.name] using contained
  · simpa [Call.name] using contained
  · split
    · simpa [Call.name] using contained
    · rename_i dir
      have index := indexContained contained (by simpa using dir) fits
      dsimp only
      split
      · simp [Call.name,contained,index]
      · split <;> simp [Call.name,contained,index]

theorem lookUpLegal (fs : FileSystem) (path file : List UInt8) (text : String) :
    (lookUp fs path file).2 ≠ badRequest text := by
  have sent : ∀ name, sendFile fs name ≠ badRequest text := by
    intro name
    unfold sendFile
    split <;> simp [badRequest]
  unfold lookUp
  split
  · simp [badRequest]
  · exact sent _
  · split
    · simp [badRequest]
    · dsimp only
      split
      · exact sent _
      · split <;> simp [badRequest]

theorem checkedName {line method path protocol : List UInt8} (before literal : List UInt8)
    (fs : FileSystem) (parsed : sscanf (cstring line) = some (method,path,protocol)) :
    (∃ text, (checkAndSend (some line) before literal fs) = ([],text) ∧
      (Contained (fileName path) → text ≠ badRequest "Illegal filename.\n")) ∨
    (Contained (fileName path) ∧
      checkAndSend (some line) before literal fs =
        lookUp fs (47::cstring (strDecode path.tail)) (fileName path)) := by
  have bad : badRequest "Bad filename.\n" ≠ badRequest "Illegal filename.\n" := by decide
  simp only [checkAndSend,parsed]
  split
  · exact Or.inl ⟨_,rfl,by simp [badRequest]⟩
  · split
    · exact Or.inl ⟨_,rfl,fun _ => bad⟩
    · generalize hf : (if cstring (strDecode path.tail) = [] then literal else before ++ [47]) = front
      have known : (∃ before, front = before ++ [47]) ∨ fileName path = ascii "./" := by
        by_cases root : cstring (strDecode path.tail) = []
        · exact Or.inr (by simp [fileName,root])
        · exact Or.inl ⟨before,by simp [← hf,root]⟩
      have exact := forbiddenExact (fileNameNonempty path) known
      split
      · rename_i evil
        exact Or.inl ⟨_,rfl,fun contained => absurd contained (exact.mp evil)⟩
      · rename_i fine
        exact Or.inr ⟨by simpa [exact] using fine,rfl⟩

def Fits (request : Option (List UInt8)) : Prop := ∀ line method path protocol, request = some line →
  sscanf (cstring line) = some (method,path,protocol) →
  method.length < 10000 ∧ path.length < 10000 ∧ protocol.length < 10000

/-- Every name handed to the file system is contained, and no contained name is called illegal. -/
theorem documentRootContained {request : Option (List UInt8)} {before literal : List UInt8}
    {fs : FileSystem} (fits : Fits request) :
    (∀ c ∈ (checkAndSend request before literal fs).1, Contained c.name) ∧
    ∀ line method path protocol, request = some line →
      sscanf (cstring line) = some (method,path,protocol) → Contained (fileName path) →
      (checkAndSend request before literal fs).2 ≠ badRequest "Illegal filename.\n" := by
  constructor
  · intro c called
    cases request with
    | none => simp [checkAndSend] at called
    | some line =>
      cases parsed : sscanf (cstring line) with
      | none => simp [checkAndSend,parsed] at called
      | some tokens =>
        obtain ⟨method,path,protocol⟩ := tokens
        rcases checkedName before literal fs parsed with
          ⟨_,away,_⟩ | ⟨contained,looked⟩
        · simp [away] at called
        · rw [looked] at called
          have room := (fits line method path protocol rfl parsed).2.1
          exact lookUpContained contained (fileNameLength (by omega)) c called
  · rintro line method path protocol rfl parsed contained
    rcases checkedName before literal fs parsed with
      ⟨_,away,legal⟩ | ⟨_,looked⟩
    · rw [away]; exact legal contained
    · rw [looked]; exact lookUpLegal _ _ _ _

theorem documentRootContainedIndex :
    checkAndSend (some (ascii "GET /a%2fb/ HTTP/1.0\r\n\r\n")) [] [] ⟨some true,false,true,true⟩ =
      ([.stat (ascii "a/b/"),.stat (ascii "a/b/index.html"),.scandir (ascii "a/b/")],.listing) ∧
    ∀ c ∈ (checkAndSend (some (ascii "GET /a%2fb/ HTTP/1.0\r\n\r\n")) [] []
      ⟨some true,false,true,true⟩).1, Contained c.name := by
  refine ⟨by decide,(documentRootContained ?_).1⟩
  intro line method path protocol same parsed
  cases Option.some.inj same
  have tokens : sscanf (cstring (ascii "GET /a%2fb/ HTTP/1.0\r\n\r\n")) =
      some (ascii "GET",ascii "/a%2fb/",ascii "HTTP/1.0\r\n\r\n") := by decide
  cases Option.some.inj (tokens.symm.trans parsed)
  decide

end IttyBittyServer.CheckAndSend
