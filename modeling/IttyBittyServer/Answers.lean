import IttyBittyServer.CheckAndSend
import IttyBittyServer.Response

/-! What checkAndSend does with its connection: the calls of sendResponse, each with the
body and the length that it is given, and the unlocking of the node's mutex. -/
namespace IttyBittyServer.Answers
open Text Sockets Response CheckAndSend

structure Stat where
  isDir : Bool
  size : Nat
  deriving DecidableEq, Repr

/- A mapping has the size that was asked for, and an entry's name fits its d_name. -/
structure Files where
  stat : List UInt8 → Option Stat
  opens : List UInt8 → Bool
  mmap : List UInt8 → Nat → Option (List UInt8)
  scandir : List UInt8 → Option (List (List UInt8))
  mapped : ∀ file size contents, mmap file size = some contents → contents.length = size
  named : ∀ dir dl, scandir dir = some dl → ∀ name ∈ dl, name.length ≤ 255

inductive Conn where
  | connection (received : Option (List UInt8))
  | memnode (line : List UInt8)
  deriving DecidableEq, Repr

def Conn.shared : Conn → Bool
  | .connection _ => false
  | .memnode _ => true

def Conn.line : Conn → Option (List UInt8)
  | .connection received => received
  | .memnode line => some line

inductive Effect where
  | response (status : Int) (title : List UInt8) (headers : Option (List UInt8))
    (mime : List UInt8) (length : Int) (body : List UInt8)
  | unlock
  deriving DecidableEq, Repr

/- A wait on the condition has the mutex back when it returns. -/
def sendResponse (status : Int) (title : List UInt8) (headers : Option (List UInt8))
    (mime : List UInt8) (length : Int) (body : List UInt8) (shared : Bool) : List Effect :=
  .response status title headers mime length body::if shared then [.unlock] else []

def sendError (status : Int) (title : List UInt8) (headers : Option (List UInt8))
    (text : List UInt8) (shared : Bool) : List Effect :=
  let buf := errorPage status title text
  let strLen := int buf.length
  sendResponse status title headers (ascii "text/html") strLen buf shared

def fileContents (files : Files) (file : List UInt8) (size : Nat) : Option (List UInt8) :=
  if files.opens file then files.mmap file size else none

/- The link is one byte short of its text. -/
def link (toAdd : List UInt8) : List UInt8 :=
  let i := toAdd.length * 2 + (ascii "<a href=\"\"></a><br />\n").length + 1
  snprintf (i - 1) (ascii "<a href=\"" ++ toAdd ++ ascii "\">" ++ toAdd ++ ascii "</a><br />\n")

def appendStr (content : Option (List UInt8)) (toAdd : List UInt8) : List UInt8 :=
  match content with
  | none => toAdd
  | some content =>
    let toAssign := if (strstr toAdd (ascii "Squinn!")).isSome then toAdd else link toAdd
    content ++ toAssign.take (content.length + toAssign.length)

def listEntries (contents : List UInt8) (size : Int) : List (List UInt8) → List UInt8 × Int
  | [] => (contents,size)
  | name::rest =>
    let before := int contents.length
    let contents := appendStr (some contents) name
    let after := int contents.length
    listEntries contents (size + int (after - before)) rest

def listingHead (file : List UInt8) : List UInt8 :=
  snprintf 9999 (ascii "<html><head><title>Index of " ++ file ++
    ascii "</title></head>\n<body bgcolor=\"#99CC99\"><h3>Index of " ++ file ++ ascii "</h3>\n<pre>\n")

def listingFoot : List UInt8 :=
  snprintf 9999 (ascii "</pre>\n<hr /><address><a href=\"http://www.magsolweb.net\">Squinn!</a>" ++
    ascii "</address>\n</body></html>\n")

def listing (file : List UInt8) (dl : List (List UInt8)) : List UInt8 × Int :=
  let buf := listingHead file
  let (contents,size) := listEntries (appendStr none buf) buf.length dl
  (appendStr (some contents) listingFoot,size + listingFoot.length)

def sendFile (files : Files) (file : List UInt8) (size : Nat) (shared : Bool) : List Effect :=
  match fileContents files file size with
  | none => sendError 403 (ascii "Forbidden") none (ascii "File is protected.\n") shared
  | some contents => sendResponse 200 (ascii "OK") none (contentType file) size contents shared

def lookUp (files : Files) (path file : List UInt8) (shared : Bool) : List Effect :=
  match files.stat file with
  | none => sendError 404 (ascii "Not Found") none (ascii "File not found.\n") shared
  | some sb =>
    if sb.isDir then
      if file.getLast? ≠ some 47 then
        let location := snprintf 9999 (ascii "Location: " ++ path ++ ascii "/\r\n")
        sendError 302 (ascii "Found") (some location) (ascii "Directories must end with a slash.\n") shared
      else
        let idx := snprintf 9999 (file ++ ascii "index.html")
        match files.stat idx with
        | some sb => sendFile files idx sb.size shared
        | none =>
          match files.scandir file with
          | none => sendError 500 (ascii "Internal Server Error") none
              (ascii "The server encountered an error.\n") shared
          | some dl =>
            let (contents,size) := listing file dl
            sendResponse 200 (ascii "OK") none (ascii "text/html") size contents shared
    else sendFile files file sb.size shared

/- `before` and `literal` are as in the model of the names alone. -/
def checkAndSend (files : Files) (before literal : List UInt8) (conn : Conn) : List Effect :=
  match conn.line with
  | none => sendError 400 (ascii "Bad Request") none (ascii "No request found.\n") conn.shared
  | some line =>
    match sscanf (cstring line) with
    | none => sendError 400 (ascii "Bad Request") none (ascii "Can't parse request.\n") conn.shared
    | some (method,path,_) =>
      if ¬ strcasecmp method (ascii "get") then
        sendError 501 (ascii "Not Implemented") none (ascii "That method is not implemented.\n") conn.shared
      else if path.head? ≠ some 47 then
        sendError 400 (ascii "Bad Request") none (ascii "Bad filename.\n") conn.shared
      else
        let file := fileName path
        let front := if cstring (strDecode path.tail) = [] then literal else before ++ [47]
        if forbidden front file then
          sendError 400 (ascii "Bad Request") none (ascii "Illegal filename.\n") conn.shared
        else lookUp files (47::cstring (strDecode path.tail)) file conn.shared

def Answered (shared : Bool) (trace : List Effect) : Prop :=
  ∃ status title headers mime body, trace =
    .response status title headers mime body.length body::if shared then [.unlock] else []

section
variable {shared : Bool}

theorem responseAnswered {status : Int} {title mime body : List UInt8} {headers : Option (List UInt8)}
    {length : Int} (counted : length = body.length) :
    Answered shared (sendResponse status title headers mime length body shared) :=
  ⟨status,title,headers,mime,body,by rw [counted]; rfl⟩

theorem errorAnswered (status : Int) (title : List UInt8) (headers : Option (List UInt8))
    (text : List UInt8) : Answered shared (sendError status title headers text shared) := by
  have page : (errorPage status title text).length ≤ 9998 := by
    unfold errorPage snprintf
    exact List.length_take_le _ _
  exact responseAnswered (intExact (by omega) (by omega))

theorem fileAnswered (files : Files) (file : List UInt8) (size : Nat) :
    Answered shared (sendFile files file size shared) := by
  unfold sendFile
  cases found : fileContents files file size with
  | none => exact errorAnswered _ _ _ _
  | some contents =>
    unfold fileContents at found
    split at found <;> try contradiction
    exact responseAnswered (by rw [files.mapped file size contents found])

theorem linkLength (toAdd : List UInt8) : (link toAdd).length = 2 * toAdd.length + 21 := by
  have around : (ascii "<a href=\"\"></a><br />\n").length = 22 := by decide
  have parts : (ascii "<a href=\"").length = 9 ∧ (ascii "\">").length = 2 ∧
      (ascii "</a><br />\n").length = 11 := by decide
  unfold link snprintf
  simp only [List.length_take,List.length_append,around,parts]
  omega

theorem appendLength (content toAdd : List UInt8) :
    ∃ n, n ≤ 2 * toAdd.length + 21 ∧
      (appendStr (some content) toAdd).length = content.length + n := by
  have link := linkLength toAdd
  unfold appendStr
  simp only [List.length_append,List.length_take,Nat.add_left_cancel_iff]
  split
  · exact ⟨_,by omega,rfl⟩
  · exact ⟨_,by omega,rfl⟩

theorem differenceExact {b n : Nat} (small : n < 2 ^ 31) :
    int (int (b + n : Nat) - int b) = n := by
  have wrapped : int (int (b + n : Nat) - int b) = int n := by
    unfold int
    rw [← Int.sub_bmod]
    congr 1
    omega
  rw [wrapped]
  exact intExact (by omega) (by omega)

theorem entriesCounted {dl : List (List UInt8)} {contents : List UInt8} {size : Int}
    (short : ∀ name ∈ dl, name.length ≤ 255) (counted : size = contents.length) :
    (listEntries contents size dl).2 = (listEntries contents size dl).1.length := by
  induction dl generalizing contents size with
  | nil => exact counted
  | cons name rest ih =>
    obtain ⟨n,most,length⟩ := appendLength contents name
    have small := short name List.mem_cons_self
    refine ih (fun other mem => short other (List.mem_cons_of_mem name mem)) ?_
    rw [length,differenceExact (by omega),counted]
    omega

theorem footAppended (content : List UInt8) :
    appendStr (some content) listingFoot = content ++ listingFoot := by
  have named : (strstr listingFoot (ascii "Squinn!")).isSome = true := by decide +kernel
  unfold appendStr
  simp only [named,if_true]
  rw [List.take_of_length_le (by omega)]

theorem listingCounted {file : List UInt8} {dl : List (List UInt8)}
    (short : ∀ name ∈ dl, name.length ≤ 255) :
    (listing file dl).2 = (listing file dl).1.length := by
  have counted := @entriesCounted dl (appendStr none (listingHead file)) (listingHead file).length
    short rfl
  simp only [listing,footAppended,List.length_append,counted]
  omega

theorem lookUpAnswered (files : Files) (path file : List UInt8) :
    Answered shared (lookUp files path file shared) := by
  unfold lookUp
  split
  · exact errorAnswered _ _ _ _
  · split
    · split
      · exact errorAnswered _ _ _ _
      · dsimp only
        split
        · exact fileAnswered _ _ _
        · split
          · exact errorAnswered _ _ _ _
          · rename_i dl found
            exact responseAnswered (listingCounted (files.named file dl found))
    · exact fileAnswered _ _ _

end

theorem answeredOnce (files : Files) (before literal : List UInt8) (conn : Conn) :
    Answered conn.shared (checkAndSend files before literal conn) := by
  unfold checkAndSend
  split
  · exact errorAnswered _ _ _ _
  · split
    · exact errorAnswered _ _ _ _
    · rename_i method path protocol parsed
      split
      · exact errorAnswered _ _ _ _
      · split
        · exact errorAnswered _ _ _ _
        · dsimp only
          generalize (if cstring (strDecode path.tail) = [] then literal else before ++ [47]) = front
          split
          · exact errorAnswered _ _ _ _
          · exact lookUpAnswered _ _ _

def seen (files : Files) (file : List UInt8) : FileSystem :=
  let idx := (file ++ ascii "index.html").take 9998
  let contents (name : List UInt8) : Bool :=
    match files.stat name with
    | none => false
    | some sb => (fileContents files name sb.size).isSome
  { found := (files.stat file).map Stat.isDir
    index := (files.stat idx).isSome
    contents := match files.stat file with
      | some ⟨true,_⟩ => contents idx
      | _ => contents file
    listed := (files.scandir file).isSome }

def Reply.Sent (shared : Bool) (trace : List Effect) : Reply → Prop
  | .error status title headers text => trace = sendError status title headers text shared
  | .contents mime => ∃ length body,
    trace = sendResponse 200 (ascii "OK") none mime length body shared
  | .listing => ∃ length body,
    trace = sendResponse 200 (ascii "OK") none (ascii "text/html") length body shared

theorem fileReply (files : Files) (fs : FileSystem) (file : List UInt8) (size : Nat) (shared : Bool)
    (same : fs.contents = (fileContents files file size).isSome) :
    Reply.Sent shared (sendFile files file size shared) (CheckAndSend.sendFile fs file) := by
  unfold sendFile CheckAndSend.sendFile
  cases found : fileContents files file size with
  | none => rw [found] at same; rw [same]; rfl
  | some contents => rw [found] at same; rw [same]; exact ⟨_,_,rfl⟩

theorem lookUpReply (files : Files) (path file : List UInt8) (shared : Bool) :
    Reply.Sent shared (lookUp files path file shared)
      (CheckAndSend.lookUp (seen files file) path file).2 := by
  unfold lookUp CheckAndSend.lookUp
  cases found : files.stat file with
  | none => simp [seen,found,Reply.Sent]
  | some sb =>
    obtain ⟨isDir,size⟩ := sb
    cases isDir with
    | false =>
      simp only [seen,found,Option.map_some,Bool.false_eq_true,if_false]
      exact fileReply _ _ _ _ _ (by simp)
    | true =>
      have dir : (seen files file).found = some true := by simp [seen,found]
      have index : (seen files file).index =
          (files.stat ((file ++ ascii "index.html").take 9998)).isSome := rfl
      have listed : (seen files file).listed = (files.scandir file).isSome := rfl
      have contents : (seen files file).contents =
          match files.stat ((file ++ ascii "index.html").take 9998) with
          | none => false
          | some sb => (fileContents files ((file ++ ascii "index.html").take 9998) sb.size).isSome := by
        simp [seen,found]
      simp only [dir,if_true,snprintf]
      split
      · rfl
      · rw [index]
        cases at_ : files.stat ((file ++ ascii "index.html").take 9998) with
        | some sb => exact fileReply _ _ _ _ _ (by rw [contents,at_])
        | none =>
          rw [listed]
          cases entries : files.scandir file with
          | none => rfl
          | some dl => exact ⟨_,_,rfl⟩

theorem sameReply {files : Files} {fs : FileSystem} {before literal : List UInt8} {conn : Conn}
    (same : ∀ line method path protocol, conn.line = some line →
      sscanf (cstring line) = some (method,path,protocol) → fs = seen files (fileName path)) :
    Reply.Sent conn.shared (checkAndSend files before literal conn)
      (CheckAndSend.checkAndSend conn.line before literal fs).2 := by
  unfold checkAndSend CheckAndSend.checkAndSend
  cases request : conn.line with
  | none => rfl
  | some line =>
    dsimp only
    cases parsed : sscanf (cstring line) with
    | none => rfl
    | some tokens =>
      obtain ⟨method,path,protocol⟩ := tokens
      obtain rfl := same line method path protocol request parsed
      dsimp only
      split
      · rfl
      · split
        · rfl
        · generalize (if cstring (strDecode path.tail) = [] then literal else before ++ [47]) = front
          split
          · rfl
          · exact lookUpReply _ _ _ _

end IttyBittyServer.Answers
