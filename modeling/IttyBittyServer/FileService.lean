import IttyBittyServer.Answers
import IttyBittyServer.RequestMemory

/-! Which requests for a file get its contents: the flat file, the index of a directory, and
what mmap makes of a file without bytes. -/
namespace IttyBittyServer.FileService
open Text Sockets
open CheckAndSend (sscanf fileName strDecode forbidden contentType)
open Answers (Files Conn Effect sendResponse sendError sendFile lookUp)

def TokensFit (conn : Conn) : Prop :=
  ∀ line ∈ conn.line, ∀ token ∈ RequestMemory.tokens (cstring line) 3, token.length ≤ 9999

instance (conn : Conn) : Decidable (TokensFit conn) :=
  inferInstanceAs (Decidable (∀ line ∈ conn.line, ∀ token ∈ RequestMemory.tokens (cstring line) 3, _))

def checkAndSend (files : Files) (before literal : List UInt8) (conn : Conn) : Option (List Effect) :=
  if TokensFit conn then some (Answers.checkAndSend files before literal conn) else none

def Accepted (before literal : List UInt8) (conn : Conn) (file : List UInt8) : Prop :=
  ∃ line method path protocol, conn.line = some line ∧ sscanf (cstring line) = some (method,path,protocol) ∧
    strcasecmp method (ascii "get") = true ∧ path.head? = some 47 ∧ fileName path = file ∧
    forbidden (if cstring (strDecode path.tail) = [] then literal else before ++ [47]) file = false

/- A regular file that can be opened for reading. mmap fails for a length of 0 alone. -/
structure Regular (files : Files) (name contents : List UInt8) : Prop where
  stat : files.stat name = some ⟨false,contents.length⟩
  opened : files.opens name = true
  invalid : files.mmap name 0 = none
  mapped : contents ≠ [] → files.mmap name contents.length = some contents

inductive Readable (files : Files) (file contents : List UInt8) : Prop where
  | flat (here : Regular files file contents)
  | index {size : Nat} (dir : files.stat file = some ⟨true,size⟩) (slash : file.getLast? = some 47)
      (here : Regular files (file ++ ascii "index.html") contents)

def Served (files : Files) (before literal : List UInt8) (conn : Conn) (contents : List UInt8) : Prop :=
  ∃ mime, checkAndSend files before literal conn =
    some (sendResponse 200 (ascii "OK") none mime contents.length contents conn.shared)

def IndexFits (file : List UInt8) : Prop := file.getLast? = some 47 → file.length ≤ 9988

section
variable {files : Files} {before literal file contents : List UInt8} {conn : Conn}

theorem acceptedLooks (accepted : Accepted before literal conn file) : ∃ name, 0 ∉ name ∧
    file = (if name = [] then ascii "./" else name) ∧ ∀ files : Files,
      Answers.checkAndSend files before literal conn = lookUp files (47::name) file conn.shared := by
  obtain ⟨line,method,path,protocol,received,parsed,get,slash,rfl,legal⟩ := accepted
  refine ⟨cstring (strDecode path.tail),cstringNoNul _,rfl,fun files => ?_⟩
  simp only [Answers.checkAndSend,received,parsed]
  rw [if_neg (not_not.mpr get),if_neg (not_not.mpr slash),legal]
  rfl

theorem regularSent (regular : Regular files file contents) (some_ : contents ≠ []) (shared : Bool) :
    sendFile files file contents.length shared =
      sendResponse 200 (ascii "OK") none (contentType file) contents.length contents shared := by
  rw [sendFile,Answers.fileContents,if_pos regular.opened,regular.mapped some_]

theorem emptyForbidden (regular : Regular files file []) (shared : Bool) : sendFile files file 0 shared =
    sendError 403 (ascii "Forbidden") none (ascii "File is protected.\n") shared := by
  rw [sendFile,Answers.fileContents,if_pos regular.opened,regular.invalid]

theorem indexWhole (fits : file.length ≤ 9988) :
    Response.snprintf 9999 (file ++ ascii "index.html") = file ++ ascii "index.html" := by
  have size : (ascii "index.html").length = 10 := by decide
  refine List.take_of_length_le ?_
  rw [List.length_append,size]
  omega

theorem readableSent (readable : Readable files file contents) (fits : IndexFits file) (path : List UInt8)
    (shared : Bool) : ∃ name, Regular files name contents ∧
      lookUp files path file shared = sendFile files name contents.length shared := by
  cases readable with
  | flat here =>
    refine ⟨file,here,?_⟩
    simp only [lookUp,here.stat]
    rfl
  | index dir slash here =>
    refine ⟨file ++ ascii "index.html",here,?_⟩
    simp only [lookUp,dir,if_true,indexWhole (fits slash),here.stat]
    rw [if_neg (not_not.mpr slash)]

theorem errorUnserved {status : Int} {title text : List UInt8} {headers : Option (List UInt8)}
    (error : status ≠ 200) (sent : Answers.checkAndSend files before literal conn =
      sendError status title headers text conn.shared) : ¬ Served files before literal conn contents := by
  rintro ⟨mime,answered⟩
  unfold checkAndSend at answered
  split at answered
  · rw [sent] at answered
    have first := (List.cons.inj (Option.some.inj answered)).1
    injection first with same
    exact error same
  · cases answered

theorem readableServed (accepted : Accepted before literal conn file) (tokens : TokensFit conn)
    (fits : IndexFits file) (readable : Readable files file contents) :
    Served files before literal conn contents ↔ contents ≠ [] := by
  obtain ⟨decoded,_,_,looks⟩ := acceptedLooks accepted
  obtain ⟨name,regular,sent⟩ := readableSent readable fits (47::decoded) conn.shared
  have all := (looks files).trans sent
  by_cases empty : contents = []
  · subst empty
    exact iff_of_false (errorUnserved (by decide) (all.trans (emptyForbidden regular conn.shared)))
      fun some_ => some_ rfl
  · refine iff_of_true ⟨contentType name,?_⟩ empty
    rw [checkAndSend,if_pos tokens,all,regularSent regular empty]

def holding (stat : List UInt8 → Option Answers.Stat) (file contents : List UInt8) : Files where
  stat := stat
  opens := fun _ => true
  mmap := fun name size => if name = file ∧ contents ≠ [] ∧ size = contents.length then some contents else none
  scandir := fun _ => none
  mapped := fun name size c here => by
    obtain ⟨⟨_,_,rfl⟩,same⟩ := Option.ite_none_right_eq_some.mp here
    rw [Option.some.inj same]
  named := fun _ _ here => by cases here

theorem holdingRegular {stat : List UInt8 → Option Answers.Stat}
    (here : stat file = some ⟨false,contents.length⟩) : Regular (holding stat file contents) file contents := by
  refine ⟨here,rfl,if_neg fun both => ?_,fun some_ => if_pos ⟨rfl,some_,rfl⟩⟩
  exact both.2.1 (List.length_eq_zero_iff.mp both.2.2.symm)

def flat (file contents : List UInt8) : Files :=
  holding (fun name => if name = file then some ⟨false,contents.length⟩ else none) file contents

theorem flatReadable (file contents : List UInt8) : Readable (flat file contents) file contents :=
  .flat (holdingRegular (if_pos rfl))

def directory (file contents : List UInt8) : Files :=
  holding (fun name => if name = file then some ⟨true,0⟩
    else if name = file ++ ascii "index.html" then some ⟨false,contents.length⟩ else none)
    (file ++ ascii "index.html") contents

theorem directoryFound (file contents : List UInt8) : (directory file contents).stat file = some ⟨true,0⟩ := if_pos rfl

theorem directoryReadable (contents : List UInt8) (slash : file.getLast? = some 47) :
    Readable (directory file contents) file contents := by
  have other : file ++ ascii "index.html" ≠ file := fun same => absurd (congrArg List.length same) (by simp [ascii])
  refine .index (directoryFound file contents) slash (holdingRegular ?_)
  rw [if_neg other,if_pos rfl]

theorem cutUnserved (accepted : Accepted before literal conn file) (slash : file.getLast? = some 47)
    (long : 9988 < file.length) : ¬ Served (directory file contents) before literal conn contents := by
  obtain ⟨decoded,_,_,looks⟩ := acceptedLooks accepted
  have size : (file ++ ascii "index.html").length = file.length + 10 := by simp [ascii]
  have cut : Response.snprintf 9999 (file ++ ascii "index.html") ≠ file ++ ascii "index.html" := fun same => by
    have short := congrArg List.length same
    rw [Response.snprintf,List.length_take] at short
    omega
  have all := looks (directory file contents)
  simp only [lookUp,directoryFound,if_true] at all
  rw [if_neg (not_not.mpr slash)] at all
  split at all
  · rename_i sb found
    have opened : (directory file contents).opens (Response.snprintf 9999 (file ++ ascii "index.html")) = true := rfl
    rw [sendFile,Answers.fileContents,if_pos opened] at all
    have unmapped : (directory file contents).mmap (Response.snprintf 9999 (file ++ ascii "index.html")) sb.size =
        none := if_neg fun both => cut both.1
    rw [unmapped] at all
    exact errorUnserved (by decide) all
  · exact errorUnserved (by decide) all

theorem servedSocket {mime : List UInt8} {client client' : Sender}
    (fits : (Response.responseHeader 200 (ascii "OK") none mime contents.length).length ≤ 9998)
    (noError : NoError client.answers)
    (sent : Response.sendResponse 200 (ascii "OK") none mime contents.length contents client = some client') :
    client'.sent = client.sent ++ Response.responseHeader 200 (ascii "OK") none mime contents.length ++ contents := by
  have whole : Response.snprintf 9999 (Response.responseHeader 200 (ascii "OK") none mime contents.length) =
      Response.responseHeader 200 (ascii "OK") none mime contents.length := List.take_of_length_le fits
  have all := Response.responseSent noError sent
  rwa [whole,← List.append_assoc] at all

end

def getPage : Conn := .connection (some (ascii "GET /page HTTP/1.0\r\n\r\n"))

theorem pageAccepted : Accepted [] [] getPage (ascii "page") :=
  ⟨_,_,_,_,rfl,(by decide +kernel : sscanf (cstring (ascii "GET /page HTTP/1.0\r\n\r\n")) =
    some (ascii "GET",ascii "/page",ascii "HTTP/1.0\r\n\r\n")),by decide,by decide,by decide,by decide⟩

end IttyBittyServer.FileService
