import IttyBittyServer.ExclusiveNodes
import IttyBittyServer.ServerReply

/-! The server's answer to a request that comes through a memnode. It is the one that a client
on a socket gets for the same request. -/
namespace IttyBittyServer.SharedService
open Text Sockets Run Rendezvous Transfer Segment
open Answers (Files Effect)
open ServerReply (Asking lineAsking requestLine Served send serverAnswers servedEffects answerFramed)

def handed : Effect → Option (List UInt8 × List UInt8)
  | .response status title headers mime length body =>
    some (Response.snprintf 9999 (Response.responseHeader status title headers mime length),body)
  | .unlock => none

def reply (files : Files) (before literal line : List UInt8) : Option (List UInt8 × List UInt8) := do
  let effects ← FileService.checkAndSend files before literal (.memnode line)
  let response ← effects.head?
  handed response

def serving (files : Files) (before literal : List UInt8) (s : State) : Event → Prop
  | .server i _ header body =>
    (s.servers i).pc = .respond → reply files before literal (s.servers i).line = some (header,body)
  | _ => True

instance (files : Files) (before literal : List UInt8) (s : State) (e : Event) :
    Decidable (serving files before literal s e) := by
  unfold serving
  cases e <;> infer_instance

def Replies (files : Files) (before literal : List UInt8) (s : State) : Prop :=
  ∀ line response, s.replied = some (line,response) → ∃ header body,
    reply files before literal line = some (header,body) ∧ response = header ++ body

section
variable {files : Files} {before literal path tail response : List UInt8} {s t : State}

theorem stepReplies {e : Event} (held : Replies files before literal s) (serves : serving files before literal s e)
    (next : step s e = some t) : Replies files before literal t := by
  intro line response replied
  cases e with
  | start request =>
    simp only [step] at next
    split at next <;> try contradiction
    cases Option.some.inj next
    cases replied
  | claim i =>
    simp only [step] at next
    split at next <;> try contradiction
    cases Option.some.inj next
    exact held line response replied
  | proxy woken sent =>
    simp only [step,bind,Option.bind_eq_some_iff] at next
    obtain ⟨_,_,next⟩ := next
    cases Option.some.inj next
    exact held line response replied
  | server i woken header body =>
    simp only [step,bind,Option.bind_eq_some_iff] at next
    obtain ⟨_,_,next⟩ := next
    cases Option.some.inj next
    dsimp only at replied
    split at replied
    · rename_i responds
      cases Option.some.inj replied
      exact ⟨header,body,serves responds,rfl⟩
    · exact held line response replied

theorem runReplies {es : List Event} (ran : run step s es = some t) (held : Replies files before literal s)
    (serves : Along step (serving files before literal) s es) : Replies files before literal t := by
  induction es generalizing s with
  | nil => cases Option.some.inj ran; exact held
  | cons e es ih =>
    obtain ⟨u,next,later⟩ := runCons ran
    exact ih later (stepReplies held serves.1 next) (serves.2 u next)

theorem fileHead (file : List UInt8) (size : Nat) : (Answers.sendFile files file size true).head? =
    (Answers.sendFile files file size false).head? := by
  unfold Answers.sendFile
  cases Answers.fileContents files file size <;> rfl

theorem lookUpHead (path file : List UInt8) : (Answers.lookUp files path file true).head? =
    (Answers.lookUp files path file false).head? := by
  unfold Answers.lookUp
  cases files.stat file with
  | none => rfl
  | some sb =>
    dsimp only
    split
    · split
      · rfl
      · split
        · exact fileHead _ _
        · split <;> rfl
    · exact fileHead _ _

theorem answerHead (line : List UInt8) : (Answers.checkAndSend files before literal (.memnode line)).head? =
    (Answers.checkAndSend files before literal (.connection (some line))).head? := by
  simp only [Answers.checkAndSend,Answers.Conn.line,Answers.Conn.shared]
  split
  · rfl
  · split
    · rfl
    · split
      · rfl
      · generalize (if cstring (CheckAndSend.strDecode _) = [] then literal else before ++ [47]) = front
        split
        · rfl
        · exact lookUpHead _ _

theorem socketReply {q : Asking} (served : Served files before literal q.bytes q.least response)
    {header body : List UInt8} (replied : reply files before literal q.bytes = some (header,body)) :
    response = header ++ body := by
  cases served with
  | @answered k rest client c read fresh accepted ran =>
    simp only [serverAnswers,servedEffects read,bind,Option.bind_some] at ran
    obtain ⟨status,title,headers,mime,text,shape,_⟩ := answerFramed files before literal (.connection (some q.bytes))
    simp only [reply,bind,Option.bind_eq_some_iff,FileService.checkAndSend] at replied
    obtain ⟨shared,fits,first,head,replied⟩ := replied
    split at fits <;> try contradiction
    cases Option.some.inj fits
    rw [answerHead,shape] at head
    rw [← Option.some.inj head] at replied
    obtain ⟨head,text_⟩ := Prod.mk.inj (Option.some.inj replied)
    rw [shape] at ran
    have once : Response.sendResponse status title headers mime text.length text client = some c := by
      simpa [List.foldlM,send,Answers.Conn.shared] using ran
    rw [Response.responseSent accepted once,fresh,List.nil_append,head,text_]

end

def pageFiles : Files := FileService.flat (ascii "a") [104,105]

def pageOnce : List Event :=
  let proxy : Event := .proxy (.server 0) 99
  let server : Event := .server 0 (.proxy 0)
    (Response.responseHeader 200 (ascii "OK") none (ascii "text/plain; charset=iso-8859-1") 2) [104,105]
  [.start (requestLine (ascii "/a") [])] ++ List.replicate 4 proxy ++ [.claim 0] ++ List.replicate 5 server ++
    List.replicate 11 proxy ++ List.replicate 13 server ++ List.replicate 6 proxy

theorem socketServed : ∃ response, Served pageFiles [] [] (requestLine (ascii "/a") []) 8 response := by
  have sent : (serverAnswers pageFiles [] [] ⟨requestLine (ascii "/a") [],[.upTo 99]⟩
      ⟨[],List.replicate 99 (.upTo 9)⟩).isSome = true := by decide +kernel
  obtain ⟨c,answered⟩ := Option.isSome_iff_exists.mp sent
  exact ⟨c.sent,.answered (by decide) rfl (by simp [NoError]) answered⟩

end IttyBittyServer.SharedService
