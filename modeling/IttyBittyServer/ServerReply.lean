import IttyBittyServer.ClientRequest
import IttyBittyServer.FileService

/-! The server's side of a connection: one recv for the request, and an answer that says how
long its body is. -/
namespace IttyBittyServer.ServerReply
open Sockets Text
open Header (eol blankLine bodyLength)
open CheckAndSend (scanToken sscanf strDecode)
open RequestMemory (tokens tokensThree)
open Answers (Files Conn Effect)
open FileService (TokensFit)

def requestLine (path tail : List UInt8) : List UInt8 :=
  ascii "GET" ++ 32::(path ++ 32::(ascii "HTTP/1.0\r\nHost:" ++ 32::tail))

section
variable {word rest path tail : List UInt8} {n : Nat}

theorem noTokens (n : Nat) : tokens [] n = [] := by
  cases n <;> rfl

theorem tokensCut (some_ : word ≠ []) (plain : 32 ∉ word)
    (begun : n ≠ 0 → ∀ c ∈ rest.head?, isspace c = false) (k : Nat) :
    tokens ((word ++ 32::rest).take k) (n + 1) =
      if k = 0 then [] else if k ≤ word.length then [word.take k]
      else word::tokens (rest.take (k - word.length - 1)) n := by
  by_cases zero : k = 0
  · simp [zero,tokens,scanToken]
  rw [if_neg zero]
  by_cases inside : k ≤ word.length
  · rw [if_pos inside,List.take_append_of_le_length inside]
    have away : 32 ∉ word.take k := fun mem => plain (List.mem_of_mem_take mem)
    have cut : word.take k ≠ [] := by simp [zero,some_]
    generalize word.take k = part at away cut
    have token : part.takeWhile (· ≠ 32) = part := wordExact away
    have nothing : part.dropWhile (· ≠ 32) = [] :=
      List.dropWhile_eq_nil_iff.mpr fun c mem => by simpa using fun same : c = 32 => away (same ▸ mem)
    cases part with
    | nil => exact absurd rfl cut
    | cons c part => simp only [tokens,scanToken,token,nothing,List.dropWhile_nil,noTokens]
  · obtain ⟨j,left⟩ : ∃ j, k = word.length + (j + 1) := ⟨k - word.length - 1,by omega⟩
    have behind : tokens ((32::rest.take j).dropWhile isspace) n = tokens (rest.take j) n := by
      rw [List.dropWhile_cons_of_pos (by decide)]
      cases n with
      | zero => rfl
      | succ n =>
        cases rest with
        | nil => simp
        | cons c rest =>
          have here := begun (by simp) c rfl
          cases j <;> simp [here]
    have token := @ClientRequest.scanWord word (rest.take j) some_ plain
    rw [if_neg inside,left,List.take_length_add_append,Nat.add_sub_cancel_left,Nat.add_sub_cancel,
      List.take_succ_cons]
    simp only [tokens,token,behind]

structure Path (path : List UInt8) : Prop where
  slash : path.head? = some 47
  blank : 32 ∉ path
  noNul : 0 ∉ path

/- A line as sscanf wants it: a method, a path and behind them a protocol, which all fit their arrays. -/
structure Asking where
  method : List UInt8
  path : List UInt8
  behind : List UInt8
  named : method ≠ [] ∧ 32 ∉ method ∧ 0 ∉ method ∧ method.length ≤ 9999
  asked : Path path
  short : path.length ≤ 9999
  begins : ∃ c rest, behind = c::rest ∧ isspace c = false ∧ c ≠ 0
  protocol : ((cstring behind).takeWhile (· ≠ 32)).length ≤ 9999

def Asking.bytes (q : Asking) : List UInt8 := q.method ++ 32::(q.path ++ 32::q.behind)

def Asking.least (q : Asking) : Nat := q.method.length + q.path.length + 3

theorem lastToken {c : UInt8} (plain : c ≠ 32) (k : Nat) : tokens ((c::rest).take k) 1 =
    if k = 0 then [] else [((c::rest).take k).takeWhile (· ≠ 32)] := by
  cases k with
  | zero => rfl
  | succ k => simp [tokens,scanToken,plain]

theorem askingTokens (q : Asking) (k : Nat) :
    (∀ token ∈ tokens ((cstring q.bytes).take k) 3, token.length ≤ 9999) ∧
    if q.least ≤ k then ∃ protocol, tokens ((cstring q.bytes).take k) 3 = [q.method,q.path,protocol]
    else (tokens ((cstring q.bytes).take k) 3).length < 3 := by
  obtain ⟨method,path,behind,⟨some_,plain,noNul,few⟩,asked,short,⟨c,rest,rfl,begins,nonzero⟩,protocol⟩ := q
  have front : 0 ∉ method ++ 32::(path ++ [32]) := by simp [noNul,asked.noNul]
  have whole : cstring (method ++ 32::(path ++ 32::c::rest)) = method ++ 32::(path ++ 32::c::cstring rest) := by
    have read := cstringAppend front (c::rest)
    have here : cstring (c::rest) = c::cstring rest := List.takeWhile_cons_of_pos (by simpa using nonzero)
    rw [here] at read
    simpa using read
  have other : c ≠ 32 := by
    rintro rfl
    exact absurd begins (by decide)
  have pathSome : path ≠ [] := fun none => by simpa [none] using asked.slash
  have slash : ∀ d ∈ (path ++ 32::c::cstring rest).head?, isspace d = false := by
    simp [asked.slash]
    decide
  obtain ⟨last,fits,scanned⟩ : ∃ last : List UInt8, last.length ≤ 9999 ∧
      tokens ((c::cstring rest).take (k - method.length - 1 - path.length - 1)) 1 =
        if k - method.length - 1 - path.length - 1 = 0 then [] else [last] := by
    refine ⟨_,?_,lastToken other _⟩
    have here : cstring (c::rest) = c::cstring rest := List.takeWhile_cons_of_pos (by simpa using nonzero)
    rw [here] at protocol
    rw [← List.take_takeWhile]
    exact Nat.le_trans (List.length_take_le' _ _) protocol
  have middle := @tokensCut path (c::cstring rest) 1 pathSome asked.blank
    (fun _ d here => by cases here; exact begins) (k - method.length - 1)
  have first := @tokensCut method _ 2 some_ plain (fun _ => slash) k
  simp only [Asking.bytes,Asking.least,whole,first,middle,scanned]
  split_ifs <;> simp <;> omega

theorem askingCut (q : Asking) (k : Nat) : cstring (q.bytes.take k) = (cstring q.bytes).take k :=
  List.take_takeWhile.symm

theorem askingParsed (q : Asking) {k : Nat} (enough : q.least ≤ k) :
    ∃ protocol, sscanf (cstring (q.bytes.take k)) = some (q.method,q.path,protocol) := by
  have three := (askingTokens q k).2
  rw [if_pos enough] at three
  obtain ⟨protocol,three⟩ := three
  exact ⟨protocol,tokensThree.mpr (by rw [askingCut,three])⟩

theorem askingWhole (q : Asking) : ∃ protocol, sscanf (cstring q.bytes) = some (q.method,q.path,protocol) := by
  have size : q.least ≤ q.bytes.length := by
    obtain ⟨c,rest,behind,_⟩ := q.begins
    simp only [Asking.least,Asking.bytes,behind,List.length_append,List.length_cons]
    omega
  have parsed := askingParsed q size
  rwa [List.take_length] at parsed

def lineAsking (ok : Path path) (short : path.length ≤ 9999) (tail : List UInt8) : Asking where
  method := ascii "GET"
  path := path
  behind := ascii "HTTP/1.0\r\nHost:" ++ 32::tail
  named := by decide
  asked := ok
  short := short
  begins := ⟨72,ascii "TTP/1.0\r\nHost:" ++ 32::tail,by
    have split : ascii "HTTP/1.0\r\nHost:" = 72::ascii "TTP/1.0\r\nHost:" := by decide
    rw [split]
    rfl,by decide,by decide⟩
  protocol := by
    have words : 0 ∉ ascii "HTTP/1.0\r\nHost:" ∧ 32 ∉ ascii "HTTP/1.0\r\nHost:" := by decide
    have size : (ascii "HTTP/1.0\r\nHost:").length = 15 := by decide
    have last : cstring (32::tail) = 32::cstring tail := List.takeWhile_cons_of_pos (by decide)
    rw [cstringAppend words.1,last,wordEnds,wordExact words.2,size]
    decide

theorem lineBytes (ok : Path path) (short : path.length ≤ 9999) (tail : List UInt8) :
    (lineAsking ok short tail).bytes = requestLine path tail := rfl

theorem lineNoNul (ok : Path path) (ends : 0 ∉ tail) : 0 ∉ requestLine path tail := by
  have words : 0 ∉ ascii "GET" ∧ 0 ∉ ascii "HTTP/1.0\r\nHost:" := by decide
  simp [requestLine,words,ok.noNul,ends]

section
variable {files : Files} {before literal : List UInt8}

/- The protocol is scanned for being there and decides nothing else. -/
theorem sameAnswer {line line' method path protocol protocol' : List UInt8}
    (parsed : sscanf (cstring line) = some (method,path,protocol))
    (parsed' : sscanf (cstring line') = some (method,path,protocol')) :
    Answers.checkAndSend files before literal (.connection (some line)) =
      Answers.checkAndSend files before literal (.connection (some line')) := by
  simp only [Answers.checkAndSend,Conn.line,parsed,parsed']
  rfl

section
variable (files before literal)

theorem wholeAnswer (q : Asking) {k : Nat} (enough : q.least ≤ k) :
    FileService.checkAndSend files before literal (.connection (some (q.bytes.take k))) =
      some (Answers.checkAndSend files before literal (.connection (some q.bytes))) := by
  have fit : TokensFit (.connection (some (q.bytes.take k))) := fun line here token mem => by
    cases Option.mem_some.mp here
    exact (askingTokens q k).1 token (askingCut q k ▸ mem)
  obtain ⟨_,parsed⟩ := askingParsed q enough
  obtain ⟨_,whole⟩ := askingWhole q
  rw [FileService.checkAndSend,if_pos fit,sameAnswer parsed whole]

theorem cutAnswer (q : Asking) {k : Nat} (early : k < q.least) :
    FileService.checkAndSend files before literal (.connection (some (q.bytes.take k))) =
      some (Answers.sendError 400 (ascii "Bad Request") none (ascii "Can't parse request.\n") false) := by
  obtain ⟨bound,part⟩ := askingTokens q k
  rw [if_neg (Nat.not_le.mpr early)] at part
  have fit : TokensFit (.connection (some (q.bytes.take k))) := fun line here token mem => by
    cases Option.mem_some.mp here
    exact bound token (askingCut q k ▸ mem)
  have none : sscanf (cstring (q.bytes.take k)) = none := by
    cases parsed : sscanf (cstring (q.bytes.take k)) with
    | none => rfl
    | some three =>
      obtain ⟨method,path,protocol⟩ := three
      rw [tokensThree,askingCut] at parsed
      rw [parsed] at part
      exact absurd part (by simp)
  rw [FileService.checkAndSend,if_pos fit]
  simp only [Answers.checkAndSend,Conn.line,none]
  rfl

/-- The server reads a request with one recv. It answers the file as soon as that has brought the
first byte of the protocol, and with 400 when it has brought less. -/
theorem oneRecv (q : Asking) (k : Nat) :
    FileService.checkAndSend files before literal (.connection (some (q.bytes.take k))) =
      some (if q.least ≤ k then Answers.checkAndSend files before literal (.connection (some q.bytes))
      else Answers.sendError 400 (ascii "Bad Request") none (ascii "Can't parse request.\n") false) := by
  split
  · rename_i enough
    exact wholeAnswer files before literal q enough
  · rename_i early
    exact cutAnswer files before literal q (Nat.not_le.mp early)

end

theorem oneRecvCut : FileService.checkAndSend (FileService.flat (ascii "a") [104,105]) [] []
    (.connection (some ((requestLine (ascii "/a") []).take 6))) =
      some (if 8 ≤ 6 then Answers.checkAndSend (FileService.flat (ascii "a") [104,105]) [] []
        (.connection (some (requestLine (ascii "/a") [])))
      else Answers.sendError 400 (ascii "Bad Request") none (ascii "Can't parse request.\n") false) :=
  oneRecv _ _ _ (lineAsking ⟨by decide,by decide,by decide⟩ (by decide) []) 6

end

def titles : List (List UInt8) :=
  [ascii "OK",ascii "Bad Request",ascii "Forbidden",ascii "Not Found",ascii "Internal Server Error",
    ascii "Not Implemented",ascii "Request Timeout"]

def mimes : List (List UInt8) :=
  ["text/html; charset=iso-8859-1","image/jpeg","image/gif","image/png","text/css","audio/basic","audio/wav",
    "video/x-msvideo","video/quicktime","video/mpeg","model/vrml","audio/midi","audio/mpeg","application/ogg",
    "application/x-ns-proxy-autoconfig","text/plain; charset=iso-8859-1","text/html"].map ascii

structure Framed (title mime : List UInt8) : Prop where
  title : title ∈ titles
  mime : mime ∈ mimes

theorem eitherListed {p : Prop} [Decidable p] {a b : List UInt8} (here : a ∈ mimes) (there : b ∈ mimes) :
    (if p then a else b) ∈ mimes := by
  split <;> assumption

theorem contentTypeListed (file : List UInt8) : CheckAndSend.contentType file ∈ mimes := by
  unfold CheckAndSend.contentType
  split
  · decide
  · repeat refine eitherListed (by decide) ?_
    decide

def Answering (shared : Bool) (effects : List Effect) : Prop := ∃ status title headers mime body,
  effects = .response status title headers mime body.length body::(if shared then [.unlock] else []) ∧
    (status = 302 ∨ headers = none ∧ 0 ≤ status ∧ status < 1000 ∧ Framed title mime)

theorem errorAnswer {shared : Bool} (status : Int) (title text : List UInt8) (headers : Option (List UInt8))
    (kind : status = 302 ∨ headers = none ∧ 0 ≤ status ∧ status < 1000 ∧ title ∈ titles) :
    Answering shared (Answers.sendError status title headers text shared) := by
  have page : (Response.errorPage status title text).length ≤ 9998 := List.length_take_le _ _
  refine ⟨status,title,headers,ascii "text/html",Response.errorPage status title text,?_,?_⟩
  · rw [Answers.sendError,intExact (by omega) (by omega)]
    rfl
  · exact kind.imp_right fun ⟨same,low,high,named⟩ => ⟨same,low,high,named,by decide⟩

section
variable {files : Files} {shared : Bool}

theorem fileAnswer (file : List UInt8) (size : Nat) : Answering shared (Answers.sendFile files file size shared) := by
  unfold Answers.sendFile
  cases found : Answers.fileContents files file size with
  | none => exact errorAnswer _ _ _ _ (Or.inr ⟨rfl,by decide,by decide,by decide⟩)
  | some contents =>
    unfold Answers.fileContents at found
    split at found <;> try contradiction
    exact ⟨200,ascii "OK",none,_,contents,by rw [files.mapped file size contents found]; rfl,
      Or.inr ⟨rfl,by decide,by decide,by decide,contentTypeListed file⟩⟩

theorem lookUpAnswer (path file : List UInt8) : Answering shared (Answers.lookUp files path file shared) := by
  unfold Answers.lookUp
  split
  · exact errorAnswer _ _ _ _ (Or.inr ⟨rfl,by decide,by decide,by decide⟩)
  · split
    · split
      · exact errorAnswer _ _ _ _ (Or.inl rfl)
      · dsimp only
        split
        · exact fileAnswer _ _
        · split
          · exact errorAnswer _ _ _ _ (Or.inr ⟨rfl,by decide,by decide,by decide⟩)
          · rename_i dl found
            exact ⟨200,ascii "OK",none,_,_,
              by rw [Answers.listingCounted (files.named file dl found)]; rfl,
              Or.inr ⟨rfl,by decide,by decide,by decide,by decide⟩⟩
    · exact fileAnswer _ _

theorem answerFramed (files : Files) (before literal : List UInt8) (conn : Conn) :
    Answering conn.shared (Answers.checkAndSend files before literal conn) := by
  have bad : ∀ text, Answering conn.shared (Answers.sendError 400 (ascii "Bad Request") none text conn.shared) :=
    fun text => errorAnswer _ _ _ _ (Or.inr ⟨rfl,by decide,by decide,by decide⟩)
  unfold Answers.checkAndSend
  split
  · exact bad _
  · split
    · exact bad _
    · rename_i method path protocol parsed
      split
      · exact errorAnswer _ _ _ _ (Or.inr ⟨rfl,by decide,by decide,by decide⟩)
      · split
        · exact bad _
        · dsimp only
          generalize (if cstring (strDecode path.tail) = [] then literal else before ++ [47]) = front
          split
          · exact bad _
          · exact lookUpAnswer _ _

end

end

theorem decimalFits {n k : Nat} (some_ : 0 < k) (small : n < 10 ^ k) : (decimal n).length ≤ k := by
  change ((Nat.toDigits 10 n).map Char.toUInt8).length ≤ k
  rw [List.length_map]
  exact (Nat.length_toDigits_le_iff (by decide) some_).mpr small

theorem headerFits {status : Int} {title mime : List UInt8} (framed : Framed title mime) (low : 0 ≤ status)
    (high : status < 1000) {n : Nat} (short : n < 2 ^ 31) :
    (Response.responseHeader status title none mime n).length ≤ 9998 := by
  obtain ⟨status,rfl⟩ := Int.eq_ofNat_of_zero_le low
  have three := @decimalFits status 3 (by decide) (by omega)
  have ten := @decimalFits n 10 (by decide) (by omega)
  have titled : title.length ≤ 60 := (by decide : ∀ t ∈ titles, t.length ≤ 60) title framed.title
  have typed : mime.length ≤ 60 := (by decide : ∀ m ∈ mimes, m.length ≤ 60) mime framed.mime
  have words : (ascii "HTTP/1.0").length = 8 ∧ (ascii " ").length = 1 ∧ (ascii "Content-Length: ").length = 16 ∧
      (ascii "Content-Type: ").length = 14 ∧ eol.length = 2 := by decide
  simp only [Response.responseHeader,List.length_append,words,Option.getD_none,List.length_nil]
  omega

def send (client : Sender) : Effect → Option Sender
  | .response status title headers mime length body =>
    Response.sendResponse status title headers mime length body client
  | .unlock => some client

def serverAnswers (files : Files) (before literal : List UInt8) (request : Receiver) (client : Sender) :
    Option Sender :=
  match request.answers with
  | [] => none
  | a::_ => do
    let effects ← FileService.checkAndSend files before literal (.connection (a.bytes (request.stream.take 19999)))
    effects.foldlM send client

def answerBody : List Effect → List UInt8
  | .response _ _ _ _ _ body::_ => body
  | _ => []

def redirects : List Effect → Bool
  | .response status _ _ _ _ _::_ => status = 302
  | _ => false

structure Delimited (header : List UInt8) : Prop where
  ends : blankLine <:+ header
  first : ∀ p, p <+: header → p ≠ header → ¬ blankLine <:+ p

structure Framing (header body : List UInt8) : Prop where
  delimited : Delimited header
  fits : header.length ≤ 9998
  length : bodyLength header = some (body.length : Int)

theorem responseDelimited (status length : Int) {title mime : List UInt8} (line : Response.Plain title)
    (kind : Response.Plain mime) : Delimited (Response.responseHeader status title none mime length) := by
  rw [Response.headerLines]
  exact ⟨Lines.headerEnds,fun p => Lines.firstBlankLine fun l mem =>
    Response.plainLine (Response.eachLine status length line kind l mem)⟩

section
variable {effects : List Effect} {client c : Sender} {recvs : List Answer} {header body : List UInt8}

/- Every answer but a redirection goes out as a header that gives its length, and the body. -/
theorem answerFraming (answer : Answering false effects) (direct : redirects effects = false)
    (short : (answerBody effects).length < 2 ^ 31) (accepted : NoError client.answers) (fresh : client.sent = [])
    (sent : effects.foldlM send client = some c) :
    ∃ header, c.sent = header ++ answerBody effects ∧ Framing header (answerBody effects) := by
  obtain ⟨status,title,headers,mime,body,rfl,kind⟩ := answer
  obtain ⟨rfl,low,high,framed⟩ := kind.resolve_left fun same => by simp [redirects,same] at direct
  simp only [answerBody] at short ⊢
  have titled : Response.Plain title ∧ ¬ Header.contentLength.map toupper <:+: title.map toupper :=
    (by simp only [Response.Plain]; decide : ∀ t ∈ titles, Response.Plain t ∧
      ¬ Header.contentLength.map toupper <:+: t.map toupper) title framed.title
  have typed : Response.Plain mime := (by simp only [Response.Plain]; decide : ∀ m ∈ mimes, Response.Plain m)
    mime framed.mime
  have fits := headerFits framed low high short
  have once : Response.sendResponse status title none mime body.length body client = some c := by
    simpa [List.foldlM,send] using sent
  have whole := Response.responseSent accepted once
  have all : Response.snprintf 9999 (Response.responseHeader status title none mime body.length) =
      Response.responseHeader status title none mime body.length := List.take_of_length_le fits
  rw [all,fresh,List.nil_append] at whole
  exact ⟨_,whole,responseDelimited _ _ titled.1 typed,fits,
    Response.bodyLengthFound status titled.1 typed titled.2 short (by omega)⟩

theorem framingRead (framing : Framing header body) (received : NoError recvs)
    (enough : (header ++ body).length ≤ recvs.length) :
    ∃ r, Response.recvAllNoData ⟨header ++ body,recvs⟩ = some r ∧ r.returned = (header ++ body).length ∧
      r.bodyLength = body.length := by
  obtain ⟨⟨ends,first⟩,_,length⟩ := framing
  have read := @Header.recvHeaderEnds header body recvs (Header.endsSome ends) ends first received
  rw [List.length_append] at enough
  rw [if_pos (by omega),length] at read
  obtain ⟨r,ran⟩ := @Response.bodyLoopReturns body.length header.length 0 [] body (recvs.drop header.length)
    (by simp) (by simp; omega)
  obtain ⟨returned,length,_⟩ := Response.bodyLoopCounts (by simp) (noErrorSuffix received (List.drop_suffix _ _)) ran
  refine ⟨r,?_,by simp [returned],by simpa using length⟩
  rw [Response.recvAllNoData,read]
  exact ran

end

section
variable {files : Files} {before literal path tail response : List UInt8}

def answer (files : Files) (before literal path : List UInt8) : List Effect :=
  Answers.checkAndSend files before literal (.connection (some (requestLine path [])))

theorem answerTail (ok : Path path) (short : path.length ≤ 9999) :
    Answers.checkAndSend files before literal (.connection (some (requestLine path tail))) =
      answer files before literal path := by
  obtain ⟨_,here⟩ := askingWhole (lineAsking ok short tail)
  obtain ⟨_,there⟩ := askingWhole (lineAsking ok short [])
  exact sameAnswer here there

inductive Served (files : Files) (before literal request : List UInt8) (least : Nat) : List UInt8 → Prop where
  | answered {k : Nat} {rest : List Answer} {client c : Sender} (read : least ≤ min (k + 1) 19999)
      (fresh : client.sent = []) (accepted : NoError client.answers)
      (ran : serverAnswers files before literal ⟨request,.upTo k::rest⟩ client = some c) :
      Served files before literal request least c.sent

theorem servedEffects {q : Asking} {k : Nat} (read : q.least ≤ min (k + 1) 19999) :
    FileService.checkAndSend files before literal (.connection ((Answer.upTo k).bytes (q.bytes.take 19999))) =
      some (Answers.checkAndSend files before literal (.connection (some q.bytes))) := by
  rw [Answer.bytes,List.take_take]
  exact wholeAnswer files before literal q read

structure Countable (effects : List Effect) : Prop where
  direct : redirects effects = false
  short : (answerBody effects).length < 2 ^ 31 - 9998

theorem servedFraming (ok : Path path) (short : path.length ≤ 9999)
    (countable : Countable (answer files before literal path))
    (served : Served files before literal (requestLine path tail) (path.length + 6) response) :
    ∃ header, response = header ++ answerBody (answer files before literal path) ∧
      Framing header (answerBody (answer files before literal path)) := by
  cases served with
  | @answered k rest client c read fresh accepted ran =>
    have enough : (lineAsking ok short tail).least ≤ min (k + 1) 19999 := by
      have three : (ascii "GET").length = 3 := by decide
      simp only [Asking.least,lineAsking,three]
      omega
    have effects := @servedEffects files before literal _ k enough
    rw [lineBytes,answerTail ok short] at effects
    simp only [serverAnswers,effects,bind,Option.bind_some] at ran
    have kind := answerFramed files before literal (.connection (some (requestLine path [])))
    exact answerFraming kind countable.direct (Nat.lt_trans countable.short (by decide)) accepted fresh ran

end

end IttyBittyServer.ServerReply
