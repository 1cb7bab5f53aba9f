import IttyBittyServer.Lines

/-! sendResponse on a socket, and recvAll_NoData at its other end. -/
namespace IttyBittyServer.Response
open Sockets Text Header

def responseHeader (status : Int) (title : List UInt8) (headers : Option (List UInt8))
    (mime : List UInt8) (length : Int) : List UInt8 :=
  ascii "HTTP/1.0" ++ ascii " " ++ decimal status ++ ascii " " ++ title ++ ascii " " ++ eol ++
    headers.getD [] ++ ascii "Content-Length: " ++ decimal length ++ ascii " " ++ eol ++
    ascii "Content-Type: " ++ mime ++ ascii " " ++ eol ++ eol

def snprintf (size : Nat) (text : List UInt8) : List UInt8 := text.take (size - 1)

/- A failed header is only reported. -/
def sendResponse (status : Int) (title : List UInt8) (headers : Option (List UInt8))
    (mime : List UInt8) (length : Int) (body : List UInt8) (c : Sender) : Option Sender := do
  let header := snprintf 9999 (responseHeader status title headers mime length)
  let r ← sendAll c header header.length
  let r ← sendAll r.socket body length
  some r.socket

def errorPage (status : Int) (title text : List UInt8) : List UInt8 :=
  snprintf 9999 (ascii "<html><head><title>" ++ decimal status ++ ascii " " ++ title ++
    ascii "</title></head>\n<body bgcolor=\"#CC9999\"><h4>" ++ decimal status ++ ascii " " ++ title ++
    ascii "</h4>\n" ++ text ++ ascii "<hr><address><a href=\"http://www.magsolweb.net\">Squinn!</a>" ++
    ascii "</address>\n</body></html>\n")

def sendError (status : Int) (title : List UInt8) (headers : Option (List UInt8))
    (text : List UInt8) (c : Sender) : Option Sender :=
  let buf := errorPage status title text
  sendResponse status title headers (ascii "text/html") buf.length buf c

structure NoData where
  returned : Int
  bodyLength : Int
  chunks : List (List UInt8)
  socket : Receiver
  deriving DecidableEq, Repr

def bodyLoop (bLen retVal bodyLength : Int) (chunks : List (List UInt8)) (stream : List UInt8)
    (answers : List Answer) : Option NoData :=
  if bodyLength < bLen then
    match answers with
    | [] => none
    | a::rest => match a.bytes (stream.take 19999) with
      | none => some ⟨-1,bodyLength,chunks,⟨stream,rest⟩⟩
      | some [] => some ⟨retVal,bodyLength,chunks,⟨stream,rest⟩⟩
      | some inputBuffer =>
        let bytes := inputBuffer.length
        bodyLoop bLen (retVal + bytes) (bodyLength + bytes) (chunks ++ [inputBuffer])
          (stream.drop bytes) rest
  else some ⟨retVal,bodyLength,chunks,⟨stream,answers⟩⟩

def recvAllNoData (socket : Receiver) : Option NoData := do
  let h ← recvHeader socket
  bodyLoop h.bodyLength h.headerLength 0 [] h.socket.stream h.socket.answers

def Plain (s : List UInt8) : Prop := 0 ∉ s ∧ 13 ∉ s ∧ 10 ∉ s

theorem plainAppend {xs ys : List UInt8} : Plain (xs ++ ys) ↔ Plain xs ∧ Plain ys := by
  simp only [Plain,List.mem_append,not_or]; tauto

theorem decimalPlain (n : Int) : Plain (decimal n) := by
  have bytes : ∀ c ∈ decimal n, c = 45 ∨ isdigit c = true := by
    cases n with
    | ofNat n => exact fun c hc => Or.inr (decimalDigits n c hc)
    | negSucc n =>
      intro c hc
      rcases List.mem_cons.mp hc with minus | digit
      · exact Or.inl minus
      · exact Or.inr (decimalDigits (n + 1 : Nat) c digit)
  refine ⟨?_,?_,?_⟩ <;> intro mem <;> exact absurd (bytes _ mem) (by decide)

theorem strcasestrAfter {word after needle : List UInt8} {sep : UInt8} {beyond : Int}
    (apart : toupper sep ∉ needle.map toupper)
    (away : ¬ needle.map toupper <:+: word.map toupper) :
    search (matchesAt beyond needle) (word ++ sep::after) = search (matchesAt beyond needle) after := by
  rw [List.append_cons]
  refine searchAfter fun zs nonempty suffix => ?_
  obtain ⟨zs,rfl,inWord⟩ := (List.suffix_concat_iff.mp suffix).resolve_left nonempty
  by_contra found
  simp only [matchesAt,Bool.not_eq_false,Bool.and_eq_true,beq_iff_eq] at found
  have same := found.2
  rcases Nat.lt_or_ge zs.length needle.length with across | inside
  · refine apart ?_
    rw [← same]
    refine List.mem_map_of_mem ?_
    rw [List.append_assoc,List.take_append]
    refine List.mem_append_right _ ?_
    obtain ⟨n,hn⟩ : ∃ n, needle.length - zs.length = n + 1 := ⟨needle.length - zs.length - 1,by omega⟩
    simp [hn]
  · rw [List.append_assoc,List.take_append_of_le_length inside] at same
    refine away ?_
    rw [← same]
    exact ((List.take_prefix _ _).isInfix.trans inWord.isInfix).map _

theorem withoutUpperC {s : List UInt8} (h : 67 ∉ s.map toupper) :
    ¬ contentLength.map toupper <:+: s.map toupper := fun inside =>
  h (inside.subset (by decide))

theorem decimalUpper (n : Int) : 67 ∉ (decimal n).map toupper := by
  intro mem
  obtain ⟨c,hc,upper⟩ := List.mem_map.mp mem
  have small : ∀ c : UInt8, isdigit c = true → toupper c ≠ 67 := by
    intro c digit
    simp only [isdigit,Bool.and_eq_true,decide_eq_true_eq,UInt8.le_iff_toNat_le] at digit
    have low : ¬ 97 ≤ c := by
      rw [UInt8.le_iff_toNat_le]
      have high := digit.2
      change ¬ 97 ≤ c.toNat
      change c.toNat ≤ 57 at high
      omega
    rw [toupper,if_neg (fun h => low h.1)]
    rintro rfl
    exact absurd digit.2 (by decide)
  cases n with
  | ofNat n => exact small c (decimalDigits n c hc) upper
  | negSucc n =>
    rcases List.mem_cons.mp hc with rfl | digit
    · exact absurd upper (by decide)
    · exact small c (decimalDigits (n + 1 : Nat) c digit) upper

def afterField (mime : List UInt8) (length : Int) : List UInt8 :=
  ascii ": " ++ (decimal length ++ ascii " " ++ (eol ++ (ascii "Content-Type: " ++ mime ++ ascii " " ++ eol ++ eol)))

theorem fieldFound {status : Int} {title mime : List UInt8} {length : Int}
    (field : ¬ contentLength.map toupper <:+: title.map toupper)
    (small : (responseHeader status title none mime length).length < 2 ^ 31) :
    strcasestr (responseHeader status title none mime length) contentLength =
      some (some (contentLength ++ afterField mime length)) := by
  have pieces : responseHeader status title none mime length =
      ascii "HTTP/1.0" ++ 32::(decimal status ++ 32::(title ++ 32::([] ++ 13::([] ++
        10::(contentLength ++ afterField mime length))))) := by
    have blank : ascii " " = [32] := rfl
    have name : ascii "Content-Length: " = contentLength ++ ascii ": " := by decide
    simp [responseHeader,afterField,eol,blank,name]
  have blank : toupper 32 ∉ contentLength.map toupper := by decide
  have cr : toupper 13 ∉ contentLength.map toupper := by decide
  have lf : toupper 10 ∉ contentLength.map toupper := by decide
  have none : ¬ contentLength.map toupper <:+: List.map toupper [] := withoutUpperC (by simp)
  rw [strcasestrShort small (by decide),pieces,strcasestrAfter blank (withoutUpperC (by decide)),
    strcasestrAfter blank (withoutUpperC (decimalUpper _)),
    strcasestrAfter blank field,strcasestrAfter cr none,
    strcasestrAfter lf none]
  exact congrArg some (searchHere (Header.matchesHere contentLength (by simp [afterField,ascii]; omega)))

theorem headerLines (status : Int) (title mime : List UInt8) (length : Int) :
    responseHeader status title none mime length =
      Lines.header [ascii "HTTP/1.0 " ++ decimal status ++ ascii " " ++ title ++ ascii " ",
        ascii "Content-Length: " ++ decimal length ++ ascii " ",ascii "Content-Type: " ++ mime ++ ascii " "] := by
  have protocol : ascii "HTTP/1.0 " = ascii "HTTP/1.0" ++ ascii " " := by decide
  simp [responseHeader,protocol,Lines.header]

theorem plainLines (status : Int) {title mime : List UInt8} (length : Int) (line : Plain title)
    (kind : Plain mime) :
    Plain (ascii "HTTP/1.0 " ++ decimal status ++ ascii " " ++ title ++ ascii " ") ∧
    Plain (ascii "Content-Length: " ++ decimal length ++ ascii " ") ∧
    Plain (ascii "Content-Type: " ++ mime ++ ascii " ") := by
  have blank : Plain (ascii " ") := by simp [Plain]; decide
  have words : Plain (ascii "HTTP/1.0 ") ∧ Plain (ascii "Content-Length: ") ∧
      Plain (ascii "Content-Type: ") := by simp only [Plain]; decide
  simp only [plainAppend]
  exact ⟨⟨⟨⟨⟨words.1,decimalPlain _⟩,blank⟩,line⟩,blank⟩,⟨⟨words.2.1,decimalPlain _⟩,blank⟩,
    ⟨words.2.2,kind⟩,blank⟩

theorem eachLine (status : Int) {title mime : List UInt8} (length : Int) (line : Plain title) (kind : Plain mime) :
    ∀ l ∈ [ascii "HTTP/1.0 " ++ decimal status ++ ascii " " ++ title ++ ascii " ",
      ascii "Content-Length: " ++ decimal length ++ ascii " ",ascii "Content-Type: " ++ mime ++ ascii " "],
      Plain l ∧ l ≠ [] := by
  obtain ⟨first,second,third⟩ := plainLines status length line kind
  intro l mem
  rcases List.mem_cons.mp mem with rfl | mem
  · exact ⟨first,by simp [ascii]⟩
  rcases List.mem_cons.mp mem with rfl | mem
  · exact ⟨second,by simp [ascii]⟩
  cases List.mem_singleton.mp mem
  exact ⟨third,by simp [ascii]⟩

theorem headerNoNul {status : Int} {title mime : List UInt8} {length : Int} (line : Plain title)
    (kind : Plain mime) : 0 ∉ responseHeader status title none mime length := by
  rw [headerLines]
  exact Lines.headerNoNul fun l mem => (eachLine status length line kind l mem).1.1

theorem valueFound {status : Int} {title mime : List UInt8} {length : Nat} (line : Plain title)
    (kind : Plain mime) (field : ¬ contentLength.map toupper <:+: title.map toupper)
    (small : (responseHeader status title none mime length).length < 2 ^ 31) :
    getHeaderField (responseHeader status title none mime length) contentLength =
      some (some (decimal length ++ [32])) := by
  have noCr := (decimalPlain length).2.1
  have toFind : contentLength ++ afterField mime length =
      (contentLength ++ ascii ": " ++ decimal length ++ ascii " ") ++
        (eol ++ (ascii "Content-Type: " ++ mime ++ ascii " " ++ eol ++ eol)) := by
    simp [afterField]
  have endOfLine : strstr (contentLength ++ afterField mime length) eol =
      some (eol ++ (ascii "Content-Type: " ++ mime ++ ascii " " ++ eol ++ eol)) := by
    rw [toFind,eol,strstrAfter]
    · exact searchHere (by simp [List.isPrefixOf])
    · simp only [List.mem_append,not_or]
      exact ⟨⟨⟨by decide,by decide⟩,noCr⟩,by decide⟩
  have colon : strchr (contentLength ++ afterField mime length) 58 = some (afterField mime length) :=
    strchrAfter (by decide)
  have value : (afterField mime length).tail.dropWhile (· == 32) =
      decimal length ++ [32] ++ (eol ++ (ascii "Content-Type: " ++ mime ++ ascii " " ++ eol ++ eol)) := by
    obtain ⟨d,ds,hd⟩ := List.exists_cons_of_ne_nil (decimalNonempty length)
    have digit : isdigit d = true := decimalDigits length d (by simp [hd])
    have notBlank : d ≠ 32 := by rintro rfl; exact absurd digit (by decide)
    have digitKept : (d == 32) = false := by simpa using notBlank
    have starts : (afterField mime length).tail = 32::(decimal length ++ [32] ++
        (eol ++ (ascii "Content-Type: " ++ mime ++ ascii " " ++ eol ++ eol))) := by
      have blank : ascii " " = [32] := rfl
      have name : ascii ": " = [58,32] := by decide
      simp [afterField,blank,name]
    rw [starts,List.dropWhile_cons_of_pos (by decide),hd]
    exact List.dropWhile_cons_of_neg (by simp [digitKept])
  rw [getHeaderFieldExact,cstringExact (headerNoNul line kind),fieldFound field small]
  simp only [valueOf,endOfLine,colon,value,bind,Option.bind_some,Option.map_some]
  generalize eol ++ (ascii "Content-Type: " ++ mime ++ ascii " " ++ eol ++ eol) = left
  rw [if_neg (by simp; omega),@List.length_append _ _ left,Nat.add_sub_cancel,List.take_left]

theorem bodyLengthFound (status : Int) {title mime : List UInt8} {length : Nat} (line : Plain title)
    (kind : Plain mime) (field : ¬ contentLength.map toupper <:+: title.map toupper)
    (short : length < 2 ^ 31)
    (small : (responseHeader status title none mime length).length < 2 ^ 31) :
    bodyLength (responseHeader status title none mime length) = some (length : Int) := by
  rw [bodyLength,valueFound line kind field small]
  exact congrArg some (atoiDecimal short fun c hc => by cases hc; decide)

theorem plainLine {line : List UInt8} (ok : Plain line ∧ line ≠ []) : Lines.IsLine line :=
  ⟨ok.2,fun ends => ok.1.2.1 (ends.subset (by decide))⟩

structure Counted (retVal bodyLength : Int) (chunks : List (List UInt8)) (body : List UInt8)
    (r : NoData) : Prop where
  returned : r.returned = retVal + body.length
  bodyLength : r.bodyLength = bodyLength + body.length
  consumed : r.socket.stream = []
  chunks : ∃ new, r.chunks = chunks ++ new ∧ [] ∉ new ∧ new.flatten = body

theorem bodyLoopCounts {bLen retVal bodyLength : Int} {chunks : List (List UInt8)} {body : List UInt8}
    {answers : List Answer} {r : NoData} (exact : bLen = bodyLength + body.length)
    (received : NoError answers) (h : bodyLoop bLen retVal bodyLength chunks body answers = some r) :
    Counted retVal bodyLength chunks body r := by
  induction answers generalizing retVal bodyLength chunks body with
  | nil =>
    rw [bodyLoop] at h
    split at h
    · cases h
    · cases Option.some.inj h
      obtain rfl : body = [] := List.length_eq_zero_iff.mp (by omega)
      exact ⟨by simp,by simp,rfl,[],by simp⟩
  | cons a rest ih =>
    obtain ⟨⟨k,rfl⟩,later⟩ := noErrorCons received
    rw [bodyLoop] at h
    simp only [Answer.bytes,List.take_take] at h
    split at h
    · rename_i more
      have size : (body.take (min (k + 1) 19999)).length = min (min (k + 1) 19999) body.length := by simp
      have isPrefix : body.take (min (k + 1) 19999) <+: body := List.take_prefix _ _
      generalize body.take (min (k + 1) 19999) = chunk at h size isPrefix
      cases chunk with
      | nil => simp at size; omega
      | cons b chunk =>
        obtain ⟨left,rfl⟩ := isPrefix
        simp only [List.drop_left] at h
        simp only [List.length_append] at exact
        obtain ⟨returned,length,consumed,new,cs,some,all⟩ := ih (by push_cast at exact ⊢; omega) later h
        exact ⟨by rw [returned]; simp; omega,by rw [length]; simp; omega,consumed,
          (b::chunk)::new,by simp [cs],by simp [some],by simp [all]⟩
    · cases Option.some.inj h
      obtain rfl : body = [] := List.length_eq_zero_iff.mp (by omega)
      exact ⟨by simp,by simp,rfl,[],by simp⟩

theorem bodyLoopReturns {bLen retVal bodyLength : Int} {chunks : List (List UInt8)} {body : List UInt8}
    {answers : List Answer} (exact : bLen = bodyLength + body.length)
    (enough : body.length ≤ answers.length) :
    ∃ r, bodyLoop bLen retVal bodyLength chunks body answers = some r := by
  induction answers generalizing retVal bodyLength chunks body with
  | nil =>
    obtain rfl : body = [] := List.length_eq_zero_iff.mp (by simpa using enough)
    rw [bodyLoop,if_neg (by simp at exact; omega)]
    exact ⟨_,rfl⟩
  | cons a rest ih =>
    rw [bodyLoop]
    split
    · cases a with
      | error => exact ⟨_,rfl⟩
      | upTo k =>
        simp only [Answer.bytes,List.take_take]
        have isPrefix : body.take (min (k + 1) 19999) <+: body := List.take_prefix _ _
        generalize body.take (min (k + 1) 19999) = chunk at isPrefix
        cases chunk with
        | nil => exact ⟨_,rfl⟩
        | cons b chunk =>
          obtain ⟨left,rfl⟩ := isPrefix
          simp only [List.drop_left]
          simp only [List.length_append,List.length_cons] at exact enough ⊢
          exact ih (by push_cast at exact ⊢; omega) (by omega)
    · exact ⟨_,rfl⟩

theorem recvAllNoDataExact (status : Int) {title mime body : List UInt8} {answers : List Answer}
    (line : Plain title) (kind : Plain mime) (field : ¬ contentLength.map toupper <:+: title.map toupper)
    (short : body.length < 2 ^ 31) (received : NoError answers)
    (small : (responseHeader status title none mime body.length).length < 2 ^ 31) :
    recvAllNoData ⟨responseHeader status title none mime body.length ++ body,answers⟩ =
      if (responseHeader status title none mime body.length).length ≤ answers.length then
        bodyLoop body.length (responseHeader status title none mime body.length).length 0 [] body
          (answers.drop (responseHeader status title none mime body.length).length)
      else none := by
  have found := bodyLengthFound status line kind field short small
  have ends : blankLine <:+ responseHeader status title none mime body.length := by
    rw [headerLines]
    exact Lines.headerEnds
  have first : ∀ p, p <+: responseHeader status title none mime body.length →
      p ≠ responseHeader status title none mime body.length → ¬ blankLine <:+ p := by
    rw [headerLines]
    exact fun p => Lines.firstBlankLine fun l mem => plainLine (eachLine status body.length line kind l mem)
  have some : responseHeader status title none mime body.length ≠ [] := by simp [responseHeader,ascii]
  rw [recvAllNoData,recvHeaderEnds some ends first received,found]
  split
  · simp only [Option.map_some,bind,Option.bind_some]
  · rfl

theorem responseSent {status : Int} {title mime body : List UInt8} {headers : Option (List UInt8)}
    {c c' : Sender} (accepted : NoError c.answers)
    (sent : sendResponse status title headers mime body.length body c = some c') :
    c'.sent = c.sent ++ (snprintf 9999 (responseHeader status title headers mime body.length) ++ body) := by
  simp only [sendResponse,bind,Option.bind_eq_some_iff] at sent
  obtain ⟨r,first,r',second,last⟩ := sent
  cases Option.some.inj last
  obtain ⟨_,_,delivered,later⟩ := bufferSent accepted first
  obtain ⟨_,_,whole,_⟩ := bufferSent later second
  rw [whole,delivered,List.append_assoc]

/-- Whatever pieces send takes and recv brings, the client counts header and body exactly. -/
theorem framingRoundTrip {status : Int} {title mime body : List UInt8} (line : Plain title)
    (kind : Plain mime) (field : ¬ contentLength.map toupper <:+: title.map toupper)
    (short : body.length < 2 ^ 31)
    (fits : (responseHeader status title none mime body.length).length ≤ 9998)
    {sends recvs : List Answer} (accepted : NoError sends) (received : NoError recvs) :
    ((responseHeader status title none mime body.length).length + body.length ≤ sends.length →
      ∃ c, sendResponse status title none mime body.length body ⟨[],sends⟩ = some c) ∧
    ∀ c, sendResponse status title none mime body.length body ⟨[],sends⟩ = some c →
      ((responseHeader status title none mime body.length).length + body.length ≤ recvs.length →
        ∃ r, recvAllNoData ⟨c.sent,recvs⟩ = some r) ∧
      ∀ r, recvAllNoData ⟨c.sent,recvs⟩ = some r →
        r.returned = (responseHeader status title none mime body.length).length + body.length ∧
        r.bodyLength = body.length ∧ r.socket.stream = [] ∧ [] ∉ r.chunks ∧
        c.sent = responseHeader status title none mime body.length ++ r.chunks.flatten := by
  have found := recvAllNoDataExact status line kind field short received (by omega)
  have whole : snprintf 9999 (responseHeader status title none mime body.length) =
      responseHeader status title none mime body.length := List.take_of_length_le fits
  constructor
  · intro enough
    obtain ⟨u,hu,used⟩ := @sendAllReturns ⟨[],sends⟩ (responseHeader status title none mime body.length)
      (by omega) (by simp; omega)
    obtain ⟨v,hv,_⟩ := sendAllReturns u.socket short (by simp at used; omega)
    exact ⟨v.socket,by simp [sendResponse,whole,hu,hv]⟩
  · intro c h
    have sent := responseSent accepted h
    rw [whole,List.nil_append] at sent
    generalize responseHeader status title none mime body.length = header at found sent
    rw [sent,found]
    constructor
    · intro enough
      rw [if_pos (by omega)]
      exact bodyLoopReturns (by simp) (by rw [List.length_drop]; omega)
    · intro r h
      split at h
      · obtain ⟨returned,length,consumed,new,cs,some,all⟩ := bodyLoopCounts (by simp)
          (noErrorSuffix received (List.drop_suffix _ _)) h
        exact ⟨returned,by simpa using length,consumed,by simpa [cs] using some,by simp [cs,all]⟩
      · cases h

theorem framingRoundTripOk :
    ∃ c r, sendResponse 200 (ascii "OK") none (ascii "text/html") 6 (ascii "a\r\n\r\nb")
      ⟨[],List.replicate 72 (.upTo 0)⟩ = some c ∧
    recvAllNoData ⟨c.sent,List.replicate 72 (.upTo 4)⟩ = some r ∧
    r.returned = 72 ∧ r.bodyLength = 6 ∧ r.socket.stream = [] := by
  have size : (responseHeader 200 (ascii "OK") none (ascii "text/html") 6).length = 66 := by decide
  have body : ((ascii "a\r\n\r\nb").length : Int) = 6 := by decide
  obtain ⟨sent,ok⟩ := @framingRoundTrip 200 (ascii "OK") (ascii "text/html") (ascii "a\r\n\r\nb")
    (by simp only [Plain]; decide) (by simp only [Plain]; decide) (by decide) (by decide)
    (by rw [body,size]; decide) (List.replicate 72 (.upTo 0))
    (List.replicate 72 (.upTo 4)) (by simp [NoError]) (by simp [NoError])
  rw [body,size] at sent ok
  obtain ⟨c,sent⟩ := sent (by decide)
  obtain ⟨returns,counts⟩ := ok c sent
  obtain ⟨r,received⟩ := returns (by decide)
  obtain ⟨returned,length,consumed,_⟩ := counts r received
  exact ⟨c,r,sent,received,returned,length,consumed⟩

end IttyBittyServer.Response
