import IttyBittyServer.Lines
import IttyBittyServer.Forward

/-! What recvHeader makes of a message that does not say how long its body is. -/
namespace IttyBittyServer.BodyLength
open Sockets Text
open Header (eol contentLength bodyLength getStatusCode recvHeader)
open Lines (header IsLine headerCons headerEnds firstBlankLine)

def Lengthless (line : List UInt8) : Prop := ¬ contentLength.map toupper <:+: line.map toupper

structure StatusLine where
  minor : UInt8
  code : List UInt8
  reason : List UInt8
  version : isdigit minor = true
  digits : ∀ c ∈ code, isdigit c = true
  three : code.length = 3

def StatusLine.bytes (s : StatusLine) : List UInt8 :=
  ascii "HTTP/1." ++ [s.minor] ++ 32::s.code ++ 32::s.reason

structure RequestLine where
  method : List UInt8
  target : List UInt8
  version : List UInt8
  named : method ≠ []
  aimed : target ≠ []
  words : ∀ c ∈ method ++ target, isspace c = false ∧ c ≠ 0

def RequestLine.bytes (q : RequestLine) : List UInt8 := q.method ++ 32::q.target ++ 32::q.version

/- What getStatusCode has before the line's last blank when it has copied the target to the front. -/
def RequestLine.copied (q : RequestLine) : List UInt8 :=
  q.target ++ (q.method ++ 32::q.target).drop q.target.length

theorem infixBeside {word front rest : List UInt8} {sep : UInt8} (away : sep ∉ word)
    (h : word <:+: front ++ sep::rest) : word <:+: front ∨ word <:+: rest := by
  obtain ⟨pre,post,same⟩ := h
  rw [List.append_assoc] at same
  rcases List.append_eq_append_iff.mp same with ⟨more,split,behind⟩ | ⟨more,split,behind⟩
  · rcases List.append_eq_append_iff.mp behind with ⟨more',split',_⟩ | ⟨more',split',behind'⟩
    · exact Or.inl ⟨pre,more',by simp [split,split']⟩
    · cases more' with
      | nil => exact Or.inl ⟨pre,[],by simp [split,split']⟩
      | cons c more' =>
        refine absurd ?_ away
        rw [split',← (List.cons.inj behind').1]
        simp
  · cases more with
    | nil =>
      cases word with
      | nil => exact Or.inl (List.nil_infix)
      | cons c word =>
        refine absurd ?_ away
        rw [(List.cons.inj behind).1]
        simp
    | cons c more => exact Or.inr ⟨more,post,by simpa using (List.cons.inj behind).2.symm⟩

theorem headerLengthless {lines : List (List UInt8)} (away : ∀ l ∈ lines, Lengthless l) :
    Lengthless (header lines) := by
  have noReturn : (13 : UInt8) ∉ contentLength.map toupper := by decide
  have noFeed : (10 : UInt8) ∉ contentLength.map toupper := by decide
  have ends : ∀ rest : List UInt8, (eol ++ rest).map toupper = 13::10::rest.map toupper := fun _ => rfl
  intro inside
  induction lines with
  | nil => exact absurd inside (by decide)
  | cons line lines ih =>
    rw [headerCons,List.map_append,ends] at inside
    rcases infixBeside noReturn inside with here | behind
    · exact away line List.mem_cons_self here
    · rcases @infixBeside _ [] _ _ noFeed behind with none | later
      · exact absurd (List.infix_nil.mp none) (by decide)
      · exact ih (fun l mem => away l (List.mem_cons_of_mem _ mem)) later

theorem fieldUnfound {bytes : List UInt8} (away : Lengthless bytes)
    (measured : Header.Measured bytes contentLength) :
    Header.getHeaderField bytes contentLength = some none := by
  obtain ⟨found,ran⟩ := Header.measuredExact.mpr measured
  rw [ran]
  cases found with
  | none => rfl
  | some value =>
    obtain ⟨toFind,searched,_⟩ := Header.fieldPlace ran
    obtain ⟨suffix,here⟩ := searchSound searched
    refine absurd ?_ away
    rw [← beq_iff_eq.mp (Bool.and_eq_true_iff.mp here).2]
    have inside : toFind.take contentLength.length <:+: bytes :=
      (List.take_prefix _ _).isInfix.trans (suffix.isInfix.trans (List.takeWhile_prefix _).isInfix)
    exact inside.map _

theorem codeRead {front word : List UInt8} (rest : List UInt8) (frontNoNul : 0 ∉ front) (wordNoNul : 0 ∉ word)
    (frontNoBlank : 32 ∉ front) (wordNoBlank : 32 ∉ word) (near : front.length + word.length + 2 ≤ 100) :
    ∃ more, getStatusCode (front ++ 32::word ++ 32::rest) =
      some (atoi (word ++ (front ++ 32::word ++ 32::more).drop word.length)) := by
  obtain ⟨room,hroom⟩ : ∃ room, 100 = (front ++ 32::word ++ [32]).length + room :=
    ⟨100 - (front ++ 32::word ++ [32]).length,by simp; omega⟩
  have buffer : cstring ((front ++ 32::word ++ 32::rest).take 100) =
      front ++ 32::word ++ 32::cstring (rest.take room) := by
    have plain : 0 ∉ front ++ 32::word ++ [32] := by simp [frontNoNul,wordNoNul]
    have whole : front ++ 32::word ++ 32::rest = (front ++ 32::word ++ [32]) ++ rest := by simp
    rw [hroom,whole,List.take_length_add_append,cstringAppend plain]
    simp
  have ptr : strchr (front ++ 32::word ++ 32::cstring (rest.take room)) 32 =
      some (32::(word ++ 32::cstring (rest.take room))) := by
    rw [List.append_assoc]
    exact strchrAfter frontNoBlank
  have after : strchr (word ++ 32::cstring (rest.take room)) 32 = some (32::cstring (rest.take room)) :=
    strchrAfter wordNoBlank
  refine ⟨cstring (rest.take room),?_⟩
  simp only [getStatusCode,buffer,ptr,after,bind,Option.bind_some,List.tail_cons]
  rw [List.length_append,Nat.add_sub_cancel,List.take_left]

theorem threeDigits {code : List UInt8} (all : ∀ c ∈ code, isdigit c = true) (three : code.length = 3) :
    digits code < 1000 ∧ (digits code = 200 ↔ code = ascii "200") := by
  obtain ⟨a,b,c,rfl⟩ := List.length_eq_three.mp three
  have range : ∀ d ∈ [a,b,c], 48 ≤ d.toNat ∧ d.toNat ≤ 57 := fun d mem => by
    have digit := all d mem
    simp only [isdigit,Bool.and_eq_true,decide_eq_true_eq,UInt8.le_iff_toNat_le] at digit
    exact digit
  have first := range a (by simp)
  have second := range b (by simp)
  have third := range c (by simp)
  have value : digits [a,b,c] = 100 * (a.toNat - 48) + 10 * (b.toNat - 48) + (c.toNat - 48) := by
    simp [digits]
    omega
  have ok : ascii "200" = [50,48,48] := by decide
  rw [value,ok]
  simp only [List.cons.injEq,and_true,← UInt8.toNat_inj]
  change _ ∧ (_ ↔ a.toNat = 50 ∧ b.toNat = 48 ∧ c.toNat = 48)
  omega

theorem statusCode (s : StatusLine) (lines : List (List UInt8)) :
    getStatusCode (header (s.bytes::lines)) = some (digits s.code : Int) := by
  have digit : ∀ {c : UInt8}, isdigit c = true → c ≠ 0 ∧ c ≠ 32 := by
    intro c digit
    constructor <;> rintro rfl <;> exact absurd digit (by decide)
  have minor := digit s.version
  have frontNoNul : 0 ∉ ascii "HTTP/1." ++ [s.minor] := by
    have name : (0 : UInt8) ∉ ascii "HTTP/1." := by decide
    simp [name,minor.1.symm]
  have frontNoBlank : 32 ∉ ascii "HTTP/1." ++ [s.minor] := by
    have name : (32 : UInt8) ∉ ascii "HTTP/1." := by decide
    simp [name,minor.2.symm]
  have size : (ascii "HTTP/1." ++ [s.minor]).length = 8 := by simp; decide
  have three := s.three
  have whole : header (s.bytes::lines) =
      (ascii "HTTP/1." ++ [s.minor]) ++ 32::s.code ++ 32::(s.reason ++ (eol ++ header lines)) := by
    rw [headerCons]
    simp [StatusLine.bytes]
  have starts : ∀ more, ((ascii "HTTP/1." ++ [s.minor]) ++ 32::s.code ++ 32::more).drop s.code.length =
      80::(ascii "/1." ++ [s.minor] ++ 32::s.code ++ 32::more) := by
    have name : ascii "HTTP/1." = 72::84::84::80::ascii "/1." := by decide
    intro more
    rw [three,name]
    rfl
  obtain ⟨more,read⟩ := codeRead (s.reason ++ (eol ++ header lines)) frontNoNul
    (fun mem => (digit (s.digits _ mem)).1 rfl) frontNoBlank (fun mem => (digit (s.digits _ mem)).2 rfl)
    (by omega)
  obtain ⟨small,_⟩ := threeDigits s.digits three
  rw [whole,read,starts,atoiDigits (List.ne_nil_of_length_pos (by omega)) s.digits (by omega)]
  intro c hc
  cases hc
  decide

theorem requestCode (q : RequestLine) (lines : List (List UInt8))
    (near : q.method.length + q.target.length + 2 ≤ 100) :
    getStatusCode (header (q.bytes::lines)) = some (atoi q.copied) := by
  have whole : header (q.bytes::lines) =
      q.method ++ 32::q.target ++ 32::(q.version ++ (eol ++ header lines)) := by
    rw [headerCons]
    simp [RequestLine.bytes]
  have word : ∀ {c : UInt8}, c ∈ q.method ++ q.target → c ≠ 0 ∧ c ≠ 32 := fun {c} mem => by
    refine ⟨(q.words c mem).2,?_⟩
    rintro rfl
    exact absurd (q.words _ mem).1 (by decide)
  have method : ∀ {c : UInt8}, c ∈ q.method → c ≠ 0 ∧ c ≠ 32 := fun mem => word (List.mem_append_left _ mem)
  have target : ∀ {c : UInt8}, c ∈ q.target → c ≠ 0 ∧ c ≠ 32 := fun mem => word (List.mem_append_right _ mem)
  obtain ⟨more,read⟩ := codeRead (q.version ++ (eol ++ header lines)) (fun mem => (method mem).1 rfl)
    (fun mem => (target mem).1 rfl) (fun mem => (method mem).2 rfl) (fun mem => (target mem).2 rfl) near
  obtain ⟨c,t,split⟩ := List.exists_cons_of_ne_nil q.aimed
  have begun : isspace c = false := (q.words c (by simp [split])).1
  rw [whole,read,List.drop_append_of_le_length (by simp; omega),← List.append_assoc]
  change some (atoi (q.copied ++ 32::more)) = _
  rw [RequestLine.copied,split]
  exact congrArg some (atoiBlank begun _ more)

def Relayed (header body : List UInt8) (upstream : Receiver) (bodyLength : Int) : Prop :=
  ∀ client rpc, NoError client.answers →
    (∀ r, Forward.recvAllForward upstream client header header.length bodyLength false rpc = some r →
      r.closed = true ∧ r.client.sent = client.sent ++ header ++ body) ∧
    (body.length < upstream.answers.length → header.length + body.length ≤ client.answers.length →
      ∃ r, Forward.recvAllForward upstream client header header.length bodyLength false rpc = some r)

theorem openRelayed {header body : List UInt8} {answers : List Answer} (short : header.length < 2 ^ 31)
    (received : NoError answers) : Relayed header body ⟨body,answers⟩ (-1) := by
  intro client rpc accepted
  refine ⟨fun r h => ?_,fun enough room => Forward.forwardReturns short accepted enough room⟩
  obtain ⟨forwarding,_,_,closed,stops,_⟩ := Forward.forwardsAll received accepted h
  have ends : r.closed = true := stops.mpr (by omega)
  have all : body = r.progress.chunks.flatten := by
    have order := forwarding.order
    rw [closed ends,List.append_nil] at order
    exact order
  exact ⟨ends,by rw [forwarding.sent,all]⟩

theorem lengthlessReceived {start : List UInt8} {lines : List (List UInt8)} {body : List UInt8}
    {answers : List Answer} {code : Int} (each : ∀ l ∈ start::lines, IsLine l)
    (away : ∀ l ∈ start::lines, Lengthless l) (measured : Header.Measured (header (start::lines)) contentLength)
    (received : NoError answers) (enough : (header (start::lines)).length ≤ answers.length)
    (read : getStatusCode (header (start::lines)) = some code) :
    recvHeader ⟨header (start::lines) ++ body,answers⟩ =
      some ⟨header (start::lines),(header (start::lines)).length,if code = 200 then -1 else 0,
        ⟨body,answers.drop (header (start::lines)).length⟩⟩ := by
  have length : bodyLength (header (start::lines)) = some (if code = 200 then -1 else 0) := by
    rw [bodyLength,fieldUnfound (headerLengthless away) measured,read]
    rfl
  have some_ : header (start::lines) ≠ [] := by simp [header,eol]
  rw [Header.recvHeaderEnds some_ headerEnds (fun p => firstBlankLine each) received,if_pos enough,length]
  rfl

/-- A message without a length: after the code 200 everything until the close is its body and is
relayed, after any other code and in a request it has none. -/
theorem lengthlessBody {start : List UInt8} {lines : List (List UInt8)} {body : List UInt8}
    {answers : List Answer} (each : ∀ l ∈ start::lines, IsLine l) (away : ∀ l ∈ start::lines, Lengthless l)
    (measured : Header.Measured (header (start::lines)) contentLength) (received : NoError answers)
    (enough : (header (start::lines)).length ≤ answers.length) :
    (∀ s : StatusLine, start = s.bytes →
      recvHeader ⟨header (start::lines) ++ body,answers⟩ =
        some ⟨header (start::lines),(header (start::lines)).length,if s.code = ascii "200" then -1 else 0,
          ⟨body,answers.drop (header (start::lines)).length⟩⟩ ∧
      (s.code = ascii "200" → (header (start::lines)).length < 2 ^ 31 →
        Relayed (header (start::lines)) body ⟨body,answers.drop (header (start::lines)).length⟩ (-1))) ∧
    (∀ q : RequestLine, start = q.bytes → q.method.length + q.target.length + 2 ≤ 100 →
      atoi q.copied ≠ 200 →
      recvHeader ⟨header (start::lines) ++ body,answers⟩ =
        some ⟨header (start::lines),(header (start::lines)).length,0,
          ⟨body,answers.drop (header (start::lines)).length⟩⟩) := by
  constructor
  · rintro s rfl
    have code : ((digits s.code : Int) = 200) = (s.code = ascii "200") := by
      rw [← (threeDigits s.digits s.three).2]
      exact propext (by omega)
    refine ⟨?_,fun _ short => openRelayed short (noErrorSuffix received (List.drop_suffix _ _))⟩
    rw [lengthlessReceived each away measured received enough (statusCode s lines)]
    simp only [code]
  · rintro q rfl near other
    rw [lengthlessReceived each away measured received enough (requestCode q lines near),if_neg other]

def okLine : StatusLine := ⟨48,ascii "200",ascii "OK",by decide,by decide +kernel,by decide⟩

def notFoundLine : StatusLine := ⟨48,ascii "404",ascii "Not Found",by decide,by decide +kernel,by decide⟩

theorem okRelayed :
    recvHeader ⟨header [okLine.bytes,ascii "Server: x"] ++ [7,8],List.replicate 40 (.upTo 0)⟩ =
      some ⟨header [okLine.bytes,ascii "Server: x"],30,-1,⟨[7,8],List.replicate 10 (.upTo 0)⟩⟩ ∧
    Relayed (header [okLine.bytes,ascii "Server: x"]) [7,8] ⟨[7,8],List.replicate 10 (.upTo 0)⟩ (-1) := by
  have each : ∀ l ∈ okLine.bytes::[ascii "Server: x"], IsLine l := by simp only [IsLine]; decide
  have away : ∀ l ∈ okLine.bytes::[ascii "Server: x"], Lengthless l := by simp only [Lengthless]; decide
  have size : (header [okLine.bytes,ascii "Server: x"]).length = 30 := by decide
  obtain ⟨received,relayed⟩ := (@lengthlessBody okLine.bytes [ascii "Server: x"] [7,8]
    (List.replicate 40 (.upTo 0)) each away (by decide) (by simp [NoError]) (by rw [size]; decide)).1 okLine rfl
  rw [size,if_pos (show okLine.code = ascii "200" from rfl)] at received
  have relayed := relayed rfl (by rw [size]; decide)
  rw [size] at relayed
  exact ⟨received,relayed⟩

theorem notFoundCut : IsLine notFoundLine.bytes ∧ Lengthless notFoundLine.bytes ∧ ∃ h f,
    recvHeader ⟨header [notFoundLine.bytes] ++ [7,8],List.replicate 40 (.upTo 0)⟩ = some h ∧
    h.bodyLength = 0 ∧
    Forward.recvAllForward h.socket ⟨[],List.replicate 40 (.upTo 0)⟩ (header [notFoundLine.bytes])
      h.headerLength h.bodyLength false (fun _ => .callFault) = some f ∧
    f.client.sent = header [notFoundLine.bytes] ∧ f.upstream.stream = [7,8] := by
  have received : recvHeader ⟨header [notFoundLine.bytes] ++ [7,8],List.replicate 40 (.upTo 0)⟩ =
      some ⟨header [notFoundLine.bytes],26,0,⟨[7,8],List.replicate 14 (.upTo 0)⟩⟩ := by decide +kernel
  have forwarded : Forward.recvAllForward ⟨[7,8],List.replicate 14 (.upTo 0)⟩
      ⟨[],List.replicate 40 (.upTo 0)⟩ (header [notFoundLine.bytes]) 26 0 false (fun _ => .callFault) =
      some ⟨26,26,Forward.initial,false,⟨[7,8],List.replicate 14 (.upTo 0)⟩,
        ⟨header [notFoundLine.bytes],List.replicate 14 (.upTo 0)⟩,true⟩ := by decide +kernel
  exact ⟨by simp only [IsLine]; decide,by simp only [Lengthless]; decide,_,_,received,rfl,forwarded,rfl,rfl⟩

end IttyBittyServer.BodyLength
