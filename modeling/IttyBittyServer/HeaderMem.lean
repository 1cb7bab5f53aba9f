import IttyBittyServer.Receive

/-! recvHeader_Mem: the header at the front of a mapped block. The search over the block and
the window over a stream stop behind the same blank line. -/
namespace IttyBittyServer.HeaderMem
open Sockets Text Memory
open Header (blankLine contentLength)

structure Received where
  retval : Option (List UInt8)
  headerLength : Int
  bodyLength : Int
  deriving DecidableEq, Repr

def recvHeaderMem (mem : List UInt8) : Option Received := do
  match ← strstr mem 0 blankLine with
  | none => some ⟨none,0,0⟩
  | some endOfHeader =>
    let headerLength := endOfHeader + blankLine.length
    match calloc headerLength with
    | none => some ⟨none,headerLength,0⟩
    | some retval =>
      let retval ← memcpy retval 0 mem 0 headerLength
      let bodyLength ← Receive.bodyLength retval headerLength
      some ⟨some retval,headerLength,bodyLength⟩

structure Leads (block header : List UInt8) : Prop where
  front : header <+: block
  ends : blankLine <:+ header
  first : ∀ p, p <+: header → p ≠ header → ¬ blankLine <:+ p

inductive Announces (header : List UInt8) : Int → Prop where
  | length {value} : Header.getHeaderField header contentLength = some (some value) →
      Announces header (atoi value)
  | chunked : Header.getHeaderField header contentLength = some none →
      Header.getStatusCode header = some 200 → Announces header (-1)
  | request {code} : Header.getHeaderField header contentLength = some none →
      Header.getStatusCode header = some code → code ≠ 200 → Announces header 0

theorem bodyLengthAnnounced {header : List UInt8} {n : Int} :
    Header.bodyLength header = some n ↔ Announces header n := by
  unfold Header.bodyLength
  constructor
  · intro h
    obtain ⟨retVal,found,last⟩ := Option.bind_eq_some_iff.mp h
    cases retVal with
    | some value =>
      cases Option.some.inj last
      exact .length found
    | none =>
      obtain ⟨code,status,last⟩ := Option.bind_eq_some_iff.mp last
      cases Option.some.inj last
      by_cases ok : code = 200
      · subst ok
        exact .chunked found status
      · rw [if_neg ok]
        exact .request found status ok
  · rintro (found | ⟨found,status⟩ | ⟨found,status,other⟩)
    · rw [found]
      rfl
    · rw [found]
      simp only [status,bind,Option.bind_some,if_true]
    · rw [found]
      simp only [status,bind,Option.bind_some,if_neg other]

theorem leadsSearched {header after : List UInt8} : Leads (header ++ after) header ↔
    Text.strstr (header ++ after) blankLine = some (blankLine ++ after) ∧ blankLine <:+ header := by
  constructor
  · rintro ⟨_,⟨before,rfl⟩,first⟩
    exact ⟨strstrExact.mpr ⟨before,after,by simp,rfl,first⟩,List.suffix_append _ _⟩
  · rintro ⟨found,before,rfl⟩
    obtain ⟨before',after',split,same,first⟩ := strstrExact.mp found
    have front : before = before' := List.append_cancel_right (by rw [← split,List.append_assoc])
    exact ⟨List.prefix_append _ _,List.suffix_append _ _,by rw [front]; exact first⟩

/- The header itself holds no NUL; behind it there may be any. -/
theorem memSearched {block header : List UInt8} (leads : Leads block header) (noNul : 0 ∉ header)
    (tail : List UInt8) :
    strstr (block ++ 0::tail) 0 blankLine = some (some ((header.length : Int) - blankLine.length)) := by
  obtain ⟨after,rfl⟩ := leads.front
  have short : Leads (header ++ cstring after) header := ⟨List.prefix_append _ _,leads.ends,leads.first⟩
  rw [strstrFront,cstringAppend noNul,(leadsSearched.mp short).1,Option.map_some,place]
  simp only [List.length_append]
  congr 2
  omega

theorem recvHeaderMemSteps {mem retval header : List UInt8} {endOfHeader headerLength : Int}
    (found : strstr mem 0 blankLine = some (some endOfHeader))
    (length : endOfHeader + blankLine.length = headerLength) (allocated : calloc headerLength = some retval)
    (copied : memcpy retval 0 mem 0 headerLength = some header) : recvHeaderMem mem =
      (Receive.bodyLength header headerLength).map fun n => ⟨some header,headerLength,n⟩ := by
  subst length
  simp only [recvHeaderMem,found,allocated,copied,bind,Option.bind_some]
  cases Receive.bodyLength header (endOfHeader + blankLine.length) <;> rfl

theorem recvHeaderMemExact {block header : List UInt8} (leads : Leads block header) (noNul : 0 ∉ header)
    (tail : List UInt8) (room : header.length < 2 ^ 63) : recvHeaderMem (block ++ 0::tail) =
      (Receive.bodyLength header header.length).map fun n => ⟨some header,header.length,n⟩ := by
  have back : (header.length : Int) - blankLine.length + blankLine.length = header.length := by omega
  have allocated : calloc header.length = some (List.replicate header.length 0) := by
    rw [calloc,if_pos (by omega),Int.toNat_natCast]
  have copied : memcpy (List.replicate header.length 0) 0 (block ++ 0::tail) 0 header.length = some header := by
    have size := leads.front.length_le
    obtain ⟨after,rfl⟩ := leads.front
    rw [memcpyPossible (Int.le_refl _) (by omega) (by simp; omega) (Int.le_refl _) (by simp)]
    simp
  exact recvHeaderMemSteps (memSearched leads noNul tail) back allocated copied

section
variable {junk : UInt8}

theorem recvHeaderExact {socket : Receiver} {header : List UInt8} (complete : Receive.Complete socket header) :
    ∃ left, socket.stream = header ++ left.stream ∧ Receive.recvHeader junk socket =
      (Receive.bodyLength header header.length).map fun n => some ⟨some header,header.length,n,left⟩ := by
  obtain ⟨loop,consumed,ran,b⟩ := Receive.receiveBounded junk socket
  obtain ⟨ended,rfl⟩ := Receive.completeConsumed complete b
  have whole : loop.retVal = some consumed := by
    rw [b.retVal,ended,if_neg (by simp),Receive.heldEnds complete.ends]
  refine ⟨loop.socket,by simpa using b.order,?_⟩
  rw [Receive.recvHeaderFinish ran,Receive.finishBlankLine ended whole,b.headerLength]

theorem leadsComplete {stream header : List UInt8} {answers : List Answer} (leads : Leads stream header)
    (answered : header.length ≤ answers.length) (noError : NoError (answers.take header.length)) :
    Receive.Complete ⟨stream,answers⟩ header :=
  ⟨leads.front,leads.ends,leads.first,answered,noError⟩

theorem recvHeaderMemRefines {block stream header : List UInt8} {answers : List Answer}
    (stored : Leads block header) (sent : Leads stream header) (noNul : 0 ∉ header) (tail : List UInt8)
    (room : header.length < 2 ^ 63) (answered : header.length ≤ answers.length)
    (noError : NoError (answers.take header.length)) :
    ∃ left, stream = header ++ left.stream ∧ Receive.recvHeader junk ⟨stream,answers⟩ =
      (recvHeaderMem (block ++ 0::tail)).map fun r => some ⟨r.retval,r.headerLength,r.bodyLength,left⟩ := by
  obtain ⟨left,split,received⟩ := @recvHeaderExact junk _ _ (leadsComplete sent answered noError)
  refine ⟨left,split,?_⟩
  rw [received,recvHeaderMemExact stored noNul tail room]
  cases Receive.bodyLength header header.length <;> rfl

def Same (junk : UInt8) (mem : List UInt8) (socket : Receiver) (header : List UInt8) : Prop :=
  ∃ n, Announces header n ∧ recvHeaderMem mem = some ⟨some header,header.length,n⟩ ∧
    ∃ left, Receive.recvHeader junk socket = some (some ⟨some header,header.length,n,left⟩)

/-- A block and a stream that begin with one header give the same header, the same length and the same
length of the body exactly when the header can be read. -/
theorem sameHeader {block stream header tail : List UInt8} {answers : List Answer}
    (stored : Leads block header) (sent : Leads stream header) (noNul : 0 ∉ header)
    (object : (block ++ 0::tail).length < 2 ^ 63) (answered : header.length ≤ answers.length)
    (noError : NoError (answers.take header.length)) :
    Same junk (block ++ 0::tail) ⟨stream,answers⟩ header ↔ Receive.Readable header := by
  have room : header.length < 2 ^ 63 - 1 := by
    have size := stored.front.length_le
    rw [List.length_append,List.length_cons] at object
    omega
  have mapped := recvHeaderMemExact stored noNul tail (by omega)
  obtain ⟨left,split,refined⟩ := @recvHeaderMemRefines junk _ _ _ _ stored sent noNul tail (by omega) answered noError
  rw [Receive.bodyLengthRefined room] at mapped
  rw [mapped] at refined
  rw [← Receive.bodyLengthPossible,Receive.bodyLengthRefined room]
  constructor
  · rintro ⟨n,announced,_⟩
    exact ⟨n,bodyLengthAnnounced.mpr announced⟩
  · rintro ⟨n,length⟩
    rw [length] at mapped refined
    exact ⟨n,bodyLengthAnnounced.mp length,mapped,left,refined⟩

theorem noErrorReplicate (n k m : Nat) : NoError ((List.replicate n (.upTo k)).take m) := fun mem => by
  cases List.eq_of_mem_replicate (List.mem_of_mem_take mem)

theorem okHeader : Same 7 (ascii "HTTP/1.0 200 OK\r\n\r\n" ++ Header.eol ++ 0::[9])
    ⟨ascii "HTTP/1.0 200 OK\r\n\r\n" ++ ascii "body",List.replicate 19 (.upTo 0)⟩
    (ascii "HTTP/1.0 200 OK\r\n\r\n") := by
  have stored : Leads (ascii "HTTP/1.0 200 OK\r\n\r\n" ++ Header.eol) (ascii "HTTP/1.0 200 OK\r\n\r\n") :=
    leadsSearched.mpr (by decide +kernel)
  have sent : Leads (ascii "HTTP/1.0 200 OK\r\n\r\n" ++ ascii "body") (ascii "HTTP/1.0 200 OK\r\n\r\n") :=
    leadsSearched.mpr (by decide +kernel)
  exact (sameHeader stored sent (by decide +kernel) (by decide +kernel) (by decide +kernel)
    (noErrorReplicate 19 0 _)).mpr
    ⟨FieldMemory.measuredShort (by decide +kernel) (by decide),fun _ => by decide +kernel⟩

theorem bareBlankLine : ¬ ∀ (junk : UInt8) (block header tail : List UInt8) (answers : List Answer),
    Leads block header → 0 ∉ header → (block ++ 0::tail).length < 2 ^ 63 → header.length ≤ answers.length →
      NoError (answers.take header.length) → Same junk (block ++ 0::tail) ⟨block,answers⟩ header := by
  intro same
  have faults : recvHeaderMem (blankLine ++ [0]) = none := by decide +kernel
  have leads : Leads (blankLine ++ []) blankLine := leadsSearched.mpr (by decide +kernel)
  obtain ⟨n,_,returned,_⟩ := same 0 blankLine blankLine [] (List.replicate 4 (.upTo 0)) leads (by decide)
    (by decide) (by decide) (noErrorReplicate 4 0 _)
  rw [faults] at returned
  cases returned

end

end IttyBittyServer.HeaderMem
