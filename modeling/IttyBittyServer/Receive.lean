import IttyBittyServer.FieldMemory

/-! recvHeader and getStatusCode on the objects that they read and write: the buffer that
grows, the window of the last bytes and the copy out of which the code is read. -/
namespace IttyBittyServer.Receive
open Sockets Text Memory
open Header (blankLine window contentLength)

inductive Ended where
  | blankLine | closed | error | waiting
  deriving DecidableEq, Repr

structure Loop where
  ended : Ended
  retVal : Option (List UInt8)
  headerLength : Int
  socket : Receiver
  deriving DecidableEq, Repr

/- Reallocation succeeds, and what it adds is left as it was. -/
def realloc (junk : UInt8) (retVal : Option (List UInt8)) (n : Int) : List UInt8 :=
  let b := (retVal.getD []).take n.toNat
  b ++ List.replicate (n.toNat - b.length) junk

def moveDown (inputChar : List UInt8) : Option (List UInt8) := do
  let inputChar ← store inputChar 3 (← load inputChar 2)
  let inputChar ← store inputChar 2 (← load inputChar 1)
  store inputChar 1 (← load inputChar 0)

def receiveLoop (junk : UInt8) (inputChar : List UInt8) (retVal : Option (List UInt8)) (headerLength : Int)
    (stream : List UInt8) : List Answer → Option Loop
  | [] => some ⟨.waiting,retVal,headerLength,⟨stream,[]⟩⟩
  | a::rest => do
    let inputChar ← moveDown inputChar
    match a.bytes (stream.take 1) with
    | none => some ⟨.error,none,headerLength,⟨stream,rest⟩⟩
    | some [] => some ⟨.closed,retVal,headerLength,⟨stream,rest⟩⟩
    | some (c::_) =>
      let inputChar ← write inputChar 0 [c]
      let retVal ← memcpy (realloc junk retVal (headerLength + 1)) headerLength inputChar 0 1
      let headerLength := headerLength + 1
      match ← strstr inputChar 0 [10,13,10,13] with
      | none => receiveLoop junk inputChar (some retVal) headerLength (stream.drop 1) rest
      | some _ => some ⟨.blankLine,some retVal,headerLength,⟨stream.drop 1,rest⟩⟩

def receive (junk : UInt8) (socket : Receiver) : Option Loop :=
  receiveLoop junk (List.replicate 5 0) none 0 socket.stream socket.answers

/- The condition reads the byte before it looks at i. -/
def codeLoop (buffer : List UInt8) (ptr : Int) (i : Nat) : Nat → Option (List UInt8)
  | 0 => do
    let _ ← load buffer ptr
    some buffer
  | left + 1 => do
    let c ← load buffer ptr
    if c = 32 then some buffer else codeLoop (← store buffer i c) (ptr + 1) (i + 1) left

def getStatusCode (header : List UInt8) (headerLength : Int) : Option Int :=
  let size := if 100 < headerLength then 101 else headerLength + 1
  match calloc size with
  | none => some (-1)
  | some buffer => do
    let buffer ← strncpy buffer 0 header 0 (size - 1)
    let ptr ← (← strchr buffer 0 32)
    let buffer ← codeLoop buffer (ptr + 1) 0 size.toNat
    some (atoi (← text buffer 0))

def bodyLength (header : List UInt8) (headerLength : Int) : Option Int := do
  match ← FieldMemory.getHeaderField header headerLength (contentLength ++ [0]) with
  | some bLength => some (atoi (← text bLength 0))
  | none =>
    let code ← getStatusCode header headerLength
    some (if code = 200 then -1 else 0)

/- Before the network has answered there is nothing that could be returned. -/
def finish (loop : Loop) : Option (Option Header.Received) :=
  match loop.ended with
  | .waiting => some none
  | .error => some (some ⟨none,loop.headerLength,0,loop.socket⟩)
  | .closed => some (some ⟨loop.retVal,loop.headerLength,0,loop.socket⟩)
  | .blankLine => do
    let header ← loop.retVal
    let bodyLength ← bodyLength header loop.headerLength
    some (some ⟨loop.retVal,loop.headerLength,bodyLength,loop.socket⟩)

def recvHeader (junk : UInt8) (socket : Receiver) : Option (Option Header.Received) := do
  finish (← receive junk socket)

section
variable {junk : UInt8}

def held (got : List UInt8) : Option (List UInt8) := if got = [] then none else some got

theorem heldLast (got : List UInt8) (c : UInt8) : held (got ++ [c]) = some (got ++ [c]) := by
  simp [held]

theorem heldEnds {header : List UInt8} (ends : blankLine <:+ header) : held header = some header :=
  if_neg (Header.endsSome ends)

theorem heldGrows (junk : UInt8) (got : List UInt8) (c : UInt8) (inputChar : List UInt8) :
    memcpy (realloc junk (held got) (got.length + 1)) got.length (c::inputChar) 0 1 = some (got ++ [c]) := by
  have grown : realloc junk (held got) (got.length + 1) = got ++ [junk] := by
    have size : ((got.length : Int) + 1).toNat = got.length + 1 := by omega
    have same : (held got).getD [] = got := by
      unfold held
      split
      · rename_i none_; simp [none_]
      · rfl
    simp only [realloc,size,same]
    rw [List.take_of_length_le (by omega)]
    simp
  rw [grown,memcpyPossible (by omega) (by omega) (by rw [List.length_cons]; omega) (by omega) (by simp)]
  simp

theorem windowMoves (got : List UInt8) (c : UInt8) :
    (moveDown (window got ++ [0])).bind (fun inputChar => write inputChar 0 [c]) =
      some (window (got ++ [c]) ++ [0]) := by
  have size : (window got).length = 4 := by simp [window]
  rw [← Header.windowNext]
  generalize window got = w at size
  obtain ⟨a,b,d,e,rfl⟩ := List.length_eq_four.mp size
  rfl

theorem windowFound (got : List UInt8) : ∃ found, strstr (window got ++ [0]) 0 [10,13,10,13] = some found ∧
    (found = none ↔ ¬ blankLine <:+ got) := by
  refine ⟨_,strstrFront (window got) [] _,?_⟩
  rw [Option.map_eq_none_iff,← Option.isNone_iff_eq_none,Header.windowBlank]

theorem receiveByte (got : List UInt8) (c : UInt8) (k : Nat) (stream : List UInt8) (rest : List Answer) :
    receiveLoop junk (window got ++ [0]) (held got) got.length (c::stream) (.upTo k::rest) =
      if blankLine <:+ got ++ [c] then
        some ⟨.blankLine,held (got ++ [c]),(got ++ [c]).length,⟨stream,rest⟩⟩
      else receiveLoop junk (window (got ++ [c]) ++ [0]) (held (got ++ [c])) (got ++ [c]).length stream rest := by
  have one : (Answer.upTo k).bytes ((c::stream).take 1) = some [c] := by simp [Answer.bytes]
  obtain ⟨moved,down,written⟩ := Option.bind_eq_some_iff.mp (windowMoves got c)
  obtain ⟨rest',front⟩ : ∃ rest', window (got ++ [c]) ++ [0] = c::rest' := by
    rw [← Header.windowNext]
    exact ⟨_,rfl⟩
  have grows := heldGrows junk got c rest'
  rw [← front] at grows
  obtain ⟨found,searched,blank⟩ := windowFound (got ++ [c])
  have size : ((got ++ [c]).length : Int) = got.length + 1 := by simp
  rw [receiveLoop,down,one]
  simp only [bind,Option.bind_some,written,grows,searched,heldLast,size,List.drop_one,List.tail_cons]
  cases found with
  | none => rw [if_neg (blank.mp rfl)]
  | some found =>
    have ends : blankLine <:+ got ++ [c] := by
      by_contra other
      cases blank.mpr other
    rw [if_pos ends]

structure Boundary (got stream : List UInt8) (answers : List Answer) (consumed : List UInt8) (loop : Loop) :
    Prop where
  order : got ++ stream = consumed ++ loop.socket.stream
  retVal : loop.retVal = if loop.ended = .error then none else held consumed
  headerLength : loop.headerLength = consumed.length
  first : ∀ p, p <+: consumed → p ≠ consumed → ¬ blankLine <:+ p
  blankLine : loop.ended = .blankLine ↔ blankLine <:+ consumed
  closed : loop.ended = .closed → loop.socket.stream = []
  waiting : loop.ended = .waiting → loop.socket.answers = []
  used : ∃ used, answers = used ++ loop.socket.answers ∧ (loop.ended = .error ↔ .error ∈ used) ∧
    got.length + used.length = consumed.length + if loop.ended = .closed ∨ loop.ended = .error then 1 else 0

theorem moveDownPossible (got : List UInt8) : ∃ moved, moveDown (window got ++ [0]) = some moved :=
  (Option.bind_eq_some_iff.mp (windowMoves got 0)).imp fun _ h => h.1

theorem receiveBoundary {got stream : List UInt8} {answers : List Answer}
    (first : ∀ p, p <+: got → ¬ blankLine <:+ p) : ∃ loop consumed,
    receiveLoop junk (window got ++ [0]) (held got) got.length stream answers = some loop ∧
      Boundary got stream answers consumed loop := by
  have notYet := first got (List.prefix_refl _)
  have proper : ∀ p, p <+: got → p ≠ got → ¬ blankLine <:+ p := fun p isPrefix _ => first p isPrefix
  obtain ⟨moved,down⟩ := moveDownPossible got
  induction answers generalizing got stream moved with
  | nil => exact ⟨_,got,rfl,rfl,rfl,rfl,proper,by simp [notYet],by simp,by simp,[],by simp⟩
  | cons a rest ih =>
    cases a with
    | error =>
      exact ⟨_,got,by rw [receiveLoop,down]; rfl,rfl,rfl,rfl,proper,by simp [notYet],by simp,by simp,
        [.error],by simp⟩
    | upTo k =>
      cases stream with
      | nil =>
        exact ⟨_,got,by rw [receiveLoop,down]; rfl,rfl,rfl,rfl,proper,by simp [notYet],by simp,by simp,
          [.upTo k],by simp⟩
      | cons c stream =>
        have next : ∀ p, p <+: got ++ [c] → p ≠ got ++ [c] → ¬ blankLine <:+ p := fun p isPrefix shorter =>
          first p ((List.prefix_concat_iff.mp isPrefix).resolve_left shorter)
        rw [receiveByte]
        by_cases ends : blankLine <:+ got ++ [c]
        · rw [if_pos ends]
          exact ⟨_,got ++ [c],rfl,by simp,rfl,rfl,next,by simp [ends],by simp,by simp,[.upTo k],by simp⟩
        · rw [if_neg ends]
          have all : ∀ p, p <+: got ++ [c] → ¬ blankLine <:+ p := fun p isPrefix => by
            by_cases whole : p = got ++ [c]
            · rw [whole]; exact ends
            · exact next p isPrefix whole
          obtain ⟨moved,down⟩ := moveDownPossible (got ++ [c])
          obtain ⟨loop,consumed,ran,b⟩ := @ih (got ++ [c]) stream all ends next moved down
          obtain ⟨used,split,error,count⟩ := b.used
          refine ⟨loop,consumed,ran,by simpa using b.order,b.retVal,b.headerLength,b.first,b.blankLine,
            b.closed,b.waiting,.upTo k::used,by simp [split],by simp [error],?_⟩
          rw [← count]
          simp
          omega

theorem receiveBounded (junk : UInt8) (socket : Receiver) : ∃ loop consumed, receive junk socket = some loop ∧
    Boundary [] socket.stream socket.answers consumed loop :=
  @receiveBoundary junk [] socket.stream socket.answers fun p isPrefix ends => by
    rw [List.prefix_nil.mp isPrefix] at ends
    exact absurd (List.suffix_nil.mp ends) (by decide)

section
variable {socket : Receiver} {consumed : List UInt8} {loop : Loop}

theorem boundaryNoError (received : NoError socket.answers)
    (b : Boundary [] socket.stream socket.answers consumed loop) : loop.ended ≠ .error := by
  obtain ⟨used,split,error,_⟩ := b.used
  exact fun failed => received (by rw [split]; exact List.mem_append_left _ (error.mp failed))

theorem boundaryReturns (b : Boundary [] socket.stream socket.answers consumed loop)
    (enough : socket.stream.length < socket.answers.length) : loop.ended ≠ .waiting := by
  obtain ⟨used,split,_,count⟩ := b.used
  intro waits
  have size := congrArg List.length b.order
  rw [split,b.waiting waits] at enough
  rw [waits,if_neg (by simp)] at count
  simp only [List.length_append,List.length_nil] at size count enough
  omega

theorem boundaryClosed (ran : receive junk socket = some loop)
    (b : Boundary [] socket.stream socket.answers consumed loop) (closed : loop.ended = .closed) :
    recvHeader junk socket =
      some (some ⟨if consumed = [] then none else some consumed,consumed.length,0,loop.socket⟩) := by
  rw [recvHeader,ran,Option.bind_eq_bind,Option.bind_some,finish,closed,b.retVal,b.headerLength,closed]
  rfl

end

/-- Whatever the peer sends before it closes, the loop takes the bytes up to the first blank line
and none behind it, or all of them. -/
theorem headerBoundary {socket : Receiver} (received : NoError socket.answers) :
    ∃ loop consumed, receive junk socket = some loop ∧
      Boundary [] socket.stream socket.answers consumed loop ∧ loop.ended ≠ .error ∧
      (socket.stream.length < socket.answers.length → loop.ended ≠ .waiting) ∧
      (loop.ended = .closed → recvHeader junk socket =
        some (some ⟨if consumed = [] then none else some consumed,consumed.length,0,loop.socket⟩)) := by
  obtain ⟨loop,consumed,ran,b⟩ := receiveBounded junk socket
  exact ⟨loop,consumed,ran,b,boundaryNoError received b,boundaryReturns b,boundaryClosed ran b⟩

theorem overlappingEnds : NoError (List.replicate 4 (.upTo 0)) ∧ ∃ loop consumed,
    receive 7 ⟨[13,10,13,10,13,10],List.replicate 4 (.upTo 0)⟩ = some loop ∧
      Boundary [] [13,10,13,10,13,10] (List.replicate 4 (.upTo 0)) consumed loop ∧ loop.ended = .blankLine := by
  have received : NoError (List.replicate 4 (.upTo 0)) := by simp [NoError]
  have ran : receive 7 ⟨[13,10,13,10,13,10],List.replicate 4 (.upTo 0)⟩ =
    some ⟨.blankLine,some [13,10,13,10],4,⟨[13,10],[]⟩⟩ := by decide +kernel
  obtain ⟨loop,consumed,ran',b,_⟩ := @headerBoundary 7 ⟨[13,10,13,10,13,10],List.replicate 4 (.upTo 0)⟩ received
  rw [ran] at ran'
  cases Option.some.inj ran'
  exact ⟨received,_,consumed,ran,b,rfl⟩

theorem codeByte (w f ys : List UInt8) (a c : UInt8) (left : Nat) :
    codeLoop (w ++ a::f ++ c::ys) (w ++ a::f).length w.length (left + 1) =
      if c = 32 then some (w ++ a::f ++ c::ys)
      else codeLoop (w ++ [c] ++ (f ++ [c]) ++ ys) (w ++ [c] ++ (f ++ [c])).length (w ++ [c]).length left := by
  have here := loadAfter (w ++ a::f) c ys
  have stored := storeAfter w a c (f ++ c::ys)
  have whole : w ++ a::f ++ c::ys = w ++ a::(f ++ c::ys) := by simp
  have next : w ++ [c] ++ (f ++ [c]) ++ ys = w ++ c::(f ++ c::ys) := by simp
  have ptr : ((w ++ a::f).length : Int) + 1 = (w ++ [c] ++ (f ++ [c])).length := by simp; omega
  have index : w.length + 1 = (w ++ [c]).length := by simp
  rw [codeLoop,here,next]
  simp only [bind,Option.bind_some]
  rw [whole,stored,Option.bind_some,ptr,index]

theorem codeLoopStops {num : List UInt8} (away : 32 ∉ num) (w f post : List UInt8) (some_ : f ≠ []) {left : Nat}
    (enough : num.length ≤ left) : codeLoop (w ++ f ++ (num ++ 32::post)) (w ++ f).length w.length left =
      some (w ++ num ++ (f ++ num ++ 32::post).drop num.length) := by
  induction num generalizing w f left with
  | nil =>
    have here := loadAfter (w ++ f) 32 post
    rw [List.nil_append]
    cases left <;> rw [codeLoop,here] <;> simp
  | cons c num ih =>
    obtain ⟨a,f,rfl⟩ := List.exists_cons_of_ne_nil some_
    obtain ⟨left,rfl⟩ := Nat.exists_eq_succ_of_ne_zero (Nat.ne_of_gt (Nat.lt_of_lt_of_le (Nat.succ_pos _) enough))
    have other : c ≠ 32 := fun same => away (by simp [same])
    rw [List.cons_append,codeByte,if_neg other,
      ih (fun mem => away (List.mem_cons_of_mem _ mem)) (w ++ [c]) (f ++ [c]) (by simp) (by simpa using enough)]
    simp

theorem codeLoopFaults {ys : List UInt8} (away : 32 ∉ ys) (w f : List UInt8) (some_ : f ≠ []) {left : Nat}
    (enough : ys.length ≤ left) : codeLoop (w ++ f ++ ys) (w ++ f).length w.length left = none := by
  induction ys generalizing w f left with
  | nil =>
    have beyond : load (w ++ f ++ []) ((w ++ f).length : Int) = none := loadNone.mpr (by simp)
    cases left <;> simp only [codeLoop,beyond,bind,Option.bind_none]
  | cons c ys ih =>
    obtain ⟨a,f,rfl⟩ := List.exists_cons_of_ne_nil some_
    obtain ⟨left,rfl⟩ := Nat.exists_eq_succ_of_ne_zero (Nat.ne_of_gt (Nat.lt_of_lt_of_le (Nat.succ_pos _) enough))
    have other : c ≠ 32 := fun same => away (by simp [same])
    rw [codeByte,if_neg other]
    exact ih (fun mem => away (List.mem_cons_of_mem _ mem)) (w ++ [c]) (f ++ [c]) (by simp) (by simpa using enough)

theorem getStatusCodeCopied {header copy : List UInt8} {n : Nat} (size : n = min 100 header.length)
    (copied : strncpy (List.replicate (n + 1) 0) 0 header 0 n = some copy) :
    getStatusCode header header.length = (do
      let ptr ← (← strchr copy 0 32)
      let buffer ← codeLoop copy (ptr + 1) 0 (n + 1)
      some (atoi (← text buffer 0))) := by
  have sized : (if 100 < (header.length : Int) then 101 else (header.length : Int) + 1) = n + 1 := by
    split <;> omega
  have room : calloc ((n : Int) + 1) = some (List.replicate (n + 1) 0) := by
    unfold calloc
    rw [if_pos (by omega)]
    rfl
  have back : (n : Int) + 1 - 1 = n := by omega
  have steps : ((n : Int) + 1).toNat = n + 1 := by omega
  simp only [getStatusCode,sized,room,back,copied,steps,bind,Option.bind_some]

theorem codeStored {pre num post pad : List UInt8} (away : 32 ∉ num) (noNul : 0 ∉ pre ++ 32::(num ++ 32::post))
    {left : Nat} (enough : num.length ≤ left) :
    (do
      let buffer ← codeLoop (pre ++ 32::(num ++ 32::post) ++ 0::pad) (pre ++ [32]).length 0 left
      some (atoi (← text buffer 0))) =
      some (atoi (num ++ (pre ++ 32::(num ++ 32::post)).drop num.length)) := by
  have stops := @codeLoopStops num away [] (pre ++ [32]) (post ++ 0::pad) (by simp) left enough
  have code : [] ++ num ++ (pre ++ [32] ++ num ++ 32::(post ++ 0::pad)).drop num.length =
      num ++ (pre ++ 32::(num ++ 32::post)).drop num.length ++ 0::pad := by
    have whole : pre ++ [32] ++ num ++ 32::(post ++ 0::pad) = pre ++ 32::(num ++ 32::post) ++ 0::pad := by
      simp
    rw [whole,List.drop_append_of_le_length (by simp; omega)]
    simp
  have plain : 0 ∉ num ++ (pre ++ 32::(num ++ 32::post)).drop num.length := by
    intro mem
    rcases List.mem_append.mp mem with first | later
    · exact noNul (by simp [first])
    · exact noNul (List.mem_of_mem_drop later)
  have start : pre ++ 32::(num ++ 32::post) ++ 0::pad = [] ++ (pre ++ [32]) ++ (num ++ 32::(post ++ 0::pad)) := by
    simp
  rw [code] at stops
  rw [start]
  change (codeLoop _ (([] ++ (pre ++ [32])).length : Nat) ([] : List UInt8).length left >>= _) = _
  rw [stops]
  simp only [bind,Option.bind_some,textFront,cstringExact plain]

theorem statusCodeRefined (header : List UInt8) :
    getStatusCode header header.length = Header.getStatusCode header := by
  obtain ⟨n,size⟩ : ∃ n, n = min 100 header.length := ⟨_,rfl⟩
  have copied := @strncpyFresh header 0 n (.inr (by omega))
  have front : header.take n = header.take 100 := by
    rw [size,← List.take_take,List.take_length]
  rw [List.drop_zero,front] at copied
  have noNul := cstringNoNul (header.take 100)
  have short : (cstring (header.take 100)).length ≤ n := by
    refine (List.takeWhile_prefix _).length_le.trans ?_
    rw [List.length_take,size]
  rw [getStatusCodeCopied size copied,Header.getStatusCode]
  generalize cstring (header.take 100) = s at noNul short copied
  have fill : ((List.replicate (n - s.length) (0 : UInt8)).length = n - s.length) ∧
      32 ∉ List.replicate (n - s.length) (0 : UInt8) := ⟨List.length_replicate,by simp⟩
  generalize List.replicate (n - s.length) (0 : UInt8) = pad at copied fill ⊢
  have looked := @strchrHere s noNul pad 32 (by decide) 0 (Nat.zero_le _)
  rw [List.drop_zero] at looked
  have looked : strchr (s ++ 0::pad) 0 32 = some ((Text.strchr s 32).map (place s)) := looked
  rw [looked]
  by_cases one : 32 ∈ s
  · obtain ⟨pre,r,rfl,away⟩ := List.eq_append_cons_of_mem one
    have ptr : place (pre ++ 32::r) (32::r) + 1 = (pre ++ [32]).length := by simp [place]
    rw [strchrAfter away]
    simp only [Option.map_some,bind,Option.bind_some,List.tail_cons,ptr]
    by_cases two : 32 ∈ r
    · obtain ⟨num,post,rfl,away'⟩ := List.eq_append_cons_of_mem two
      have stored := @codeStored pre num post pad away' noNul (n + 1) (by simp at short; omega)
      have taken : (num ++ 32::post).take ((num ++ 32::post).length - (32::post).length) = num := by simp
      rw [strchrAfter away']
      simp only [Option.bind_some,taken]
      exact stored
    · have size := fill.1
      simp only [List.length_append,List.length_cons] at short size
      have faults := @codeLoopFaults (r ++ 0::pad) (by simp [two,fill.2]) [] (pre ++ [32]) (by simp) (n + 1)
        (by simp; omega)
      have start : pre ++ 32::r ++ 0::pad = [] ++ (pre ++ [32]) ++ (r ++ 0::pad) := by simp
      rw [start,strchrNone two]
      change (codeLoop _ (([] ++ (pre ++ [32])).length : Nat) ([] : List UInt8).length (n + 1)).bind _ = _
      rw [faults]
      rfl
  · rw [strchrNone one]
    rfl

theorem statusCodePossible (header : List UInt8) :
    (∃ code, Header.getStatusCode header = some code) ↔ 2 ≤ (cstring (header.take 100)).count 32 := by
  simp only [Header.getStatusCode]
  generalize cstring (header.take 100) = s
  by_cases one : 32 ∈ s
  · obtain ⟨pre,r,rfl,away⟩ := List.eq_append_cons_of_mem one
    rw [strchrAfter away,List.count_append,List.count_cons_self,List.count_eq_zero.mpr away]
    by_cases two : 32 ∈ r
    · obtain ⟨num,post,rfl,away'⟩ := List.eq_append_cons_of_mem two
      have more : 0 < (num ++ 32::post).count 32 := List.count_pos_iff.mpr two
      simp only [bind,Option.bind_some,List.tail_cons,strchrAfter away']
      exact iff_of_true ⟨_,rfl⟩ (by omega)
    · simp only [bind,Option.bind_some,List.tail_cons,strchrNone two,List.count_eq_zero.mpr two]
      exact iff_of_false (by simp) (by omega)
  · rw [strchrNone one,List.count_eq_zero.mpr one]
    exact iff_of_false (by simp) (by omega)

structure Complete (socket : Receiver) (header : List UInt8) : Prop where
  arrives : header <+: socket.stream
  ends : blankLine <:+ header
  first : ∀ p, p <+: header → p ≠ header → ¬ blankLine <:+ p
  answered : header.length ≤ socket.answers.length
  noError : NoError (socket.answers.take header.length)

theorem completeConsumed {socket : Receiver} {header consumed : List UInt8} {loop : Loop}
    (complete : Complete socket header) (b : Boundary [] socket.stream socket.answers consumed loop) :
    loop.ended = .blankLine ∧ consumed = header := by
  have arrived : consumed <+: socket.stream := ⟨_,b.order.symm⟩
  obtain ⟨used,split,error,count⟩ := b.used
  rcases List.prefix_or_prefix_of_prefix complete.arrives arrived with short | long
  · have same : header = consumed := by
      by_contra other
      exact b.first header short other complete.ends
    subst same
    exact ⟨b.blankLine.mpr complete.ends,rfl⟩
  · by_cases same : consumed = header
    · subst same
      exact ⟨b.blankLine.mpr complete.ends,rfl⟩
    · have shorter : consumed.length < header.length :=
        Nat.lt_of_le_of_ne long.length_le fun size => same (long.eq_of_length size)
      have notYet : loop.ended ≠ .blankLine := fun ended =>
        complete.first consumed long same (b.blankLine.mp ended)
      have answered := complete.answered
      have size := congrArg List.length split
      have order := congrArg List.length b.order
      have arrives := complete.arrives.length_le
      simp only [List.length_append,List.length_nil,Nat.zero_add] at size order count
      cases ended : loop.ended with
      | blankLine => exact absurd ended notYet
      | closed =>
        rw [b.closed ended] at order
        simp at order
        omega
      | waiting =>
        rw [b.waiting ended] at size
        rw [ended,if_neg (by simp)] at count
        simp at size
        omega
      | error =>
        rw [ended,if_pos (.inr rfl)] at count
        have early : used <+: socket.answers.take header.length :=
          List.prefix_take_iff.mpr ⟨⟨_,split.symm⟩,by omega⟩
        exact absurd (early.subset (error.mp ended)) complete.noError

theorem blankLineComplete {socket : Receiver} {consumed : List UInt8} {loop : Loop}
    (b : Boundary [] socket.stream socket.answers consumed loop) (ended : loop.ended = .blankLine) :
    Complete socket consumed := by
  obtain ⟨used,split,error,count⟩ := b.used
  rw [ended,if_neg (by simp)] at count
  simp only [List.length_nil,Nat.zero_add,Nat.add_zero] at count
  refine ⟨⟨_,b.order.symm⟩,b.blankLine.mp ended,b.first,?_,?_⟩
  · rw [split,List.length_append]
    omega
  · rw [split,← count,List.take_left]
    exact fun mem => by cases ended.symm.trans (error.mpr mem)

theorem bodyLengthNone {header : List UInt8} {n : Int}
    (absent : FieldMemory.getHeaderField header n (contentLength ++ [0]) = some none) :
    bodyLength header n = (getStatusCode header n).map fun code => if code = 200 then -1 else 0 := by
  simp only [bodyLength,absent,bind,Option.bind_some]
  cases getStatusCode header n <;> rfl

theorem bodyLengthSome {header value : List UInt8} {n : Int}
    (found : FieldMemory.getHeaderField header n (contentLength ++ [0]) = some (some (value ++ [0]))) :
    bodyLength header n = some (atoi (cstring value)) := by
  simp only [bodyLength,found,bind,Option.bind_some,textFront]

structure Readable (header : List UInt8) : Prop where
  measured : FieldMemory.Measured header contentLength
  blanks : FieldMemory.getHeaderField header header.length (contentLength ++ [0]) = some none →
    2 ≤ (cstring (header.take 100)).count 32

theorem bodyLengthPossible (header : List UInt8) :
    (∃ n, bodyLength header header.length = some n) ↔ Readable header := by
  have measured := @FieldMemory.measuredExact contentLength header (by decide)
  cases found : FieldMemory.getHeaderField header header.length (contentLength ++ [0]) with
  | none =>
    refine iff_of_false (fun ⟨n,h⟩ => ?_) fun readable => ?_
    · simp [bodyLength,found] at h
    · obtain ⟨retVal,ran⟩ := measured.mpr readable.measured
      cases found.symm.trans ran
  | some retVal =>
    have fits := measured.mp ⟨retVal,found⟩
    obtain ⟨value,rfl⟩ := FieldMemory.getHeaderFieldObject (by decide) found
    cases value with
    | none =>
      rw [bodyLengthNone found,statusCodeRefined]
      have possible := @statusCodePossible header
      constructor
      · rintro ⟨n,h⟩
        obtain ⟨code,status,_⟩ := Option.map_eq_some_iff.mp h
        exact ⟨fits,fun _ => possible.mp ⟨code,status⟩⟩
      · intro readable
        obtain ⟨code,status⟩ := possible.mpr (readable.blanks found)
        exact ⟨_,by rw [status,Option.map_some]⟩
    | some value =>
      rw [bodyLengthSome found]
      exact iff_of_true ⟨_,rfl⟩ ⟨fits,fun none_ => by cases found.symm.trans none_⟩

theorem finishBlankLine {loop : Loop} {header : List UInt8} (ended : loop.ended = .blankLine)
    (whole : loop.retVal = some header) : finish loop = (bodyLength header loop.headerLength).map fun n =>
      some ⟨some header,loop.headerLength,n,loop.socket⟩ := by
  simp only [finish,ended,whole,bind,Option.bind_some]
  cases bodyLength header loop.headerLength <;> rfl

theorem recvHeaderFinish {socket : Receiver} {loop : Loop} (ran : receive junk socket = some loop) :
    recvHeader junk socket = finish loop := by
  simp only [recvHeader,ran,bind,Option.bind_some]

/-- recvHeader stays inside its objects exactly when every header that comes in full can be
read: it has a Content-Length or two blanks near its beginning. -/
theorem recvHeaderSafe {socket : Receiver} : (∃ r, recvHeader junk socket = some r) ↔
    ∀ header, Complete socket header → Readable header := by
  obtain ⟨loop,consumed,ran,b⟩ := receiveBounded junk socket
  rw [recvHeaderFinish ran]
  cases ended : loop.ended with
  | blankLine =>
    have whole : loop.retVal = some consumed := by
      rw [b.retVal,ended,if_neg (by simp),heldEnds (b.blankLine.mp ended)]
    have returns : (∃ r, finish loop = some r) ↔ ∃ n, bodyLength consumed consumed.length = some n := by
      rw [finishBlankLine ended whole,b.headerLength]
      cases bodyLength consumed consumed.length <;> simp
    rw [returns,bodyLengthPossible]
    constructor
    · intro safe header complete
      obtain ⟨_,rfl⟩ := completeConsumed complete b
      exact safe
    · intro safe
      exact safe consumed (blankLineComplete b ended)
  | closed | error | waiting =>
    refine iff_of_true (by rw [finish,ended]; exact ⟨_,rfl⟩) fun header complete => ?_
    rw [(completeConsumed complete b).1] at ended
    cases ended

theorem noBlanks : ¬ ∀ (junk : UInt8) (socket : Receiver), ∃ r, recvHeader junk socket = some r := by
  intro safe
  have faults : recvHeader 0 ⟨blankLine,List.replicate 4 (.upTo 0)⟩ = none := by decide +kernel
  obtain ⟨r,h⟩ := safe 0 ⟨blankLine,List.replicate 4 (.upTo 0)⟩
  rw [faults] at h
  cases h

theorem bodyLengthRefined {header : List UInt8} (room : header.length < 2 ^ 63 - 1) :
    bodyLength header header.length = Header.bodyLength header := by
  have found := @FieldMemory.fieldRefined contentLength header (by decide) (by decide) room
  unfold Header.bodyLength
  cases extracted : Header.getHeaderField header contentLength with
  | none =>
    rw [extracted] at found
    simp [bodyLength,found]
  | some retVal =>
    rw [extracted] at found
    cases retVal with
    | none =>
      rw [bodyLengthNone found,statusCodeRefined]
      cases Header.getStatusCode header <;> rfl
    | some value =>
      rw [bodyLengthSome found,cstringExact (Header.valueNoNul extracted)]
      rfl

theorem loopRefined {got stream : List UInt8} {answers : List Answer}
    (room : (got ++ stream).length < 2 ^ 63 - 1) :
    ((receiveLoop junk (window got ++ [0]) (held got) got.length stream answers).bind finish).join =
      Header.headerLoop (window got) got stream answers := by
  obtain ⟨moved,down⟩ := moveDownPossible got
  induction answers generalizing got stream moved with
  | nil => rfl
  | cons a rest ih =>
    cases a with
    | error => rw [receiveLoop,down]; rfl
    | upTo k =>
      cases stream with
      | nil => rw [receiveLoop,down]; rfl
      | cons c stream =>
        have one : (Answer.upTo k).bytes ((c::stream).take 1) = some [c] := by simp [Answer.bytes]
        rw [receiveByte,Header.headerLoop,one]
        simp only [Header.windowNext,Header.windowBlank]
        by_cases ends : blankLine <:+ got ++ [c]
        · have short : (got ++ [c]).length < 2 ^ 63 - 1 := by
            simp only [List.length_append,List.length_cons,List.length_nil] at room ⊢
            omega
          rw [if_pos ends,if_neg (not_not.mpr ends),Option.bind_some,finishBlankLine rfl (heldLast got c),
            bodyLengthRefined short]
          cases Header.bodyLength (got ++ [c]) <;> rfl
        · rw [if_neg ends,if_pos ends]
          obtain ⟨moved,down⟩ := moveDownPossible (got ++ [c])
          exact @ih (got ++ [c]) stream (by simpa using room) moved down

theorem recvHeaderRefined {socket : Receiver} (room : socket.stream.length < 2 ^ 63 - 1) :
    (recvHeader junk socket).join = Header.recvHeader socket :=
  @loopRefined junk [] socket.stream socket.answers room

end

end IttyBittyServer.Receive
