import IttyBittyServer.Exchange
import IttyBittyServer.Ledger
import IttyBittyServer.ProxyIteration

/-! What a thread of the proxy allocates for a client, and what of it no thread frees. The
socket to the server is the threads' common one and not part of it; nor is what an image's
compression allocates. -/
namespace IttyBittyServer.ProxyResources
open Sockets Text Run Ledger
open Header (Received contentLength blankLine window)
open ProxyIteration (World Held Contact internal)

/- `header` is the request and `response` what the same variable holds later, `bLength`, `type` and
`host` are values of fields, `own` is sharedProxy's host entity and `chunk` what receiveShared returns. -/
inductive Resource where
  | c | conn | header | toSearch | bLength | buffer | type | fullServer | uriServer | he
  | own | mutex | total | chunk | host | tHeader | response
  deriving DecidableEq, Repr

/- Whether sharedProxy asks for its own address. -/
structure Visit where
  world : World
  lookedUp : Bool

def getHeaderField (header field : List UInt8) (retVal : Resource) : List (Act Resource) :=
  .acquire .toSearch::((if (Header.getHeaderField header field).join.isSome then [.acquire retVal] else []) ++
    [.release .toSearch])

def bodyLength (header : List UInt8) : List (Act Resource) :=
  getHeaderField header contentLength .bLength ++
    if (Header.getHeaderField header contentLength).join.isSome then [.use .bLength,.release .bLength]
    else [.acquire .buffer,.use .buffer,.release .buffer]

def headerLoop (retVal' : Resource) (inputChar retVal stream : List UInt8) (answers : List Answer) :
    Option (Received × List (Act Resource)) :=
  match answers with
  | [] => none
  | a::rest => match a.bytes (stream.take 1) with
    | none => some (⟨none,retVal.length,0,⟨stream,rest⟩⟩,[])
    | some [] => some (⟨if retVal = [] then none else some retVal,retVal.length,0,⟨stream,rest⟩⟩,[])
    | some (c::_) =>
      let realloc := if retVal = [] then [.acquire retVal'] else [.release retVal',.acquire retVal']
      let inputChar := c::inputChar.take 3
      let retVal := retVal ++ [c]
      if (strstr (cstring inputChar) [10,13,10,13]).isNone then do
        let (r,acts) ← headerLoop retVal' inputChar retVal (stream.drop 1) rest
        some (r,realloc ++ acts)
      else do
        let n ← Header.bodyLength retVal
        some (⟨some retVal,retVal.length,n,⟨stream.drop 1,rest⟩⟩,realloc ++ bodyLength retVal)

def recvHeader (retVal : Resource) (socket : Receiver) : Option (Received × List (Act Resource)) :=
  headerLoop retVal [0,0,0,0] [] socket.stream socket.answers

def isJPG (toSearch : List UInt8) : List (Act Resource) :=
  let field := ascii "\nContent-Type"
  getHeaderField toSearch field .type ++
    if (Header.getHeaderField toSearch field).join.isSome then [.use .type,.release .type] else []

/- Neither NULL frees the host. -/
def stripAbsURL (header : List UInt8) : Option (Option (List UInt8) × List (Act Resource)) := do
  let newHeader ← ProxyIteration.stripAbsURL header
  let named := getHeaderField header (ascii "\nHost") .host
  match newHeader with
  | none => some (none,named)
  | some newHeader => some (some newHeader,named ++ [.acquire .tHeader,.use .host,.release .host])

def sendShared (header : List UInt8) : List (Act Resource) :=
  .acquire .total::(.use .tHeader::(List.replicate (Exchange.chunks header.length)
    [Act.use Resource.total,.use .mutex]).flatten ++ [.release .total])

/- A header that is NULL has no result. -/
def sharedProxy (v : Visit) (header : List UInt8) : Option (Option (List Held) × List (Act Resource)) :=
  let own := if v.lookedUp then [.acquire .own,.release .own] else []
  match v.world.shared with
  | none => some (none,own)
  | some responses => do
    let (newHeader,stripped) ← stripAbsURL header
    let tHeader ← newHeader
    some (some responses,own ++ [.acquire .mutex] ++ stripped ++ [.release .header] ++ sendShared tHeader ++
      [.release .tHeader] ++ (List.replicate responses.length
        [Act.use Resource.mutex,.acquire .chunk,.use .conn,.use .chunk,.release .chunk]).flatten ++ [.release .mutex])

def fail (frees : List Resource) : List (Act Resource) := .use .conn::.release .conn::frees.map .release

def contactServer (w : World) (header : List UInt8) : Option (Contact × List (Act Resource)) :=
  if ¬ w.socket then some (internal "The proxy encountered an error.\n",fail [.header,.c])
  else if ¬ w.connect then
    some (.error 408 (ascii "Request Timeout") (ascii "The server did not respond to proxy requests.\n"),
      fail [.header,.c])
  else do
    let (tHeader,stripped) ← stripAbsURL header
    match tHeader with
    | none => some (internal "The proxy encountered an error.\n",stripped ++ fail [.c])
    | some tHeader =>
      let sent ← sendAll w.server tHeader tHeader.length
      let asked := stripped ++ [.release .header,.use .tHeader]
      if sent.returned < 0 then some (internal "The proxy encountered an error.\n",asked ++ fail [.c,.tHeader])
      else do
        let (r,received) ← recvHeader .response w.upstream
        match r.header with
        | none => some (internal "The proxy encountered an error.\n",asked ++ [.release .tHeader] ++ received ++ fail [.c])
        | some header => some (.response header r.headerLength r.bodyLength r.socket false,
            asked ++ [.release .tHeader] ++ received)

def contactHost (v : Visit) (header : List UInt8) : Option (Contact × List (Act Resource)) :=
  if ¬ v.world.resolved then
    some (.error 404 (ascii "Not Found") (ascii "Server not found.\n"),fail [.c,.uriServer,.fullServer,.header])
  else do
    let (shared,tried) ← sharedProxy v header
    let freed := tried ++ [.release .uriServer,.release .fullServer,.release .he]
    match shared with
    | some responses => some (.shared responses false,freed ++ [.release .conn,.release .c])
    | none => do
      let (reached,acts) ← contactServer v.world header
      some (reached,freed ++ acts)

/- An image that is to be compressed has no result here. -/
def contact (v : Visit) : Option (Contact × List (Act Resource)) := do
  let w := v.world
  let (request,received) ← recvHeader .header w.request
  match request.header with
  | none => some (internal "The proxy encountered an error.",received ++ fail [.c])
  | some header =>
    let compression ← ProxyIteration.compression w header
    if compression then none
    else do
      let looked := received ++ (if w.compress then isJPG header else []) ++
        getHeaderField header (ascii "\nHost") .fullServer
      let fullServer ← Header.getHeaderField header (ascii "\nHost")
      if fullServer.isNone then
        some (internal "The proxy encountered an error.",looked ++ fail [.header,.c])
      else
        let chopped := looked ++ [.use .fullServer,.acquire .uriServer]
        if ¬ w.allocated then
          some (internal "The proxy has encountered an error.\n",chopped ++ fail [.c,.uriServer,.fullServer,.header])
        else do
          let (reached,acts) ← contactHost v header
          some (reached,chopped ++ [.acquire .he] ++ acts)

/- A segment without data ends the program, and nothing is left of it. -/
def handleClient (v : Visit) : Option (List (Act Resource)) := do
  let taken := [Act.acquire Resource.c,.acquire .conn]
  let (reached,acts) ← contact v
  match reached with
  | .response header headerLength bodyLength upstream compression => do
    let r ← Forward.recvAllForward upstream v.world.client header headerLength bodyLength compression v.world.rpc
    let last := if r.returned < 0 then fail [.c,.response] else [.use .conn,.release .conn,.release .c,.release .response]
    some (taken ++ acts ++ [.use .response] ++ last)
  | .shared responses compression => do
    let r ← ImageForward.forwardShared v.world.client compression v.world.rpc (responses.map Subtype.val)
    if r.ending = .returned then some (taken ++ acts) else none
  | .error .. => some (taken ++ acts)

inductive Node where
  | process (v : Visit)
  | terminate

def turn : Node → Option (List (Act Resource))
  | .process v => handleClient v
  | .terminate => some [.acquire .c,.release .c]

def taken : List Node → List Node
  | [] => []
  | .terminate::_ => [.terminate]
  | .process v::nodes => .process v::taken nodes

def turns (k : Nat) : List Node → Option (List (Nat × Act Resource))
  | [] => some []
  | node::nodes => do
    let acts ← turn node
    let rest ← turns (k + 1) nodes
    some (acts.map (Prod.mk k) ++ rest)

def worker (nodes : List Node) : Option (List (Nat × Act Resource)) := turns 0 (taken nodes)

/- recv fails when something has come, and not all of the header. -/
def CutOff (socket : Receiver) : Prop := ∃ received answered rest, received ≠ [] ∧ received <+: socket.stream ∧
  ¬ blankLine <:+: received ∧ socket.answers = answered ++ .error::rest ∧ NoError answered ∧
  answered.length = received.length

def asked (w : World) : Option (List UInt8) := do
  let request ← Header.recvHeader w.request
  let header ← request.header
  if (Header.getHeaderField header (ascii "\nHost")).join.isSome then some header else none

def Forwarded (w : World) : Prop := ∃ header tHeader sent, asked w = some header ∧ w.allocated = true ∧
  w.resolved = true ∧ w.shared = none ∧ w.socket = true ∧ w.connect = true ∧
  ProxyIteration.stripAbsURL header = some (some tHeader) ∧ sendAll w.server tHeader tHeader.length = some sent ∧
  0 ≤ sent.returned

inductive Left (w : World) : Resource → Prop where
  | header (cut : CutOff w.request) : Left w .header
  | he (named : (asked w).isSome = true) (allocated : w.allocated = true) (unknown : w.resolved = false) : Left w .he
  | response (forwarded : Forwarded w) (cut : CutOff w.upstream) : Left w .response

section
variable {held : Finset Resource} {retVal : Resource} {header field : List UInt8}

theorem fieldSettles (free : .toSearch ∉ held) (fresh : retVal ∉ held) (other : retVal ≠ .toSearch) :
    Settles held (getHeaderField header field retVal)
      (if (Header.getHeaderField header field).join.isSome then insert retVal held else held) := by
  unfold getHeaderField
  cases (Header.getHeaderField header field).join.isSome with
  | false =>
    refine settlesAcquire free (settlesRelease (Finset.mem_insert_self _ _) ?_)
    rw [Finset.erase_insert free]
    exact settlesNil
  | true =>
    have apart : retVal ∉ insert Resource.toSearch held := by
      simp [other,fresh]
    refine settlesAcquire free (settlesAcquire apart (settlesRelease ?_ ?_))
    · simp
    · rw [Finset.erase_insert_of_ne other,Finset.erase_insert free]
      exact settlesNil

theorem valueSettles (mem : retVal ∉ held) : Settles (insert retVal held) [.use retVal,.release retVal] held := by
  refine settlesUse (Finset.mem_insert_self _ _) (settlesRelease (Finset.mem_insert_self _ _) ?_)
  rw [Finset.erase_insert mem]
  exact settlesNil

theorem bodyLengthSettles (search : .toSearch ∉ held) (value : .bLength ∉ held) (copy : .buffer ∉ held) :
    Settles held (bodyLength header) held := by
  refine settlesAppend (fieldSettles search value (by decide)) ?_
  cases (Header.getHeaderField header contentLength).join.isSome with
  | false =>
    simp only [Bool.false_eq_true,if_false]
    exact settlesAcquire copy (valueSettles copy)
  | true =>
    simp only [if_true]
    exact valueSettles value

theorem isJPGSettles (search : .toSearch ∉ held) (value : .type ∉ held) : Settles held (isJPG header) held := by
  refine settlesAppend (fieldSettles search value (by decide)) ?_
  cases (Header.getHeaderField header (ascii "\nContent-Type")).join.isSome with
  | false => exact settlesNil
  | true =>
    simp only [if_true]
    exact valueSettles value

def accepted : Finset Resource := {.c,.conn}

theorem loopSettles {inputChar got stream : List UInt8} {answers : List Answer} {r : Received}
    {acts : List (Act Resource)} (which : retVal = .header ∨ retVal = .response)
    (ran : headerLoop retVal inputChar got stream answers = some (r,acts)) :
    Header.headerLoop inputChar got stream answers = some r ∧
      Settles (if got = [] then accepted else insert retVal accepted) acts
        (if r.headerLength = 0 then accepted else insert retVal accepted) := by
  have fresh : retVal ∉ accepted := by rcases which with rfl | rfl <;> decide
  have free : .toSearch ∉ insert retVal accepted ∧ .bLength ∉ insert retVal accepted ∧
      .buffer ∉ insert retVal accepted := by rcases which with rfl | rfl <;> decide
  have same : ∀ got : List UInt8, (if (got.length : Int) = 0 then accepted else insert retVal accepted) =
      if got = [] then accepted else insert retVal accepted := by
    simp only [Int.natCast_eq_zero,List.length_eq_zero_iff,implies_true]
  induction answers generalizing inputChar got stream acts with
  | nil => cases ran
  | cons a rest ih =>
    rw [headerLoop] at ran
    rw [Header.headerLoop]
    cases brought : a.bytes (stream.take 1) with
    | none =>
      rw [brought] at ran
      cases Option.some.inj ran
      refine ⟨rfl,?_⟩
      dsimp only
      rw [same]
      exact settlesNil
    | some bytes =>
      rw [brought] at ran
      cases bytes with
      | nil =>
        cases Option.some.inj ran
        refine ⟨rfl,?_⟩
        dsimp only
        rw [same]
        exact settlesNil
      | cons c bytes =>
        dsimp only at ran ⊢
        have grown : Settles (if got = [] then accepted else insert retVal accepted)
            (if got = [] then [.acquire retVal] else [.release retVal,.acquire retVal]) (insert retVal accepted) := by
          split
          · exact settlesAcquire fresh settlesNil
          · refine settlesRelease (Finset.mem_insert_self _ _) ?_
            rw [Finset.erase_insert fresh]
            exact settlesAcquire fresh settlesNil
        have more : got ++ [c] ≠ [] := by simp
        split at ran
        · rename_i going
          obtain ⟨⟨u,later⟩,next,last⟩ := Option.bind_eq_some_iff.mp ran
          cases Option.some.inj last
          obtain ⟨received,settled⟩ := ih next
          rw [if_neg more] at settled
          rw [if_pos going]
          exact ⟨received,settlesAppend grown settled⟩
        · rename_i going
          obtain ⟨n,measured,last⟩ := Option.bind_eq_some_iff.mp ran
          cases Option.some.inj last
          rw [if_neg going,measured]
          refine ⟨rfl,settlesAppend grown ?_⟩
          rw [same,if_neg more]
          exact bodyLengthSettles free.1 free.2.1 free.2.2

theorem headerSettles {socket : Receiver} {r : Received} {acts : List (Act Resource)}
    (which : retVal = .header ∨ retVal = .response) (ran : recvHeader retVal socket = some (r,acts)) :
    Header.recvHeader socket = some r ∧
      Settles accepted acts (if r.headerLength = 0 then accepted else insert retVal accepted) :=
  loopSettles which ran

def Breaks (got stream : List UInt8) (answers : List Answer) : Prop := ∃ received answered rest,
  got ++ received ≠ [] ∧ received <+: stream ∧ ¬ blankLine <:+: got ++ received ∧
    answers = answered ++ .error::rest ∧ NoError answered ∧ answered.length = received.length

theorem breaksBehind {got stream : List UInt8} {k : Nat} {rest : List Answer}
    (breaks : Breaks got stream (.upTo k::rest)) : ∃ c tail, stream = c::tail ∧ Breaks (got ++ [c]) tail rest ∧
      ¬ blankLine <:+ got ++ [c] := by
  obtain ⟨received,answered,after,_,front,noEnd,all,clean,size⟩ := breaks
  rcases answered with _ | ⟨a,answered⟩
  · cases all
  · obtain ⟨rfl,rfl⟩ := List.cons.inj all
    obtain ⟨c,received,rfl⟩ := List.exists_cons_of_length_eq_add_one size.symm
    obtain ⟨tail,rfl⟩ := front
    have whole : got ++ c::received = got ++ [c] ++ received := by simp
    rw [whole] at noEnd
    refine ⟨c,received ++ tail,rfl,⟨received,answered,after,by simp,List.prefix_append _ _,noEnd,rfl,?_,?_⟩,?_⟩
    · exact fun mem => clean (List.mem_cons_of_mem _ mem)
    · exact Nat.succ_inj.mp size
    · exact fun ends => noEnd (ends.isInfix.trans (List.infix_append' [] _ _))

theorem breaksNext {got stream : List UInt8} {c : UInt8} {k : Nat} {rest : List Answer}
    (breaks : Breaks (got ++ [c]) stream rest) : Breaks got (c::stream) (.upTo k::rest) := by
  obtain ⟨received,answered,after,_,front,noEnd,rfl,clean,size⟩ := breaks
  refine ⟨c::received,.upTo k::answered,after,by simp,List.cons_prefix_cons.mpr ⟨rfl,front⟩,?_,rfl,?_,?_⟩
  · simpa using noEnd
  · exact fun mem => clean ((List.mem_cons.mp mem).resolve_left (by simp))
  · exact congrArg (· + 1) size

theorem breaksExact {got stream : List UInt8} {answers : List Answer} {r : Received} (going : ¬ blankLine <:+: got)
    (ran : Header.headerLoop (window got) got stream answers = some r) :
    Breaks got stream answers ↔ r.header = none ∧ r.headerLength ≠ 0 := by
  induction answers generalizing got stream with
  | nil => cases ran
  | cons a rest ih =>
    cases a with
    | error =>
      cases Option.some.inj ran
      constructor
      · rintro ⟨received,answered,after,some_,_,_,all,clean,size⟩
        rcases answered with _ | ⟨a,answered⟩
        · obtain rfl := List.length_eq_zero_iff.mp size.symm
          exact ⟨rfl,by simpa using some_⟩
        · obtain ⟨rfl,_⟩ := List.cons.inj all
          exact absurd List.mem_cons_self clean
      · rintro ⟨_,some_⟩
        refine ⟨[],[],rest,?_,List.nil_prefix,by simpa using going,rfl,by simp [NoError],rfl⟩
        simpa using some_
    | upTo k =>
      cases stream with
      | nil =>
        cases Option.some.inj ran
        refine iff_of_false (fun breaks => ?_) fun both => ?_
        · obtain ⟨c,tail,same,_⟩ := breaksBehind breaks
          cases same
        · dsimp only at both
          split at both
          · rename_i none_
            exact both.2 (by simp [none_])
          · cases both.1
      | cons c stream =>
        have one : (Answer.upTo k).bytes ((c::stream).take 1) = some [c] := by simp [Answer.bytes]
        rw [Header.headerLoop,one] at ran
        simp only [Header.windowNext,Header.windowBlank] at ran
        by_cases ends : blankLine <:+ got ++ [c]
        · rw [if_neg (not_not.mpr ends)] at ran
          obtain ⟨n,_,last⟩ := Option.bind_eq_some_iff.mp ran
          cases Option.some.inj last
          refine iff_of_false (fun breaks => ?_) fun both => by cases both.1
          obtain ⟨c',tail,same,_,noEnd⟩ := breaksBehind breaks
          obtain ⟨rfl,_⟩ := List.cons.inj same
          exact noEnd ends
        · rw [if_pos ends] at ran
          have still : ¬ blankLine <:+: got ++ [c] := fun inside => by
            rcases List.infix_concat_iff.mp inside with last | before
            · exact ends last
            · exact going before
          rw [← ih still ran]
          refine ⟨fun breaks => ?_,breaksNext⟩
          obtain ⟨c',tail,same,later,_⟩ := breaksBehind breaks
          obtain ⟨rfl,rfl⟩ := List.cons.inj same
          exact later

theorem cutOffExact {socket : Receiver} {r : Received} (ran : Header.recvHeader socket = some r) :
    CutOff socket ↔ r.header = none ∧ r.headerLength ≠ 0 :=
  @breaksExact [] socket.stream socket.answers r (by decide) ran

theorem stripSame {newHeader : Option (List UInt8)} {acts : List (Act Resource)}
    (ran : stripAbsURL header = some (newHeader,acts)) : ProxyIteration.stripAbsURL header = some newHeader := by
  simp only [stripAbsURL,bind] at ran
  obtain ⟨found,made,last⟩ := Option.bind_eq_some_iff.mp ran
  cases found <;> cases Option.some.inj last <;> exact made

theorem serverSame {w : World} {reached : Contact} {acts : List (Act Resource)}
    (ran : contactServer w header = some (reached,acts)) :
    ProxyIteration.contactServer w header false = some reached := by
  simp only [ProxyIteration.contactServer,bind]
  simp only [contactServer,bind] at ran
  by_cases socket : w.socket = true
  case neg =>
    rw [if_pos socket] at ran ⊢
    cases Option.some.inj ran
    rfl
  rw [if_neg (not_not.mpr socket)] at ran ⊢
  by_cases connect : w.connect = true
  case neg =>
    rw [if_pos connect] at ran ⊢
    cases Option.some.inj ran
    rfl
  rw [if_neg (not_not.mpr connect)] at ran ⊢
  obtain ⟨⟨newHeader,stripped⟩,strip,ran⟩ := Option.bind_eq_some_iff.mp ran
  rw [stripSame strip]
  cases newHeader with
  | none =>
    cases Option.some.inj ran
    rfl
  | some tHeader =>
    obtain ⟨sent,sending,ran⟩ := Option.bind_eq_some_iff.mp ran
    simp only [Option.bind_some,sending]
    by_cases failed : sent.returned < 0
    · rw [if_pos failed] at ran ⊢
      cases Option.some.inj ran
      rfl
    rw [if_neg failed] at ran ⊢
    obtain ⟨⟨r,answered⟩,got,ran⟩ := Option.bind_eq_some_iff.mp ran
    rw [(headerSettles (Or.inr rfl) got).1,Option.bind_some]
    dsimp only at ran
    cases answer : r.header with
    | none =>
      rw [answer] at ran
      cases Option.some.inj ran
      rfl
    | some header =>
      rw [answer] at ran
      cases Option.some.inj ran
      rfl

theorem sharedSame {v : Visit} {shared : Option (List Held)} {acts : List (Act Resource)}
    (ran : sharedProxy v header = some (shared,acts)) : shared = v.world.shared ∧
      ∀ responses ∈ shared, ProxyIteration.contactShared header responses false = some (.shared responses false) := by
  simp only [sharedProxy,bind] at ran
  cases takes : v.world.shared with
  | none =>
    rw [takes] at ran
    cases Option.some.inj ran
    exact ⟨rfl,fun _ here => by cases here⟩
  | some responses =>
    rw [takes] at ran
    obtain ⟨⟨newHeader,stripped⟩,strip,ran⟩ := Option.bind_eq_some_iff.mp ran
    obtain ⟨tHeader,rfl,ran⟩ := Option.bind_eq_some_iff.mp ran
    cases Option.some.inj ran
    refine ⟨rfl,fun responses' here => ?_⟩
    cases Option.some.inj here
    rw [ProxyIteration.contactShared,stripSame strip]
    rfl

theorem contactSame {v : Visit} {reached : Contact} {acts : List (Act Resource)}
    (ran : contact v = some (reached,acts)) : ProxyIteration.contact v.world = some reached := by
  simp only [contact,bind] at ran
  obtain ⟨⟨request,received⟩,got,ran⟩ := Option.bind_eq_some_iff.mp ran
  simp only [ProxyIteration.contact,(headerSettles (Or.inl rfl) got).1,bind,Option.bind_some]
  dsimp only at ran
  cases brought : request.header with
  | none =>
    rw [brought] at ran
    cases Option.some.inj ran
    rfl
  | some header =>
    rw [brought] at ran
    dsimp only at ran ⊢
    obtain ⟨compression,plain,ran⟩ := Option.bind_eq_some_iff.mp ran
    rw [plain,Option.bind_some]
    cases compression with
    | true => cases ran
    | false =>
      simp only [Bool.false_eq_true,if_false] at ran
      obtain ⟨fullServer,named,ran⟩ := Option.bind_eq_some_iff.mp ran
      rw [named,Option.bind_some]
      by_cases unnamed : fullServer.isNone = true
      · rw [if_pos unnamed] at ran ⊢
        cases Option.some.inj ran
        rfl
      rw [if_neg unnamed] at ran ⊢
      by_cases allocated : v.world.allocated = true
      case neg =>
        rw [if_pos allocated] at ran ⊢
        cases Option.some.inj ran
        rfl
      rw [if_neg (not_not.mpr allocated)] at ran ⊢
      obtain ⟨⟨reached',acts'⟩,host,last⟩ := Option.bind_eq_some_iff.mp ran
      cases Option.some.inj last
      simp only [contactHost,bind] at host
      by_cases resolved : v.world.resolved = true
      case neg =>
        rw [if_pos resolved] at host ⊢
        cases Option.some.inj host
        rfl
      rw [if_neg (not_not.mpr resolved)] at host ⊢
      obtain ⟨⟨shared,tried⟩,proxy,host⟩ := Option.bind_eq_some_iff.mp host
      obtain ⟨takes,contacted⟩ := sharedSame proxy
      rw [← takes]
      cases shared with
      | some responses =>
        cases Option.some.inj host
        exact contacted responses rfl
      | none =>
        obtain ⟨⟨reached'',acts''⟩,server,last⟩ := Option.bind_eq_some_iff.mp host
        cases Option.some.inj last
        exact serverSame server

theorem stripSettles {host : List UInt8} {newHeader : Option (List UInt8)} {acts : List (Act Resource)}
    (named : Header.getHeaderField header (ascii "\nHost") = some (some host))
    (free : .toSearch ∉ held ∧ .host ∉ held ∧ .tHeader ∉ held) (ran : stripAbsURL header = some (newHeader,acts)) :
    ∃ tHeader, newHeader = some tHeader ∧ ProxyIteration.stripAbsURL header = some (some tHeader) ∧
      Settles held acts (insert .tHeader held) := by
  simp only [stripAbsURL,bind] at ran
  obtain ⟨stripped,found,last⟩ := Option.bind_eq_some_iff.mp ran
  have room := Header.valueLength (by decide) named
  have size : (ascii "\nHost").length = 5 := by decide
  have whole : stripped.isSome = true := by
    simp only [ProxyIteration.stripAbsURL,named,bind,Option.bind_some] at found
    have enough : ¬ header.length < 7 + host.length := by omega
    rw [if_neg enough] at found
    obtain ⟨start,_,found⟩ := Option.bind_eq_some_iff.mp found
    split at found
    · cases found
    · cases Option.some.inj found
      rfl
  obtain ⟨tHeader,rfl⟩ := Option.isSome_iff_exists.mp whole
  cases Option.some.inj last
  refine ⟨tHeader,rfl,found,?_⟩
  have value := @fieldSettles held .host header (ascii "\nHost") free.1 free.2.1 (by decide)
  rw [named] at value
  refine settlesAppend value ?_
  have fresh : .tHeader ∉ insert Resource.host held := by simp [free.2.2]
  refine settlesAcquire fresh (settlesUse (by simp) (settlesRelease (by simp) ?_))
  rw [Finset.erase_insert_of_ne (by decide),Option.join_some,Option.isSome_some,if_pos rfl,Finset.erase_insert free.2.1]
  exact settlesNil

def looking : Finset Resource := {.c,.conn,.header,.fullServer,.uriServer,.he}

theorem sendSettles {held : Finset Resource} {message : List UInt8} (fresh : .total ∉ held)
    (have_ : .tHeader ∈ held) (locked : .mutex ∈ held) : Settles held (sendShared message) held := by
  have chunk : ∀ acts ∈ List.replicate (Exchange.chunks message.length) [Act.use Resource.total,.use .mutex],
      Settles (insert .total held) acts (insert .total held) := by
    intro acts mem
    rw [List.eq_of_mem_replicate mem]
    exact settlesUse (Finset.mem_insert_self _ _) (settlesUse (Finset.mem_insert_of_mem locked) settlesNil)
  have inside := settlesUse (Finset.mem_insert_of_mem have_) (settlesRounds chunk)
  exact settlesWith fresh inside fresh

theorem sharedSettles {v : Visit} {host : List UInt8} {shared : Option (List Held)} {acts : List (Act Resource)}
    (named : Header.getHeaderField header (ascii "\nHost") = some (some host))
    (ran : sharedProxy v header = some (shared,acts)) :
    Settles looking acts (if shared.isSome then looking.erase .header else looking) := by
  have asked : Settles looking (if v.lookedUp then [.acquire .own,.release .own] else []) looking := by
    split <;> decide
  unfold sharedProxy at ran
  cases takes : v.world.shared with
  | none =>
    rw [takes] at ran
    cases Option.some.inj ran
    exact asked
  | some responses =>
    rw [takes] at ran
    obtain ⟨⟨newHeader,stripped⟩,strip,ran⟩ := Option.bind_eq_some_iff.mp ran
    obtain ⟨tHeader,_,ran⟩ := Option.bind_eq_some_iff.mp ran
    cases Option.some.inj ran
    obtain ⟨_,_,_,renewed⟩ := @stripSettles (insert .mutex looking) header host newHeader stripped named (by decide) strip
    have locked : Settles looking [.acquire .mutex] (insert .mutex looking) := by decide
    have freed : Settles (insert .tHeader (insert .mutex looking)) [.release .header]
        (insert .tHeader ((insert .mutex looking).erase .header)) := by decide
    have sent : Settles (insert .tHeader ((insert .mutex looking).erase .header)) (sendShared tHeader)
        (insert .tHeader ((insert .mutex looking).erase .header)) := sendSettles (by decide) (by decide) (by decide)
    have dropped : Settles (insert .tHeader ((insert .mutex looking).erase .header)) [.release .tHeader]
        ((insert .mutex looking).erase .header) := by decide
    have chunk : ∀ acts ∈ List.replicate responses.length
        [Act.use Resource.mutex,.acquire .chunk,.use .conn,.use .chunk,.release .chunk],
        Settles ((insert .mutex looking).erase .header) acts ((insert .mutex looking).erase .header) := by
      intro acts mem
      rw [List.eq_of_mem_replicate mem]
      decide
    have unlocked : Settles ((insert .mutex looking).erase .header) [.release .mutex] (looking.erase .header) := by
      decide
    exact settlesAppend (settlesAppend (settlesAppend (settlesAppend (settlesAppend (settlesAppend
      (settlesAppend asked locked) renewed) freed) sent) dropped) (settlesRounds chunk)) unlocked

def Ends (w : World) : Contact → Finset Resource → Prop
  | .response .., after => after = insert .response accepted ∧ ∀ r, ¬ Left w r
  | _, after => ∀ r, r ∈ after ↔ Left w r

section
variable {w : World} {after : Finset Resource}

theorem leftExact {r : Resource} : Left w r ↔ r = .header ∧ CutOff w.request ∨
    r = .he ∧ ((asked w).isSome = true ∧ w.allocated = true ∧ w.resolved = false) ∨
    r = .response ∧ Forwarded w ∧ CutOff w.upstream := by
  constructor
  · rintro (cut | ⟨named,allocated,unknown⟩ | ⟨forwarded,cut⟩)
    · exact Or.inl ⟨rfl,cut⟩
    · exact Or.inr (Or.inl ⟨rfl,named,allocated,unknown⟩)
    · exact Or.inr (Or.inr ⟨rfl,forwarded,cut⟩)
  · rintro (⟨rfl,cut⟩ | ⟨rfl,named,allocated,unknown⟩ | ⟨rfl,forwarded,cut⟩)
    · exact .header cut
    · exact .he named allocated unknown
    · exact .response forwarded cut

theorem leftResponse (whole : ¬ CutOff w.request) (known : w.resolved = true) {r : Resource} :
    Left w r ↔ r = .response ∧ Forwarded w ∧ CutOff w.upstream := by
  rw [leftExact]
  simp [whole,known]

theorem nothingLeft (whole : ¬ CutOff w.request)
    (known : ¬ ((asked w).isSome = true ∧ w.allocated = true ∧ w.resolved = false))
    (answered : ¬ (Forwarded w ∧ CutOff w.upstream)) (r : Resource) : r ∈ (∅ : Finset Resource) ↔ Left w r := by
  rw [leftExact]
  simp only [whole,known,answered,and_false,or_false,Finset.notMem_empty]

theorem answerEnds {w : World} {r : Received} {received acts : List (Act Resource)} {reached : Contact}
    (forwarded : Forwarded w) (known : w.resolved = true) (whole : ¬ CutOff w.request)
    (got : recvHeader .response w.upstream = some (r,received))
    (ran : (match r.header with
      | none => some (ProxyIteration.internal "The proxy encountered an error.\n",received ++ fail [.c])
      | some header => some (Contact.response header r.headerLength r.bodyLength r.socket false,received)) =
        some (reached,acts)) :
    ∃ after, Settles accepted acts after ∧ Ends w reached after := by
  have resolves : ¬ ((asked w).isSome = true ∧ w.allocated = true ∧ w.resolved = false) := by simp [known]
  obtain ⟨same,settled⟩ := headerSettles (Or.inr rfl) got
  have cut := cutOffExact same
  cases brought : r.header with
  | none =>
    rw [brought] at ran
    cases Option.some.inj ran
    by_cases none_ : r.headerLength = 0
    · rw [if_pos none_] at settled
      have closed : Settles accepted (fail [.c]) ∅ := by decide
      exact ⟨∅,settlesAppend settled closed,nothingLeft whole resolves fun both => (cut.mp both.2).2 none_⟩
    · rw [if_neg none_] at settled
      have closed : Settles (insert .response accepted) (fail [.c]) {.response} := by decide
      refine ⟨{.response},settlesAppend settled closed,fun r => ?_⟩
      rw [leftResponse whole known,Finset.mem_singleton]
      exact ⟨fun here => ⟨here,forwarded,cut.mpr ⟨brought,none_⟩⟩,And.left⟩
  | some header =>
    rw [brought] at ran
    cases Option.some.inj ran
    obtain ⟨size,some_⟩ := ProxyIteration.headerLoopSize same brought
    have length : r.headerLength ≠ 0 := by
      rw [size]
      exact fun none_ => some_ (List.length_eq_zero_iff.mp (Int.natCast_eq_zero.mp none_))
    rw [if_neg length] at settled
    refine ⟨_,settled,rfl,fun r left => ?_⟩
    have lost := ((leftResponse whole known).mp left).2.2
    rw [(cut.mp lost).1] at brought
    cases brought

theorem serverEnds {host : List UInt8} {reached : Contact} {acts : List (Act Resource)}
    (asks : asked w = some header) (named : Header.getHeaderField header (ascii "\nHost") = some (some host))
    (allocated : w.allocated = true) (known : w.resolved = true) (unshared : w.shared = none)
    (whole : ¬ CutOff w.request) (ran : contactServer w header = some (reached,acts)) :
    ∃ after, Settles (insert .header accepted) acts after ∧ Ends w reached after := by
  have resolves : ¬ ((asked w).isSome = true ∧ w.allocated = true ∧ w.resolved = false) := by simp [known]
  unfold contactServer at ran
  by_cases socket : w.socket = true
  case neg =>
    rw [if_pos socket] at ran
    cases Option.some.inj ran
    refine ⟨∅,by decide,nothingLeft whole resolves ?_⟩
    rintro ⟨⟨_,_,_,_,_,_,_,opened,_⟩,_⟩
    exact socket opened
  rw [if_neg (not_not.mpr socket)] at ran
  by_cases connect : w.connect = true
  case neg =>
    rw [if_pos connect] at ran
    cases Option.some.inj ran
    refine ⟨∅,by decide,nothingLeft whole resolves ?_⟩
    rintro ⟨⟨_,_,_,_,_,_,_,_,connected,_⟩,_⟩
    exact connect connected
  rw [if_neg (not_not.mpr connect)] at ran
  obtain ⟨⟨newHeader,stripped⟩,strip,ran⟩ := Option.bind_eq_some_iff.mp ran
  obtain ⟨tHeader,rfl,found,renewed⟩ :=
    @stripSettles (insert .header accepted) header host newHeader stripped named (by decide) strip
  obtain ⟨sent,sending,ran⟩ := Option.bind_eq_some_iff.mp ran
  have freed : Settles (insert .tHeader (insert .header accepted)) [.release .header,.use .tHeader]
      (insert .tHeader accepted) := by decide
  have renamed := settlesAppend renewed freed
  by_cases failed : sent.returned < 0
  case pos =>
    rw [if_pos failed] at ran
    cases Option.some.inj ran
    have closed : Settles (insert .tHeader accepted) (fail [.c,.tHeader]) ∅ := by decide
    refine ⟨∅,settlesAppend renamed closed,nothingLeft whole resolves ?_⟩
    rintro ⟨⟨header',tHeader',sent',asks',_,_,_,_,_,found',sending',took⟩,_⟩
    cases Option.some.inj (asks.symm.trans asks')
    cases Option.some.inj (Option.some.inj (found.symm.trans found'))
    cases Option.some.inj (sending.symm.trans sending')
    omega
  rw [if_neg failed] at ran
  have forwarded : Forwarded w :=
    ⟨header,tHeader,sent,asks,allocated,known,unshared,socket,connect,found,sending,by omega⟩
  obtain ⟨⟨r,received⟩,got,ran⟩ := Option.bind_eq_some_iff.mp ran
  have dropped : Settles (insert .tHeader accepted) [.release .tHeader] accepted := by decide
  have before := settlesAppend renamed dropped
  dsimp only at ran
  cases brought : r.header with
  | none =>
    rw [brought] at ran
    cases Option.some.inj ran
    obtain ⟨after,behind,ends⟩ := answerEnds forwarded known whole got (by rw [brought])
    exact ⟨after,by simpa using settlesAppend before behind,ends⟩
  | some header =>
    rw [brought] at ran
    cases Option.some.inj ran
    obtain ⟨after,behind,ends⟩ := answerEnds forwarded known whole got (by rw [brought])
    exact ⟨after,settlesAppend before behind,ends⟩

theorem hostEnds {v : Visit} {host : List UInt8} {reached : Contact} {acts : List (Act Resource)}
    (asks : asked v.world = some header) (named : Header.getHeaderField header (ascii "\nHost") = some (some host))
    (allocated : v.world.allocated = true) (whole : ¬ CutOff v.world.request)
    (ran : contactHost v header = some (reached,acts)) :
    ∃ after, Settles looking acts after ∧ Ends v.world reached after := by
  unfold contactHost at ran
  by_cases known : v.world.resolved = true
  case neg =>
    rw [if_pos known] at ran
    cases Option.some.inj ran
    refine ⟨{.he},by decide,fun r => ?_⟩
    have unsent : ¬ Forwarded v.world := by
      rintro ⟨_,_,_,_,_,resolved,_⟩
      exact known resolved
    rw [leftExact,Finset.mem_singleton]
    simp [whole,unsent,asks,allocated,known]
  rw [if_neg (not_not.mpr known)] at ran
  have resolves : ¬ ((asked v.world).isSome = true ∧ v.world.allocated = true ∧ v.world.resolved = false) := by
    simp [known]
  obtain ⟨⟨shared,tried⟩,proxy,ran⟩ := Option.bind_eq_some_iff.mp ran
  have settled := sharedSettles named proxy
  have takes := (sharedSame proxy).1
  cases shared with
  | some responses =>
    cases Option.some.inj ran
    have freed : Settles (looking.erase .header) [.release .uriServer,.release .fullServer,.release .he]
        accepted := by decide
    have closed : Settles accepted [.release .conn,.release .c] ∅ := by decide
    refine ⟨∅,settlesAppend (settlesAppend settled freed) closed,nothingLeft whole resolves ?_⟩
    rintro ⟨⟨_,_,_,_,_,_,unshared,_⟩,_⟩
    rw [← takes] at unshared
    cases unshared
  | none =>
    obtain ⟨⟨reached',acts'⟩,server,last⟩ := Option.bind_eq_some_iff.mp ran
    cases Option.some.inj last
    have freed : Settles looking [.release .uriServer,.release .fullServer,.release .he]
        (insert .header accepted) := by decide
    obtain ⟨after,behind,ends⟩ := serverEnds asks named allocated known takes.symm whole server
    exact ⟨after,settlesAppend (settlesAppend settled freed) behind,ends⟩

theorem askedRead {w : World} {request : Received} {found : Option (List UInt8)}
    (read : Header.recvHeader w.request = some request) (brought : request.header = some header)
    (named : Header.getHeaderField header (ascii "\nHost") = some found) :
    asked w = if found.isSome then some header else none := by
  rw [asked,read,Option.bind_eq_bind,Option.bind_some,brought,Option.bind_eq_bind,Option.bind_some,named,
    Option.join_some]

theorem unreadEnds {w : World} {request : Received} {received : List (Act Resource)}
    (got : recvHeader .header w.request = some (request,received)) (brought : request.header = none) :
    ∃ after, Settles accepted (received ++ fail [.c]) after ∧ ∀ r, r ∈ after ↔ Left w r := by
  obtain ⟨same,settled⟩ := headerSettles (Or.inl rfl) got
  have cut := cutOffExact same
  have silent : asked w = none := by
    rw [asked,same,Option.bind_eq_bind,Option.bind_some,brought]
    rfl
  have unsent : ¬ Forwarded w := by
    rintro ⟨_,_,_,asks,_⟩
    rw [silent] at asks
    cases asks
  by_cases none_ : request.headerLength = 0
  · rw [if_pos none_] at settled
    have closed : Settles accepted (fail [.c]) ∅ := by decide
    refine ⟨∅,settlesAppend settled closed,nothingLeft (fun lost => (cut.mp lost).2 none_) ?_ ?_⟩
    · simp [silent]
    · exact fun both => unsent both.1
  · rw [if_neg none_] at settled
    have closed : Settles (insert .header accepted) (fail [.c]) {.header} := by decide
    refine ⟨{.header},settlesAppend settled closed,fun r => ?_⟩
    rw [leftExact,Finset.mem_singleton]
    simp [cut,brought,none_,silent,unsent]

theorem contactEnds {v : Visit} {reached : Contact} {acts : List (Act Resource)}
    (ran : contact v = some (reached,acts)) : ∃ after, Settles accepted acts after ∧ Ends v.world reached after := by
  simp only [contact,bind] at ran
  obtain ⟨⟨request,received⟩,got,ran⟩ := Option.bind_eq_some_iff.mp ran
  dsimp only at ran
  cases brought : request.header with
  | none =>
    rw [brought] at ran
    cases Option.some.inj ran
    exact unreadEnds got brought
  | some header =>
    rw [brought] at ran
    dsimp only at ran
    obtain ⟨same,settled⟩ := headerSettles (Or.inl rfl) got
    have cut := cutOffExact same
    obtain ⟨size,some_⟩ := ProxyIteration.headerLoopSize same brought
    have length : request.headerLength ≠ 0 := by
      rw [size]
      exact fun none_ => some_ (List.length_eq_zero_iff.mp (Int.natCast_eq_zero.mp none_))
    have whole : ¬ CutOff v.world.request := fun lost => by
      rw [(cut.mp lost).1] at brought
      cases brought
    rw [if_neg length] at settled
    obtain ⟨compression,_,ran⟩ := Option.bind_eq_some_iff.mp ran
    split at ran
    · cases ran
    obtain ⟨fullServer,named,ran⟩ := Option.bind_eq_some_iff.mp ran
    have shown : Settles (insert .header accepted) (if v.world.compress then isJPG header else [])
        (insert .header accepted) := by
      split
      · exact isJPGSettles (by decide) (by decide)
      · exact settlesNil
    have field := @fieldSettles (insert .header accepted) .fullServer header (ascii "\nHost")
      (by decide) (by decide) (by decide)
    have looked := settlesAppend (settlesAppend settled shown) field
    rw [named] at looked
    cases fullServer with
    | none =>
      cases Option.some.inj ran
      have silent : asked v.world = none := askedRead same brought named
      have closed : Settles (insert .header accepted) (fail [.header,.c]) ∅ := by decide
      refine ⟨∅,settlesAppend looked closed,nothingLeft whole (by simp [silent]) ?_⟩
      rintro ⟨⟨_,_,_,asks,_⟩,_⟩
      rw [silent] at asks
      cases asks
    | some host =>
      have asks : asked v.world = some header := askedRead same brought named
      have split_ : Settles (insert .fullServer (insert .header accepted)) [.use .fullServer,.acquire .uriServer]
          (looking.erase .he) := by decide
      have chopped := settlesAppend looked split_
      by_cases allocated : v.world.allocated = true
      · obtain ⟨⟨reached',acts'⟩,contacted,last⟩ := Option.bind_eq_some_iff.mp
          ((if_neg (not_not.mpr allocated)).symm.trans ran)
        cases Option.some.inj last
        obtain ⟨after,behind,ends⟩ := hostEnds asks named allocated whole contacted
        have entity : Settles (looking.erase .he) [.acquire .he] looking := by decide
        exact ⟨after,settlesAppend (settlesAppend chopped entity) behind,ends⟩
      · cases Option.some.inj ((if_pos allocated).symm.trans ran)
        have closed : Settles (looking.erase .he) (fail [.c,.uriServer,.fullServer,.header]) ∅ := by decide
        refine ⟨∅,settlesAppend chopped closed,nothingLeft whole ?_ ?_⟩
        · exact fun both => allocated both.2.1
        · rintro ⟨⟨_,_,_,_,memory,_⟩,_⟩
          exact allocated memory

theorem visitEnds {v : Visit} {acts : List (Act Resource)} (ran : handleClient v = some acts) :
    ∃ after, Settles ∅ acts after ∧ ∀ r, r ∈ after ↔ Left v.world r := by
  obtain ⟨⟨reached,contacted⟩,met,ran⟩ := Option.bind_eq_some_iff.mp ran
  have taken : Settles ∅ [Act.acquire Resource.c,.acquire .conn] accepted := by decide
  obtain ⟨after,behind,ends⟩ := contactEnds met
  have before := settlesAppend taken behind
  cases reached with
  | error status title text =>
    cases Option.some.inj ran
    exact ⟨after,before,ends⟩
  | shared responses compression =>
    obtain ⟨r,_,last⟩ := Option.bind_eq_some_iff.mp ran
    split at last
    · cases Option.some.inj last
      exact ⟨after,before,ends⟩
    · cases last
  | response header n bodyLength upstream compression =>
    obtain ⟨rfl,kept⟩ := ends
    obtain ⟨r,_,last⟩ := Option.bind_eq_some_iff.mp ran
    cases Option.some.inj last
    have used : Settles (insert .response accepted) [.use .response] (insert .response accepted) := by decide
    have closed : Settles (insert .response accepted) (if r.returned < 0 then fail [.c,.response]
        else [.use .conn,.release .conn,.release .c,.release .response]) ∅ := by
      split <;> decide
    refine ⟨∅,settlesAppend (settlesAppend before used) closed,fun r => ?_⟩
    simp only [Finset.notMem_empty,kept r]

def Lost (node : Node) (r : Resource) : Prop := ∃ v, node = .process v ∧ Left v.world r

theorem turnEnds {node : Node} {acts : List (Act Resource)} (ran : turn node = some acts) :
    ∃ after, Settles ∅ acts after ∧ ∀ r, r ∈ after ↔ Lost node r := by
  cases node with
  | process v =>
    obtain ⟨after,settled,lost⟩ := visitEnds ran
    refine ⟨after,settled,fun r => (lost r).trans ⟨fun left => ⟨v,rfl,left⟩,?_⟩⟩
    rintro ⟨_,same,left⟩
    cases same
    exact left
  | terminate =>
    cases Option.some.inj ran
    refine ⟨∅,by decide,fun r => iff_of_false (Finset.notMem_empty r) ?_⟩
    rintro ⟨_,same,_⟩
    cases same

theorem turnsLater {k t : Nat} {nodes : List Node} {trace : List (Nat × Act Resource)}
    (ran : turns k nodes = some trace) (earlier : t < k) : mine t trace = [] := by
  induction nodes generalizing k trace with
  | nil => cases Option.some.inj ran; rfl
  | cons node nodes ih =>
    simp only [turns,bind,Option.bind_eq_some_iff] at ran
    obtain ⟨acts,_,rest,later,last⟩ := ran
    cases Option.some.inj last
    rw [mineAppend,mineMap,if_neg (Nat.ne_of_gt earlier),ih later (Nat.lt_succ_of_lt earlier)]
    rfl

theorem turnsEnd {k : Nat} {nodes : List Node} {trace : List (Nat × Act Resource)}
    (ran : turns k nodes = some trace) (t : Nat) : ∃ after, Settles ∅ (mine t trace) after ∧
      ∀ r, r ∈ after ↔ ∃ i node, t = k + i ∧ nodes[i]? = some node ∧ Lost node r := by
  induction nodes generalizing k trace with
  | nil =>
    cases Option.some.inj ran
    exact ⟨∅,settlesNil,by simp⟩
  | cons node nodes ih =>
    simp only [turns,bind,Option.bind_eq_some_iff] at ran
    obtain ⟨acts,here,rest,later,last⟩ := ran
    cases Option.some.inj last
    rw [mineAppend,mineMap]
    by_cases same : k = t
    · subst same
      rw [if_pos rfl,turnsLater later (Nat.lt_succ_self k),List.append_nil]
      obtain ⟨after,settled,lost⟩ := turnEnds here
      refine ⟨after,settled,fun r => (lost r).trans ⟨fun gone => ⟨0,node,rfl,rfl,gone⟩,?_⟩⟩
      rintro ⟨i,other,place,at_,gone⟩
      obtain rfl : i = 0 := by omega
      cases Option.some.inj at_
      exact gone
    · rw [if_neg same,List.nil_append]
      obtain ⟨after,settled,lost⟩ := ih later
      refine ⟨after,settled,fun r => (lost r).trans ⟨?_,?_⟩⟩
      · rintro ⟨i,other,place,at_,gone⟩
        exact ⟨i + 1,other,by omega,at_,gone⟩
      · rintro ⟨_ | i,other,place,at_,gone⟩
        · exact absurd place.symm same
        · exact ⟨i,other,by omega,at_,gone⟩

theorem turnsServed {k : Nat} {nodes : List Node} {trace : List (Nat × Act Resource)} {v : Visit}
    (ran : turns k nodes = some trace) (mem : .process v ∈ nodes) :
    (contact v).map Prod.fst = ProxyIteration.contact v.world := by
  induction nodes generalizing k trace with
  | nil => cases mem
  | cons node nodes ih =>
    simp only [turns,bind,Option.bind_eq_some_iff] at ran
    obtain ⟨acts,here,rest,later,_⟩ := ran
    rcases List.mem_cons.mp mem with rfl | mem
    · obtain ⟨⟨reached,contacted⟩,met,_⟩ := Option.bind_eq_some_iff.mp here
      rw [met,contactSame met]
      rfl
    · exact ih later mem

end

end

def someNodes : Nat → List Node
  | 0 => [.process ⟨{ProxyIteration.cutOff with request := ⟨ascii "GE",[.upTo 0,.upTo 0,.error]⟩},false⟩,
      .process ⟨{ProxyIteration.cutOff with resolved := false},false⟩,.terminate]
  | 1 => [.process ⟨ProxyIteration.cutOff,true⟩]
  | _ => []

end IttyBittyServer.ProxyResources
