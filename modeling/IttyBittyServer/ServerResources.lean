import IttyBittyServer.Exchange
import IttyBittyServer.FileService
import IttyBittyServer.Ledger

/-! What the server's threads allocate, open, map and lock for a request, and that they give
it back. An allocation does not fail, and munmap takes what mmap gave. -/
namespace IttyBittyServer.ServerResources
open Text Sockets Run Ledger
open CheckAndSend (sscanf fileName strDecode forbidden contentType)
open Response (snprintf responseHeader errorPage)
open Answers (Files Conn Effect listing listingHead listingFoot)
open RequestMemory (Delivery)
open FileService (TokensFit)

/- The list's node and its socket are the worker's from removeHead on. `request` and `total` are
the buffers of receiveShared and sendShared, `entry k` is what `dl[k]` points to. -/
inductive Resource where
  | c | conn | mutex | request | filedesc | mapping | dl | entry (k : Nat) | contents | link | total
  deriving DecidableEq, Repr

inductive Event where
  | act (a : Act Resource)
  | effect (e : Effect)
  deriving DecidableEq, Repr

def did (acts : List (Act Resource)) : List Event := acts.map .act

def Event.acts : Event → List (Act Resource)
  | .act a => [a]
  | .effect .unlock => [.release .mutex]
  | .effect (.response ..) => []

def Event.effects : Event → List Effect
  | .act _ => []
  | .effect e => [e]

def acts (trace : List Event) : List (Act Resource) := trace.flatMap Event.acts

def effects (trace : List Event) : List Effect := trace.flatMap Event.effects

/- `source` is where the body lies, if not on the stack. Behind every chunk the server waits,
and it has the mutex back when it goes on. -/
def sendShared (source : Option Resource) (length : Nat) : List (Act Resource) :=
  .acquire .total::(source.toList.map .use ++
    (List.replicate (Exchange.chunks length) [.use .total,.use .mutex]).flatten ++ [.release .total])

def sendResponse (status : Int) (title : List UInt8) (headers : Option (List UInt8)) (mime : List UInt8)
    (length : Int) (body : List UInt8) (source : Option Resource) (shared : Bool) : List Event :=
  let header := snprintf 9999 (responseHeader status title headers mime length)
  .effect (.response status title headers mime length body)::
    if shared then did (sendShared source (header.length + length).toNat) ++ [.effect .unlock]
    else did (.use .conn::source.toList.map .use)

def sendError (status : Int) (title : List UInt8) (headers : Option (List UInt8))
    (text : List UInt8) (shared : Bool) : List Event :=
  let buf := errorPage status title text
  sendResponse status title headers (ascii "text/html") (int buf.length) buf none shared

/- What cannot be mapped is closed here. -/
def fileContents (files : Files) (file : List UInt8) (size : Nat) : Option (List UInt8) × List (Act Resource) :=
  if files.opens file then
    match files.mmap file size with
    | none => (none,[.release .filedesc])
    | some retVal => (some retVal,[.acquire .mapping])
  else (none,[])

def sendFile (files : Files) (file : List UInt8) (size : Nat) (shared : Bool) : List Event :=
  let opened := if files.opens file then [.acquire .filedesc] else []
  match fileContents files file size with
  | (none,mapped) => did (opened ++ mapped) ++
      sendError 403 (ascii "Forbidden") none (ascii "File is protected.\n") shared
  | (some contents,mapped) => did (opened ++ mapped) ++
      sendResponse 200 (ascii "OK") none (contentType file) size contents (some .mapping) shared ++
      did [.release .mapping,.release .filedesc]

/- `content` says whether there is a string to append to: its memory goes with realloc. -/
def appendStr (content : Bool) (toAdd : List UInt8) : List (Act Resource) :=
  if content then
    .acquire .link::.release .contents::.acquire .contents::
      ((if (strstr toAdd (ascii "Squinn!")).isSome then [] else [.use .link]) ++ [.release .link])
  else [.acquire .contents]

def listEntry (name : List UInt8) (k : Nat) : List (Act Resource) :=
  .use .contents::.use (.entry k)::(appendStr true name ++ [.use .contents,.release (.entry k)])

def listEntries (file : List UInt8) (dl : List (List UInt8)) : List (Act Resource) :=
  .acquire .dl::(dl.zipIdx.map fun entry => Resource.entry entry.2).map .acquire ++
    (appendStr false (listingHead file) ++ (dl.zipIdx.flatMap fun entry => listEntry entry.1 entry.2) ++
    appendStr true listingFoot)

def lookUp (files : Files) (path file : List UInt8) (shared : Bool) : List Event :=
  match files.stat file with
  | none => sendError 404 (ascii "Not Found") none (ascii "File not found.\n") shared
  | some sb =>
    if sb.isDir then
      if file.getLast? ≠ some 47 then
        let location := snprintf 9999 (ascii "Location: " ++ path ++ ascii "/\r\n")
        sendError 302 (ascii "Found") (some location) (ascii "Directories must end with a slash.\n") shared
      else
        let idx := snprintf 9999 (file ++ ascii "index.html")
        match files.stat idx with
        | some sb => sendFile files idx sb.size shared
        | none =>
          match files.scandir file with
          | none => sendError 500 (ascii "Internal Server Error") none
              (ascii "The server encountered an error.\n") shared
          | some dl =>
            let (contents,size) := listing file dl
            did (listEntries file dl) ++
              sendResponse 200 (ascii "OK") none (ascii "text/html") size contents (some .contents) shared ++
              did [.release .contents,.release .dl]
    else sendFile files file sb.size shared

def conn : Delivery → Conn
  | .socket stream answer => .connection (Delivery.socket stream answer).request
  | .shared chunks => .memnode chunks.flatten

def receive : Delivery → List (Act Resource)
  | .socket .. => [.use .conn]
  | .shared chunks =>
    (chunks.map fun _ => [Act.use Resource.mutex,.acquire .request,.use .request,.release .request]).flatten

def respond (files : Files) (before literal : List UInt8) (conn : Conn) : List Event :=
  match conn.line with
  | none => sendError 400 (ascii "Bad Request") none (ascii "No request found.\n") conn.shared
  | some line =>
    match sscanf (cstring line) with
    | none => sendError 400 (ascii "Bad Request") none (ascii "Can't parse request.\n") conn.shared
    | some (method,path,_) =>
      if ¬ strcasecmp method (ascii "get") then
        sendError 501 (ascii "Not Implemented") none (ascii "That method is not implemented.\n") conn.shared
      else if path.head? ≠ some 47 then
        sendError 400 (ascii "Bad Request") none (ascii "Bad filename.\n") conn.shared
      else
        let file := fileName path
        let front := if cstring (strDecode path.tail) = [] then literal else before ++ [47]
        if forbidden front file then
          sendError 400 (ascii "Bad Request") none (ascii "Illegal filename.\n") conn.shared
        else lookUp files (47::cstring (strDecode path.tail)) file conn.shared

def checkAndSend (files : Files) (before literal : List UInt8) (d : Delivery) : Option (List Event) :=
  if TokensFit (conn d) ∧ ∀ request ∈ d.request, request.length ≤ 19999 then
    some (did (receive d) ++ respond files before literal (conn d))
  else none

inductive Action where
  | serve (d : Delivery)
  | terminate
  deriving DecidableEq, Repr

structure Turn where
  files : Files
  before : List UInt8
  literal : List UInt8
  action : Action

def handleClient : List Turn → Option (List Event)
  | [] => some []
  | turn::turns =>
    match turn.action with
    | .terminate => some (did [.acquire .c,.release .c])
    | .serve (.shared chunks) => do
      let sent ← checkAndSend turn.files turn.before turn.literal (.shared chunks)
      let rest ← handleClient turns
      some (did [.acquire .c,.acquire .mutex] ++ sent ++ did [.release .c] ++ rest)
    | .serve (.socket stream answer) => do
      let sent ← checkAndSend turn.files turn.before turn.literal (.socket stream answer)
      let rest ← handleClient turns
      some (did [.acquire .c,.acquire .conn] ++ sent ++ did [.release .conn,.release .c] ++ rest)

def answers : List Turn → List Effect
  | [] => []
  | turn::turns =>
    match turn.action with
    | .terminate => []
    | .serve d => Answers.checkAndSend turn.files turn.before turn.literal (conn d) ++ answers turns

section
variable {held after : Finset Resource} {shared : Bool} {source : Option Resource}

@[simp]
theorem actsAppend (xs ys : List Event) : acts (xs ++ ys) = acts xs ++ acts ys := List.flatMap_append

@[simp]
theorem effectsAppend (xs ys : List Event) : effects (xs ++ ys) = effects xs ++ effects ys := List.flatMap_append

@[simp]
theorem actsDid (as : List (Act Resource)) : acts (did as) = as := by
  induction as with
  | nil => rfl
  | cons a as ih => exact congrArg (a::·) ih

@[simp]
theorem effectsDid (as : List (Act Resource)) : effects (did as) = [] := by
  induction as with
  | nil => rfl
  | cons a as ih => exact ih

theorem responseEffects (status : Int) (title : List UInt8) (headers : Option (List UInt8)) (mime : List UInt8)
    (length : Int) (body : List UInt8) : effects (sendResponse status title headers mime length body source shared) =
      Answers.sendResponse status title headers mime length body shared := by
  cases shared with
  | false => exact congrArg (_::·) (effectsDid _)
  | true =>
    refine congrArg (_::·) ((effectsAppend _ _).trans ?_)
    rw [effectsDid]
    rfl

theorem errorEffects (status : Int) (title : List UInt8) (headers : Option (List UInt8)) (text : List UInt8) :
    effects (sendError status title headers text shared) = Answers.sendError status title headers text shared :=
  responseEffects _ _ _ _ _ _

theorem fileEffects (files : Files) (file : List UInt8) (size : Nat) :
    effects (sendFile files file size shared) = Answers.sendFile files file size shared := by
  unfold sendFile Answers.sendFile fileContents Answers.fileContents
  by_cases opened : files.opens file = true
  · simp only [if_pos opened]
    cases files.mmap file size with
    | none => simp only [effectsAppend,effectsDid,errorEffects,List.nil_append]
    | some contents => simp only [effectsAppend,effectsDid,responseEffects,List.nil_append,List.append_nil]
  · simp only [if_neg opened]
    simp only [effectsAppend,effectsDid,errorEffects,List.nil_append]

theorem lookUpEffects (files : Files) (path file : List UInt8) :
    effects (lookUp files path file shared) = Answers.lookUp files path file shared := by
  unfold lookUp Answers.lookUp
  cases files.stat file with
  | none => exact errorEffects _ _ _ _
  | some sb =>
    dsimp only
    split
    · split
      · exact errorEffects _ _ _ _
      · cases files.stat (snprintf 9999 (file ++ ascii "index.html")) with
        | some sb => exact fileEffects _ _ _
        | none =>
          cases files.scandir file with
          | none => exact errorEffects _ _ _ _
          | some dl =>
            simp only [effectsAppend,effectsDid,responseEffects,List.nil_append,List.append_nil]
    · exact fileEffects _ _ _

theorem respondEffects (files : Files) (before literal : List UInt8) (conn : Conn) :
    effects (respond files before literal conn) = Answers.checkAndSend files before literal conn := by
  unfold respond Answers.checkAndSend
  cases conn.line with
  | none => exact errorEffects _ _ _ _
  | some line =>
    dsimp only
    cases sscanf (cstring line) with
    | none => exact errorEffects _ _ _ _
    | some tokens =>
      dsimp only
      split
      · exact errorEffects _ _ _ _
      · split
        · exact errorEffects _ _ _ _
        · generalize (if cstring (strDecode tokens.2.1.tail) = [] then literal else before ++ [47]) = front
          split
          · exact errorEffects _ _ _ _
          · exact lookUpEffects _ _ _

theorem usesSettle (reads : ∀ r ∈ source, r ∈ held) : Settles held (source.toList.map .use) held := by
  cases source with
  | none => exact settlesNil
  | some r => exact settlesUse (reads r rfl) settlesNil

theorem sharedSettles (reads : ∀ r ∈ source, r ∈ held) (locked : .mutex ∈ held) (free : .total ∉ held)
    (length : Nat) : Settles held (sendShared source length) held := by
  have chunk : ∀ acts ∈ List.replicate (Exchange.chunks length) [Act.use Resource.total,.use .mutex],
      Settles (insert .total held) acts (insert .total held) := by
    intro acts mem
    rw [List.eq_of_mem_replicate mem]
    exact settlesUse (Finset.mem_insert_self _ _) (settlesUse (Finset.mem_insert_of_mem locked) settlesNil)
  refine settlesWith free (settlesAppend (usesSettle fun r mem => ?_) (settlesRounds chunk)) free
  exact Finset.mem_insert_of_mem (reads r mem)

def opened (shared : Bool) : Finset Resource := if shared then {.c,.mutex} else {.c,.conn}

def left (shared : Bool) : Finset Resource := if shared then {.c} else {.c,.conn}

theorem responseSettles {beside : Finset Resource} (apart : ∀ r ∈ beside, r ≠ .mutex ∧ r ≠ .total)
    (reads : ∀ r ∈ source, r ∈ beside) (status : Int) (title : List UInt8) (headers : Option (List UInt8))
    (mime : List UInt8) (length : Int) (body : List UInt8) :
    Settles (opened shared ∪ beside) (acts (sendResponse status title headers mime length body source shared))
      (left shared ∪ beside) := by
  have here : ∀ r ∈ source, r ∈ opened shared ∪ beside := fun r mem => Finset.mem_union_right _ (reads r mem)
  cases shared with
  | false =>
    have sent : acts (sendResponse status title headers mime length body source false) =
        .use .conn::source.toList.map .use := actsDid _
    rw [sent]
    exact settlesUse (Finset.mem_union_left _ (by decide)) (usesSettle here)
  | true =>
    have sent : acts (sendResponse status title headers mime length body source true) =
        sendShared source ((snprintf 9999 (responseHeader status title headers mime length)).length + length).toNat ++
          [.release .mutex] := (actsAppend _ _).trans (congrArg (· ++ _) (actsDid _))
    have locked : .mutex ∈ opened true ∪ beside := Finset.mem_union_left _ (by decide)
    have free : .total ∉ opened true ∪ beside := by
      intro mem
      rcases Finset.mem_union.mp mem with mem | mem
      · exact absurd mem (by decide)
      · exact (apart _ mem).2 rfl
    have unlocked : (opened true ∪ beside).erase .mutex = left true ∪ beside := by
      have away : Resource.mutex ∉ beside := fun mem => (apart _ mem).1 rfl
      rw [Finset.erase_union_distrib,Finset.erase_eq_of_notMem away]
      rfl
    rw [sent]
    refine settlesAppend (sharedSettles here locked free _) (settlesRelease locked ?_)
    rw [unlocked]
    exact settlesNil

theorem errorSettles (status : Int) (title : List UInt8) (headers : Option (List UInt8)) (text : List UInt8) :
    Settles (opened shared) (acts (sendError status title headers text shared)) (left shared) := by
  have sent := @responseSettles shared none ∅ (by simp) (by simp) status title headers (ascii "text/html")
    (int (errorPage status title text).length) (errorPage status title text)
  rwa [Finset.union_empty,Finset.union_empty] at sent

theorem fileSettles (files : Files) (file : List UInt8) (size : Nat) :
    Settles (opened shared) (acts (sendFile files file size shared)) (left shared) := by
  have fresh : .filedesc ∉ opened shared ∧ .mapping ∉ insert .filedesc (opened shared) := by cases shared <;> decide
  unfold sendFile fileContents
  by_cases open_ : files.opens file = true
  · simp only [if_pos open_]
    cases files.mmap file size with
    | none =>
      rw [actsAppend,actsDid]
      refine settlesAppend ?_ (errorSettles _ _ _ _)
      refine settlesAcquire fresh.1 (settlesRelease (Finset.mem_insert_self _ _) ?_)
      rw [Finset.erase_insert fresh.1]
      exact settlesNil
    | some contents =>
      have sent := @responseSettles shared (some .mapping) {.mapping,.filedesc} (by decide)
        (by simp) 200 (ascii "OK") none (contentType file) size contents
      have given : opened shared ∪ {.mapping,.filedesc} = insert .mapping (insert .filedesc (opened shared)) := by
        cases shared <;> decide
      have back : ((left shared ∪ {.mapping,.filedesc}).erase .mapping).erase .filedesc = left shared := by
        cases shared <;> decide
      have there : Resource.mapping ∈ left shared ∪ {.mapping,.filedesc} ∧
          .filedesc ∈ (left shared ∪ {.mapping,.filedesc}).erase .mapping := by
        cases shared <;> decide
      rw [actsAppend,actsAppend,actsDid,actsDid]
      rw [given] at sent
      refine settlesAppend (settlesAppend ?_ sent) (settlesRelease there.1 (settlesRelease there.2 ?_))
      · exact settlesAcquire fresh.1 (settlesAcquire fresh.2 settlesNil)
      · rw [back]
        exact settlesNil
  · simp only [if_neg open_,List.append_nil,actsAppend,actsDid,List.nil_append]
    exact errorSettles _ _ _ _

theorem appendSettles (some_ : .contents ∈ held) (free : .link ∉ held) (toAdd : List UInt8) :
    Settles held (appendStr true toAdd) held := by
  have same : insert .contents ((insert .link held).erase .contents) = insert .link held :=
    Finset.insert_erase (Finset.mem_insert_of_mem some_)
  refine settlesAcquire free (settlesRelease (Finset.mem_insert_of_mem some_) ?_)
  refine settlesAcquire (Finset.notMem_erase _ _) ?_
  rw [same]
  have linked : Settles (insert .link held) (if (strstr toAdd (ascii "Squinn!")).isSome then [] else [.use .link])
      (insert .link held) := by
    split
    · exact settlesNil
    · exact settlesUse (Finset.mem_insert_self _ _) settlesNil
  refine settlesAppend linked (settlesRelease (Finset.mem_insert_self _ _) ?_)
  rw [Finset.erase_insert free]
  exact settlesNil

theorem entrySettles {k : Nat} (some_ : .contents ∈ held) (free : .link ∉ held) (fresh : .entry k ∉ held)
    (name : List UInt8) : Settles (insert (.entry k) held) (listEntry name k) held := by
  have here : Resource.contents ∈ insert (.entry k) held := Finset.mem_insert_of_mem some_
  have noLink : Resource.link ∉ insert (.entry k) held := by
    simp [free]
  refine settlesUse here (settlesUse (Finset.mem_insert_self _ _) (settlesAppend (appendSettles here noLink name) ?_))
  refine settlesUse here (settlesRelease (Finset.mem_insert_self _ _) ?_)
  rw [Finset.erase_insert fresh]
  exact settlesNil

theorem entriesNodup (dl : List (List UInt8)) : (dl.zipIdx.map fun entry => Resource.entry entry.2).Nodup := by
  have places : (dl.zipIdx.map Prod.snd).Nodup := by
    rw [List.zipIdx_map_snd]
    exact List.nodup_range'
  have each := places.map (f := Resource.entry) fun _ _ same => by injection same
  rwa [List.map_map] at each

theorem listingSettles (file : List UInt8) (dl : List (List UInt8)) :
    Settles (opened shared) (acts (did (listEntries file dl))) (opened shared ∪ {.contents,.dl}) := by
  generalize kept : opened shared ∪ {.contents,.dl} = after
  have before : insert .contents (insert .dl (opened shared)) = after := by
    rw [← kept]
    cases shared <;> decide
  have free : .dl ∉ opened shared ∧ .contents ∉ insert .dl (opened shared) ∧ .contents ∈ after ∧ .link ∉ after := by
    rw [← kept]
    cases shared <;> decide
  have noEntry : ∀ k, Resource.entry k ∉ insert .dl (opened shared) ∧ .entry k ∉ after := by
    intro k
    rw [← kept]
    cases shared <;> simp [opened]
  obtain ⟨unlisted,unwritten,written,unlinked⟩ := free
  have all := entriesNodup dl
  have given := @settlesAcquireAll _ _ (insert .dl (opened shared)) _ all fun r mem inside => by
    obtain ⟨entry,_,rfl⟩ := List.mem_map.mp mem
    exact (noEntry _).1 inside
  have loop := @settlesDrain _ _ after _ (fun entry : List UInt8 × Nat => Resource.entry entry.2)
    (fun entry => listEntry entry.1 entry.2) dl.zipIdx fun entry rest suffix => by
      have alone := (List.nodup_cons.mp (all.sublist (suffix.sublist.map _))).1
      refine entrySettles (Finset.mem_union_left _ written) ?_ ?_ entry.1
      · simp [unlinked]
      · rw [Finset.mem_union,List.mem_toFinset]
        exact fun both => both.elim (noEntry _).2 alone
  rw [actsDid,listEntries]
  refine settlesAcquire unlisted (settlesAppend given ?_)
  have fresh : .contents ∉ insert .dl (opened shared) ∪
      (dl.zipIdx.map fun entry => Resource.entry entry.2).toFinset := by
    rw [Finset.mem_union,List.mem_toFinset]
    rintro (listed | named)
    · exact unwritten listed
    · obtain ⟨_,_,same⟩ := List.mem_map.mp named
      cases same
  refine settlesAppend (settlesAppend (settlesAcquire fresh settlesNil) ?_) (appendSettles written unlinked _)
  rwa [← Finset.insert_union,before]

theorem lookUpSettles (files : Files) (path file : List UInt8) :
    Settles (opened shared) (acts (lookUp files path file shared)) (left shared) := by
  unfold lookUp
  cases files.stat file with
  | none => exact errorSettles _ _ _ _
  | some sb =>
    dsimp only
    split
    · split
      · exact errorSettles _ _ _ _
      · cases files.stat (snprintf 9999 (file ++ ascii "index.html")) with
        | some sb => exact fileSettles _ _ _
        | none =>
          cases files.scandir file with
          | none => exact errorSettles _ _ _ _
          | some dl =>
            have sent := @responseSettles shared (some .contents) {.contents,.dl} (by decide) (by simp)
              200 (ascii "OK") none (ascii "text/html") (listing file dl).2 (listing file dl).1
            have there : Resource.contents ∈ left shared ∪ {.contents,.dl} ∧
                .dl ∈ (left shared ∪ {.contents,.dl}).erase .contents ∧
                ((left shared ∪ {.contents,.dl}).erase .contents).erase .dl = left shared := by
              cases shared <;> decide
            rw [actsAppend,actsAppend]
            refine settlesAppend (settlesAppend (listingSettles file dl) sent) ?_
            rw [actsDid]
            refine settlesRelease there.1 (settlesRelease there.2.1 ?_)
            rw [there.2.2]
            exact settlesNil
    · exact fileSettles _ _ _

theorem respondSettles (files : Files) (before literal : List UInt8) (conn : Conn) :
    Settles (opened conn.shared) (acts (respond files before literal conn)) (left conn.shared) := by
  unfold respond
  cases conn.line with
  | none => exact errorSettles _ _ _ _
  | some line =>
    dsimp only
    cases sscanf (cstring line) with
    | none => exact errorSettles _ _ _ _
    | some tokens =>
      dsimp only
      split
      · exact errorSettles _ _ _ _
      · split
        · exact errorSettles _ _ _ _
        · generalize (if cstring (strDecode tokens.2.1.tail) = [] then literal else before ++ [47]) = front
          split
          · exact errorSettles _ _ _ _
          · exact lookUpSettles _ _ _

theorem receiveSettles (d : Delivery) : Settles (opened (conn d).shared) (receive d) (opened (conn d).shared) := by
  cases d with
  | socket stream answer =>
    have here : Resource.conn ∈ opened false := by decide
    exact settlesUse here settlesNil
  | shared chunks =>
    refine settlesRounds fun acts mem => ?_
    obtain ⟨chunk,_,rfl⟩ := List.mem_map.mp mem
    rfl

theorem servedSettles {files : Files} {before literal : List UInt8} {d : Delivery} {trace : List Event}
    (ran : checkAndSend files before literal d = some trace) :
    Settles (opened (conn d).shared) (acts trace) (left (conn d).shared) ∧
      effects trace = Answers.checkAndSend files before literal (conn d) := by
  unfold checkAndSend at ran
  split at ran <;> try contradiction
  cases Option.some.inj ran
  constructor
  · rw [actsAppend,actsDid]
    exact settlesAppend (receiveSettles d) (respondSettles files before literal (conn d))
  · rw [effectsAppend,effectsDid,List.nil_append,respondEffects]

theorem roundSettles {d : Delivery} {effects' : List Effect} {first last : List (Act Resource)} {sent rest : List Event}
    (taken : Settles ∅ first (opened (conn d).shared)) (given : Settles (left (conn d).shared) last ∅)
    (served : Settles (opened (conn d).shared) (acts sent) (left (conn d).shared) ∧ effects sent = effects')
    (later : Settles ∅ (acts rest) ∅) : Settles ∅ (acts (did first ++ sent ++ did last ++ rest)) ∅ ∧
      effects (did first ++ sent ++ did last ++ rest) = effects' ++ effects rest := by
  simp only [actsAppend,actsDid,effectsAppend,effectsDid,List.nil_append,List.append_nil,served.2,and_true]
  exact settlesAppend (settlesAppend (settlesAppend taken served.1) given) later

theorem workerSettles {turns : List Turn} {trace : List Event} (ran : handleClient turns = some trace) :
    Settles ∅ (acts trace) ∅ ∧ effects trace = answers turns := by
  induction turns generalizing trace with
  | nil =>
    cases Option.some.inj ran
    exact ⟨settlesNil,rfl⟩
  | cons turn turns ih =>
    obtain ⟨files,before,literal,action⟩ := turn
    rcases action with (⟨stream,answer⟩ | chunks) | _
    · simp only [handleClient,bind,Option.bind_eq_some_iff] at ran
      obtain ⟨sent,served,rest,later,same⟩ := ran
      cases Option.some.inj same
      obtain ⟨kept,others⟩ := ih later
      have taken : Settles ∅ [.acquire .c,.acquire .conn] (opened false) := by decide
      have given : Settles (left false) [.release .conn,.release .c] ∅ := by decide
      have all := @roundSettles (.socket stream answer) _ _ _ sent rest taken given (servedSettles served) kept
      rwa [others] at all
    · simp only [handleClient,bind,Option.bind_eq_some_iff] at ran
      obtain ⟨sent,served,rest,later,same⟩ := ran
      cases Option.some.inj same
      obtain ⟨kept,others⟩ := ih later
      have taken : Settles ∅ [.acquire .c,.acquire .mutex] (opened true) := by decide
      have given : Settles (left true) [.release .c] ∅ := by decide
      have all := @roundSettles (.shared chunks) _ _ _ sent rest taken given (servedSettles served) kept
      rwa [others] at all
    · cases Option.some.inj ran
      exact ⟨by decide,rfl⟩

end

/-- However the threads' actions are mixed, whatever requests they get and whatever the file
system answers: none takes what it has, uses or gives back what it has not, or keeps anything. -/
theorem nothingLost {turns : Nat → List Turn} {traces : Nat → List Event} {labels : List (Nat × Act Resource)}
    (ran : ∀ ID, handleClient (turns ID) = some (traces ID)) (mixed : ∀ ID, mine ID labels = acts (traces ID)) :
    run (beside perform) (fun _ => ∅) labels = some (fun _ => ∅) ∧ ∀ ID, effects (traces ID) = answers (turns ID) := by
  refine ⟨settlesBeside fun ID => ?_,fun ID => (workerSettles (ran ID)).2⟩
  rw [mixed ID]
  exact (workerSettles (ran ID)).1

def rootFiles : Files where
  stat := fun name => if name = ascii "./" then some ⟨true,0⟩ else none
  opens := fun _ => false
  mmap := fun _ _ => none
  scandir := fun _ => some [ascii ".",ascii ".."]
  mapped := fun _ _ _ here => by cases here
  named := fun _ dl here name mem => by
    cases Option.some.inj here
    simp only [List.mem_cons,List.not_mem_nil,or_false] at mem
    rcases mem with rfl | rfl <;> decide

def someTurns : Nat → List Turn
  | 0 => [⟨FileService.flat (ascii "page") [104,105],[],[],
      .serve (.socket (ascii "GET /page HTTP/1.0\r\n\r\n") (.upTo 99))⟩]
  | 1 => [⟨rootFiles,[],[],.serve (.shared [ascii "GET / H",ascii "TTP/1.0\r\n\r\n"])⟩,
      ⟨rootFiles,[],[],.terminate⟩]
  | _ => []

theorem nothingLostTwice : ∃ page listing, handleClient (someTurns 0) = some page ∧
    handleClient (someTurns 1) = some listing ∧ run (beside perform) (fun _ => ∅)
      (((acts page).take 4).map (Prod.mk 0) ++ (acts listing).map (Prod.mk 1) ++
        ((acts page).drop 4).map (Prod.mk 0)) = some (fun _ : Nat => ∅) := by
  have first : (handleClient (someTurns 0)).isSome = true := by decide +kernel
  have second : (handleClient (someTurns 1)).isSome = true := by decide +kernel
  obtain ⟨page,hp⟩ := Option.isSome_iff_exists.mp first
  obtain ⟨listing,hl⟩ := Option.isSome_iff_exists.mp second
  refine ⟨page,listing,hp,hl,?_⟩
  have all := @nothingLost someTurns (fun | 0 => page | 1 => listing | _ => [])
    (((acts page).take 4).map (Prod.mk 0) ++ (acts listing).map (Prod.mk 1) ++
      ((acts page).drop 4).map (Prod.mk 0)) ?_ ?_
  · exact all.1
  · rintro (_ | _ | ID)
    · exact hp
    · exact hl
    · rfl
  · rintro (_ | _ | ID)
    all_goals rw [mineAppend,mineAppend,mineMap,mineMap,mineMap]
    · exact (congrArg (· ++ _) (List.append_nil _)).trans (List.take_append_drop 4 (acts page))
    · exact List.append_nil _
    · rfl

end IttyBittyServer.ServerResources
