import IttyBittyServer.MemList

/-! The two programs that meet on a memnode, one shared access per step: sharedProxy
from its lock on, and the SHARED branch of the server's handleClient with checkAndSend
and sendResponse. `sendShared` is the loop both of them call. checkAndSend's array of 20000
bytes takes any number here; it gets no more than the request has. -/
namespace IttyBittyServer.ProcessShared
open MemList

inductive SendPC where
  | role
  | loop
  | flag
  | map
  | mark
  | signal
  | wait
  | waiting
  | returned
  deriving DecidableEq, Repr

structure Send where
  data : List UInt8
  totalBytes : Nat
  isServer : Bool
  deriving DecidableEq, Repr

def Send.call (header body : List UInt8) : Send := ⟨header ++ body,0,false⟩

def Send.toWrite (x : Send) : Nat :=
  if segmentSize < x.data.length - x.totalBytes then segmentSize
  else x.data.length - x.totalBytes

def Send.more (x : Send) : Bool := x.totalBytes < x.data.length

def sendShared (me woken : Tid) (node : Memnode) (x : Send) :
    SendPC → Option (Memnode × SendPC × Send)
  | .role =>
    let isServer := node.proxyState = .complete
    some (node,.loop,{ x with isServer })
  | .loop => some (node,if x.more then .flag else .returned,x)
  | .flag => some (setState node x.isServer .busy,.map,x)
  | .map =>
    let chunk := (x.data.drop x.totalBytes).take x.toWrite
    some (setMapping node chunk,.mark,{ x with totalBytes := x.totalBytes + x.toWrite })
  | .mark =>
    let s := if x.more then if x.isServer then .waitingContPrxy else .waitingContSrvr
      else .complete
    some (setState node x.isServer s,.signal,x)
  | .signal => do
    let node ← condSignal woken node
    some (node,if x.more || x.isServer then .wait else .loop,x)
  | .wait => some (condWait me node,.waiting,x)
  | .waiting => do
    let node ← acquire me node
    some (node,.loop,x)
  | .returned => none

inductive ProxyPC where
  | idle
  | lock
  | post
  | testInit
  | waitInit
  | waitingInit
  | send (pc : SendPC)
  | recvTest
  | recvWait
  | recvWaiting
  | read
  | forward
  | signal
  | again
  | unlock
  | reset
  | fatal
  deriving DecidableEq, Repr

/- `skipped` records that the initial wait was not taken. -/
structure Proxy where
  pc : ProxyPC
  request : List UInt8
  skipped : Bool
  sending : Send
  received : List UInt8
  deriving DecidableEq, Repr

def Proxy.start (request : List UInt8) : Proxy :=
  ⟨.lock,request,false,Send.call request [],[]⟩

def Proxy.rest : Proxy := ⟨.idle,[],false,Send.call [] [],[]⟩

/- `sent` is how much of a chunk the client takes; sendAll stores it in spaceUsed. -/
def sharedProxy (w : Nat) (woken : Tid) (sent : Nat) (node : Memnode) (x : Proxy) :
    Option (Memnode × Proxy) :=
  match x.pc with
  | .idle => none
  | .lock => do
    let node ← acquire (.proxy w) node
    some (node,{ x with pc := .post })
  | .post => some ({ node with proxyState := .waitingInitSrvr },{ x with pc := .testInit })
  | .testInit =>
    if node.serverState ≠ .waitingContPrxy then some (node,{ x with pc := .waitInit })
    else some (node,{ x with pc := .send .role, skipped := true })
  | .waitInit => some (condWait (.proxy w) node,{ x with pc := .waitingInit })
  | .waitingInit => do
    let node ← acquire (.proxy w) node
    some (node,{ x with pc := .send .role })
  | .send .returned => some (node,{ x with pc := .recvTest })
  | .send pc => do
    let (node,pc,sending) ← sendShared (.proxy w) woken node x.sending pc
    some (node,{ x with pc := .send pc, sending })
  | .recvTest =>
    some (node,{ x with pc := if node.serverState ≠ .complete then .recvWait else .read })
  | .recvWait => some (condWait (.proxy w) node,{ x with pc := .recvWaiting })
  | .recvWaiting => do
    let node ← acquire (.proxy w) node
    some (node,{ x with pc := .read })
  | .read =>
    match receiveShared node with
    | none => some (node,{ x with pc := .fatal })
    | some response =>
      some (node,{ x with pc := .forward, received := x.received ++ response })
  | .forward =>
    some ({ node with spaceUsed := min sent node.spaceUsed },{ x with pc := .signal })
  | .signal => do
    let node ← condSignal woken node
    some (node,{ x with pc := .again })
  | .again =>
    some (node,{ x with pc := if node.serverState ≠ .complete then .recvTest else .unlock })
  | .unlock => some (release node,{ x with pc := .reset })
  | .reset => some ({ node with proxyState := .idle },{ x with pc := .idle })
  | .fatal => none

inductive ServerPC where
  | idle
  | mark
  | lock
  | signalInit
  | recvTest
  | recvWait
  | recvWaiting
  | read
  | signalTest
  | signal
  | again
  | busy
  | respond
  | send (pc : SendPC)
  | reset
  | fatal
  deriving DecidableEq, Repr

structure Server where
  pc : ServerPC
  line : List UInt8
  sending : Send
  deriving DecidableEq, Repr

def Server.rest : Server := ⟨.idle,[],Send.call [] []⟩

def Server.start : Server := { Server.rest with pc := .mark }

/- The header and the body answer `line`; a header is never empty. -/
def handleClient (i : Nat) (woken : Tid) (header body : List UInt8) (node : Memnode)
    (y : Server) : Option (Memnode × Server) :=
  match y.pc with
  | .idle => none
  | .mark => some ({ node with serverState := .waitingContPrxy },{ y with pc := .lock })
  | .lock => do
    let node ← acquire (.server i) node
    some (node,{ y with pc := .signalInit })
  | .signalInit => do
    let node ← condSignal woken node
    some (node,{ y with pc := .recvTest })
  | .recvTest =>
    some (node,{ y with pc := if node.proxyState ≠ .complete then .recvWait else .read })
  | .recvWait => some (condWait (.server i) node,{ y with pc := .recvWaiting })
  | .recvWaiting => do
    let node ← acquire (.server i) node
    some (node,{ y with pc := .read })
  | .read =>
    match receiveShared node with
    | none => some (node,{ y with pc := .fatal })
    | some request => some (node,{ y with pc := .signalTest, line := y.line ++ request })
  | .signalTest =>
    some (node,{ y with pc := if node.proxyState ≠ .complete then .signal else .again })
  | .signal => do
    let node ← condSignal woken node
    some (node,{ y with pc := .again })
  | .again =>
    some (node,{ y with pc := if node.proxyState ≠ .complete then .recvTest else .busy })
  | .busy => some ({ node with serverState := .busy },{ y with pc := .respond })
  | .respond =>
    if header = [] then none
    else some (node,{ y with pc := .send .role, sending := Send.call header body })
  | .send .returned => some (release node,{ y with pc := .reset })
  | .send pc => do
    let (node,pc,sending) ← sendShared (.server i) woken node y.sending pc
    some (node,{ y with pc := .send pc, sending })
  | .reset => some ({ node with serverState := .idle },{ y with pc := .idle })
  | .fatal => none

inductive SendMove (me woken : Tid) (node : Memnode) (x : Send) : SendPC → Memnode → SendPC → Send → Prop where
  | role : SendMove me woken node x .role node .loop { x with isServer := node.proxyState = .complete }
  | loop : SendMove me woken node x .loop node (if x.more then .flag else .returned) x
  | flag : SendMove me woken node x .flag (setState node x.isServer .busy) .map x
  | map : SendMove me woken node x .map (setMapping node ((x.data.drop x.totalBytes).take x.toWrite)) .mark
      { x with totalBytes := x.totalBytes + x.toWrite }
  | mark : SendMove me woken node x .mark (setState node x.isServer
      (if x.more then if x.isServer then .waitingContPrxy else .waitingContSrvr else .complete)) .signal x
  | signal {next} (woke : condSignal woken node = some next) :
      SendMove me woken node x .signal next (if x.more || x.isServer then .wait else .loop) x
  | wait : SendMove me woken node x .wait (condWait me node) .waiting x
  | waiting {next} (got : acquire me node = some next) : SendMove me woken node x .waiting next .loop x

inductive ProxyMove (w : Nat) (woken : Tid) (sent : Nat) (node : Memnode) (x : Proxy) :
    Memnode → Proxy → Prop where
  | lock {next} (point : x.pc = .lock) (got : acquire (.proxy w) node = some next) :
      ProxyMove w woken sent node x next { x with pc := .post }
  | post (point : x.pc = .post) : ProxyMove w woken sent node x
      { node with proxyState := .waitingInitSrvr } { x with pc := .testInit }
  | waits (point : x.pc = .testInit) (test : node.serverState ≠ .waitingContPrxy) :
      ProxyMove w woken sent node x node { x with pc := .waitInit }
  | skips (point : x.pc = .testInit) (test : node.serverState = .waitingContPrxy) :
      ProxyMove w woken sent node x node { x with pc := .send .role, skipped := true }
  | waitInit (point : x.pc = .waitInit) :
      ProxyMove w woken sent node x (condWait (.proxy w) node) { x with pc := .waitingInit }
  | waitingInit {next} (point : x.pc = .waitingInit) (got : acquire (.proxy w) node = some next) :
      ProxyMove w woken sent node x next { x with pc := .send .role }
  | send {pc next pc' sending} (point : x.pc = .send pc)
      (sends : SendMove (.proxy w) woken node x.sending pc next pc' sending) :
      ProxyMove w woken sent node x next { x with pc := .send pc', sending }
  | returned (point : x.pc = .send .returned) : ProxyMove w woken sent node x node { x with pc := .recvTest }
  | recvTest (point : x.pc = .recvTest) : ProxyMove w woken sent node x node
      { x with pc := if node.serverState ≠ .complete then .recvWait else .read }
  | recvWait (point : x.pc = .recvWait) :
      ProxyMove w woken sent node x (condWait (.proxy w) node) { x with pc := .recvWaiting }
  | recvWaiting {next} (point : x.pc = .recvWaiting) (got : acquire (.proxy w) node = some next) :
      ProxyMove w woken sent node x next { x with pc := .read }
  | read {response} (point : x.pc = .read) (got : receiveShared node = some response) :
      ProxyMove w woken sent node x node { x with pc := .forward, received := x.received ++ response }
  | fails (point : x.pc = .read) (got : receiveShared node = none) :
      ProxyMove w woken sent node x node { x with pc := .fatal }
  | forward (point : x.pc = .forward) : ProxyMove w woken sent node x
      { node with spaceUsed := min sent node.spaceUsed } { x with pc := .signal }
  | signal {next} (point : x.pc = .signal) (woke : condSignal woken node = some next) :
      ProxyMove w woken sent node x next { x with pc := .again }
  | again (point : x.pc = .again) : ProxyMove w woken sent node x node
      { x with pc := if node.serverState ≠ .complete then .recvTest else .unlock }
  | unlock (point : x.pc = .unlock) : ProxyMove w woken sent node x (release node) { x with pc := .reset }
  | reset (point : x.pc = .reset) : ProxyMove w woken sent node x
      { node with proxyState := .idle } { x with pc := .idle }

inductive ServerMove (i : Nat) (woken : Tid) (header body : List UInt8) (node : Memnode) (y : Server) :
    Memnode → Server → Prop where
  | mark (point : y.pc = .mark) : ServerMove i woken header body node y
      { node with serverState := .waitingContPrxy } { y with pc := .lock }
  | lock {next} (point : y.pc = .lock) (got : acquire (.server i) node = some next) :
      ServerMove i woken header body node y next { y with pc := .signalInit }
  | signalInit {next} (point : y.pc = .signalInit) (woke : condSignal woken node = some next) :
      ServerMove i woken header body node y next { y with pc := .recvTest }
  | recvTest (point : y.pc = .recvTest) : ServerMove i woken header body node y node
      { y with pc := if node.proxyState ≠ .complete then .recvWait else .read }
  | recvWait (point : y.pc = .recvWait) : ServerMove i woken header body node y
      (condWait (.server i) node) { y with pc := .recvWaiting }
  | recvWaiting {next} (point : y.pc = .recvWaiting) (got : acquire (.server i) node = some next) :
      ServerMove i woken header body node y next { y with pc := .read }
  | read {request} (point : y.pc = .read) (got : receiveShared node = some request) :
      ServerMove i woken header body node y node { y with pc := .signalTest, line := y.line ++ request }
  | fails (point : y.pc = .read) (got : receiveShared node = none) :
      ServerMove i woken header body node y node { y with pc := .fatal }
  | signalTest (point : y.pc = .signalTest) : ServerMove i woken header body node y node
      { y with pc := if node.proxyState ≠ .complete then .signal else .again }
  | signal {next} (point : y.pc = .signal) (woke : condSignal woken node = some next) :
      ServerMove i woken header body node y next { y with pc := .again }
  | again (point : y.pc = .again) : ServerMove i woken header body node y node
      { y with pc := if node.proxyState ≠ .complete then .recvTest else .busy }
  | busy (point : y.pc = .busy) : ServerMove i woken header body node y
      { node with serverState := .busy } { y with pc := .respond }
  | respond (point : y.pc = .respond) (full : header ≠ []) : ServerMove i woken header body node y node
      { y with pc := .send .role, sending := Send.call header body }
  | send {pc next pc' sending} (point : y.pc = .send pc)
      (sends : SendMove (.server i) woken node y.sending pc next pc' sending) :
      ServerMove i woken header body node y next { y with pc := .send pc', sending }
  | returned (point : y.pc = .send .returned) :
      ServerMove i woken header body node y (release node) { y with pc := .reset }
  | reset (point : y.pc = .reset) : ServerMove i woken header body node y
      { node with serverState := .idle } { y with pc := .idle }

section
variable {me woken : Tid} {node next : Memnode}

theorem sendMove {x x' : Send} {pc pc' : SendPC} (step : sendShared me woken node x pc = some (next,pc',x')) :
    SendMove me woken node x pc next pc' x' := by
  cases pc with
  | signal =>
    simp only [sendShared,bind,Option.bind_eq_some_iff,Option.some.injEq,Prod.mk.injEq] at step
    obtain ⟨signalled,woke,rfl,rfl,rfl⟩ := step
    exact .signal woke
  | waiting =>
    simp only [sendShared,bind,Option.bind_eq_some_iff,Option.some.injEq,Prod.mk.injEq] at step
    obtain ⟨acquired,got,rfl,rfl,rfl⟩ := step
    exact .waiting got
  | returned => simp [sendShared] at step
  | _ =>
    simp only [sendShared,Option.some.injEq,Prod.mk.injEq] at step
    obtain ⟨rfl,rfl,rfl⟩ := step
    constructor

theorem proxyMove {w sent : Nat} {x x' : Proxy} (step : sharedProxy w woken sent node x = some (next,x')) :
    ProxyMove w woken sent node x next x' := by
  unfold sharedProxy at step
  cases point : x.pc with
  | idle | fatal => simp [point] at step
  | lock =>
    simp only [point,bind,Option.bind_eq_some_iff,Option.some.injEq,Prod.mk.injEq] at step
    obtain ⟨acquired,got,rfl,rfl⟩ := step
    exact .lock point got
  | waitingInit =>
    simp only [point,bind,Option.bind_eq_some_iff,Option.some.injEq,Prod.mk.injEq] at step
    obtain ⟨acquired,got,rfl,rfl⟩ := step
    exact .waitingInit point got
  | recvWaiting =>
    simp only [point,bind,Option.bind_eq_some_iff,Option.some.injEq,Prod.mk.injEq] at step
    obtain ⟨acquired,got,rfl,rfl⟩ := step
    exact .recvWaiting point got
  | signal =>
    simp only [point,bind,Option.bind_eq_some_iff,Option.some.injEq,Prod.mk.injEq] at step
    obtain ⟨signalled,woke,rfl,rfl⟩ := step
    exact .signal point woke
  | testInit =>
    simp only [point] at step
    split at step <;> simp only [Option.some.injEq,Prod.mk.injEq] at step <;> obtain ⟨rfl,rfl⟩ := step
    · rename_i test
      exact .waits point test
    · rename_i test
      exact .skips point (not_not.mp test)
  | read =>
    simp only [point] at step
    split at step <;> simp only [Option.some.injEq,Prod.mk.injEq] at step <;> obtain ⟨rfl,rfl⟩ := step
    · rename_i got
      exact .fails point got
    · rename_i got
      exact .read point got
  | send pc =>
    cases pc with
    | returned =>
      simp only [point,Option.some.injEq,Prod.mk.injEq] at step
      obtain ⟨rfl,rfl⟩ := step
      exact .returned point
    | _ =>
      simp only [point,bind,Option.bind_eq_some_iff,Option.some.injEq,Prod.mk.injEq] at step
      obtain ⟨⟨sentNode,pc',sending⟩,sends,rfl,rfl⟩ := step
      exact .send point (sendMove sends)
  | _ =>
    simp only [point,Option.some.injEq,Prod.mk.injEq] at step
    obtain ⟨rfl,rfl⟩ := step
    constructor
    exact point

theorem serverMove {i : Nat} {header body : List UInt8} {y y' : Server}
    (step : handleClient i woken header body node y = some (next,y')) :
    ServerMove i woken header body node y next y' := by
  unfold handleClient at step
  cases point : y.pc with
  | idle | fatal => simp [point] at step
  | lock =>
    simp only [point,bind,Option.bind_eq_some_iff,Option.some.injEq,Prod.mk.injEq] at step
    obtain ⟨acquired,got,rfl,rfl⟩ := step
    exact .lock point got
  | recvWaiting =>
    simp only [point,bind,Option.bind_eq_some_iff,Option.some.injEq,Prod.mk.injEq] at step
    obtain ⟨acquired,got,rfl,rfl⟩ := step
    exact .recvWaiting point got
  | signalInit =>
    simp only [point,bind,Option.bind_eq_some_iff,Option.some.injEq,Prod.mk.injEq] at step
    obtain ⟨signalled,woke,rfl,rfl⟩ := step
    exact .signalInit point woke
  | signal =>
    simp only [point,bind,Option.bind_eq_some_iff,Option.some.injEq,Prod.mk.injEq] at step
    obtain ⟨signalled,woke,rfl,rfl⟩ := step
    exact .signal point woke
  | read =>
    simp only [point] at step
    split at step <;> simp only [Option.some.injEq,Prod.mk.injEq] at step <;> obtain ⟨rfl,rfl⟩ := step
    · rename_i got
      exact .fails point got
    · rename_i got
      exact .read point got
  | respond =>
    simp only [point] at step
    split at step <;> try contradiction
    rename_i full
    simp only [Option.some.injEq,Prod.mk.injEq] at step
    obtain ⟨rfl,rfl⟩ := step
    exact .respond point full
  | send pc =>
    cases pc with
    | returned =>
      simp only [point,Option.some.injEq,Prod.mk.injEq] at step
      obtain ⟨rfl,rfl⟩ := step
      exact .returned point
    | _ =>
      simp only [point,bind,Option.bind_eq_some_iff,Option.some.injEq,Prod.mk.injEq] at step
      obtain ⟨⟨sentNode,pc',sending⟩,sends,rfl,rfl⟩ := step
      exact .send point (sendMove sends)
  | _ =>
    simp only [point,Option.some.injEq,Prod.mk.injEq] at step
    obtain ⟨rfl,rfl⟩ := step
    constructor
    exact point

theorem sendFlags {x x' : Send} {pc pc' : SendPC} (sends : SendMove me woken node x pc next pc' x') :
    (next.proxyState = node.proxyState ∨ x.isServer = false ∧ next.proxyState ≠ .idle) ∧
    (next.serverState = node.serverState ∨
      x.isServer = true ∧ pc ≠ .role ∧ next.serverState ≠ .idle) := by
  cases sends with
  | flag | mark => cases role : x.isServer <;> cases more : x.more <;> simp [setState]
  | signal woke =>
    obtain rfl := signalExact woke
    simp
  | waiting got =>
    obtain ⟨_,_,rfl⟩ := acquireExact got
    simp
  | _ => simp [condWait,setMapping]

theorem proxyFlags {w sent : Nat} {x x' : Proxy}
    (step : sharedProxy w woken sent node x = some (next,x')) :
    (next.proxyState = node.proxyState ∨ x.pc = .reset ∧ x'.pc = .idle ∨
      next.proxyState ≠ .idle) ∧
    (next.serverState = node.serverState ∨ next.serverState ≠ .idle ∧
      x.sending.isServer = true ∧ ∃ pc, x.pc = .send pc ∧ pc ≠ .role) := by
  cases proxyMove step with
  | lock point got | waitingInit point got | recvWaiting point got =>
    obtain ⟨_,_,rfl⟩ := acquireExact got
    simp
  | signal point woke =>
    obtain rfl := signalExact woke
    simp
  | send point sends =>
    obtain ⟨ours,theirs⟩ := sendFlags sends
    exact ⟨ours.imp_right fun e => .inr e.2,
      theirs.imp_right fun e => ⟨e.2.2,e.1,_,point,e.2.1⟩⟩
  | reset point => simp [point]
  | _ => simp [condWait,release]

theorem serverFlags {i : Nat} {header body : List UInt8} {y y' : Server}
    (step : handleClient i woken header body node y = some (next,y')) :
    (y'.pc = .idle → y.pc = .reset) ∧
    (y.pc = .reset → y'.pc = .idle ∧ next.serverState = .idle) ∧
    (next.serverState = node.serverState ∨ y.pc = .reset ∨ next.serverState ≠ .idle) ∧
    (next.proxyState = node.proxyState ∨ next.proxyState ≠ .idle) := by
  cases serverMove step with
  | lock point got | recvWaiting point got =>
    obtain ⟨_,_,rfl⟩ := acquireExact got
    simp [point]
  | signalInit point woke | signal point woke =>
    obtain rfl := signalExact woke
    simp [point]
  | recvTest point | signalTest point | again point =>
    simp only [point,reduceCtorEq,imp_false,false_or,true_or,and_true,false_imp_iff]
    split <;> simp
  | send point sends =>
    obtain ⟨theirs,ours⟩ := sendFlags sends
    simp only [point,reduceCtorEq,imp_false,not_false_eq_true,false_imp_iff,true_and,false_or]
    exact ⟨ours.imp_right fun e => e.2.2,theirs.imp_right fun e => e.2⟩
  | mark point
  | recvWait point
  | read point
  | fails point
  | busy point
  | respond point
  | returned point
  | reset point => simp [point,condWait,release]

end

end IttyBittyServer.ProcessShared
