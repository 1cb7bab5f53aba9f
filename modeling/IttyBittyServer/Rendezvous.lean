import IttyBittyServer.ProcessShared

/-! Where one proxy worker and one server worker can stand while they share a memnode:
their program points, whether a message has more chunks to come, and who waits on the
condition. `meets` is the table of the joint points that occur; `proxyNext` and
`serverNext` are the moves out of them. -/
namespace IttyBittyServer.Rendezvous
open ProcessShared MemList

inductive Waiter where
  | nobody
  | proxy
  | server
  deriving DecidableEq, Repr

inductive Pending where
  | nothing
  | request
  | response
  deriving DecidableEq, Repr

def proxyHolds : ProxyPC → Bool
  | .idle | .lock | .waitingInit | .send .waiting | .recvWaiting | .reset | .fatal => false
  | _ => true

def serverHolds : ServerPC → Bool
  | .idle | .mark | .lock | .recvWaiting | .send .waiting | .reset | .fatal => false
  | _ => true

def posted : ProxyPC → Waiter → Bool
  | .testInit,.nobody | .waitInit,.nobody | .waitingInit,.proxy => true
  | _,_ => false

def apart : ProxyPC → Waiter → Bool
  | .idle,.nobody | .lock,.nobody | .post,.nobody | .reset,.nobody => true
  | x,c => posted x c

def ahead : ProxyPC → Waiter → Bool
  | .send .waiting,.proxy | .recvWaiting,.proxy => true
  | .send .waiting,_ => false
  | .send _,.nobody | .recvTest,.nobody | .recvWait,.nobody => true
  | _,_ => false

def meets (x : ProxyPC) (xm : Bool) (c : Waiter) (ym : Bool) : ServerPC → Bool
  | .idle | .reset => apart x c
  | .mark => posted x c
  | .lock => posted x c || ahead x c
  | .signalInit => c = .proxy && (x = .waitingInit || x = .send .waiting || x = .recvWaiting)
  | .recvTest => c = .nobody && (x = .waitingInit || x = .send .waiting || x = .recvWaiting)
  | .recvWait => c = .nobody && (x = .waitingInit || x = .send .waiting)
  | .recvWaiting => match c,x with
    | .server,.waitingInit | .server,.send .role | .server,.send .flag | .server,.send .map
    | .server,.send .mark | .server,.send .signal | .server,.send .waiting => true
    | .server,.send .loop => xm
    | .nobody,.send .wait | .nobody,.send .returned | .nobody,.recvTest | .nobody,.recvWait => true
    | .nobody,.send .loop => !xm
    | .proxy,.send .waiting | .proxy,.recvWaiting => true
    | _,_ => false
  | .read | .signalTest => match c,x with
    | .proxy,.send .waiting | .proxy,.recvWaiting | .nobody,.recvWaiting => true
    | _,_ => false
  | .signal => c = .proxy && x = .send .waiting
  | .again => match c,x with
    | .nobody,.send .waiting | .proxy,.recvWaiting | .nobody,.recvWaiting => true
    | _,_ => false
  | .send .wait => c = .nobody && x = .recvWaiting
  | .send .waiting => match c,x with
    | .server,.recvWaiting | .server,.read | .server,.forward | .server,.signal => true
    | .nobody,.again => true
    | .nobody,.recvTest | .nobody,.recvWait | .proxy,.recvWaiting => ym
    | .nobody,.unlock => !ym
    | c,x => !ym && apart x c
  | .send .loop => if ym then c ≠ .server && x = .recvWaiting else apart x c && !proxyHolds x
  | .send .returned => apart x c && !proxyHolds x
  | .busy | .respond | .send .role | .send .flag | .send .map | .send .mark | .send .signal =>
    c ≠ .server && x = .recvWaiting
  | .fatal => false

def requestPosted (x : ProxyPC) (xm : Bool) (c : Waiter) : Bool :=
  match x with
  | .send .mark | .send .signal | .send .wait | .send .returned => true
  | .recvTest | .recvWait | .recvWaiting => true
  | .send .waiting => c = .proxy
  | .send .loop => !xm
  | _ => false

def pending (x : ProxyPC) (xm : Bool) (c : Waiter) : ServerPC → Pending
  | .lock | .signalInit | .recvTest | .recvWait | .recvWaiting =>
    if requestPosted x xm c then .request else .nothing
  | .read => .request
  | .send .mark | .send .signal | .send .wait => .response
  | .send .waiting =>
    if x = .read || (x = .recvWaiting && c = .server) then .response else
    if x = .recvWaiting && c = .nobody then .response else .nothing
  | _ => .nothing

def proxyNext (xm : Bool) (c : Waiter) (ym : Bool) (y : ServerPC) :
    ProxyPC → List (ProxyPC × Bool × Waiter)
  | .idle => []
  | .lock => if serverHolds y then [] else [(.post,xm,c)]
  | .post => [(.testInit,xm,c)]
  | .testInit => [(if y = .lock then .send .role else .waitInit,xm,c)]
  | .waitInit => [(.waitingInit,xm,.proxy)]
  | .waitingInit => if c = .proxy || serverHolds y then [] else [(.send .role,xm,c)]
  | .send .role => if xm then [(.send .loop,xm,c)] else []
  | .send .loop => [(.send (if xm then .flag else .returned),xm,c)]
  | .send .flag => [(.send .map,xm,c)]
  | .send .map => [(.send .mark,true,c),(.send .mark,false,c)]
  | .send .mark => [(.send .signal,xm,c)]
  | .send .signal => [(.send (if xm then .wait else .loop),xm,.nobody)]
  | .send .wait => [(.send .waiting,xm,.proxy)]
  | .send .waiting => if c = .proxy || serverHolds y || !xm then [] else [(.send .loop,xm,c)]
  | .send .returned => [(.recvTest,xm,c)]
  | .recvTest => [(.recvWait,xm,c)]
  | .recvWait => [(.recvWaiting,xm,.proxy)]
  | .recvWaiting => if c = .proxy || serverHolds y then [] else [(.read,xm,c)]
  | .read => [(.forward,xm,c)]
  | .forward => [(.signal,xm,c)]
  | .signal => [(.again,xm,.nobody)]
  | .again => [(if ym then .recvTest else .unlock,xm,c)]
  | .unlock => [(.reset,xm,c)]
  | .reset => [(.idle,xm,c)]
  | .fatal => []

def serverNext (x : ProxyPC) (c : Waiter) (ym : Bool) :
    ServerPC → List (ServerPC × Bool × Waiter)
  | .idle => []
  | .mark => [(.lock,ym,c)]
  | .lock => if proxyHolds x then [] else [(.signalInit,ym,c)]
  | .signalInit => [(.recvTest,ym,.nobody)]
  | .recvTest => [(if x = .recvWaiting then .read else .recvWait,ym,c)]
  | .recvWait => [(.recvWaiting,ym,.server)]
  | .recvWaiting => if c = .server || proxyHolds x then [] else [(.read,ym,c)]
  | .read => [(.signalTest,ym,c)]
  | .signalTest => [(if x = .recvWaiting then .again else .signal,ym,c)]
  | .signal => [(.again,ym,.nobody)]
  | .again => [(if x = .recvWaiting then .busy else .recvTest,ym,c)]
  | .busy => [(.respond,ym,c)]
  | .respond => [(.send .role,true,c)]
  | .send .role => if ym then [(.send .loop,ym,c)] else []
  | .send .loop => [(.send (if ym then .flag else .returned),ym,c)]
  | .send .flag => [(.send .map,ym,c)]
  | .send .map => [(.send .mark,true,c),(.send .mark,false,c)]
  | .send .mark => [(.send .signal,ym,c)]
  | .send .signal => [(.send .wait,ym,.nobody)]
  | .send .wait => [(.send .waiting,ym,.server)]
  | .send .waiting => if c = .server || proxyHolds x then [] else [(.send .loop,ym,c)]
  | .send .returned => [(.reset,ym,c)]
  | .reset => [(.idle,ym,c)]
  | .fatal => []

def proxyFlag (xm : Bool) (s : StateT) : ProxyPC → Bool
  | .idle | .lock | .post => s = .idle
  | .testInit | .waitInit | .waitingInit | .send .role => s = .waitingInitSrvr
  | .send .loop | .send .flag =>
    if xm then s = .waitingInitSrvr || s = .waitingContSrvr else s = .complete
  | .send .map | .send .mark => s = .busy
  | .send .signal => s = if xm then .waitingContSrvr else .complete
  | .send .wait | .send .waiting => s = .waitingContSrvr
  | .fatal => true
  | _ => s = .complete

def serverFlag (ym : Bool) (s : StateT) : ServerPC → Bool
  | .idle => s = .idle || s = .busy
  | .mark | .respond | .send .role | .send .map | .send .mark => s = .busy
  | .send .loop | .send .flag =>
    if ym then s = .busy || s = .waitingContPrxy else s = .complete
  | .send .signal | .send .wait | .send .waiting => s = if ym then .waitingContPrxy else .complete
  | .send .returned | .reset => s = .complete
  | .fatal => true
  | _ => s = .waitingContPrxy

def isSend : ServerPC → Bool
  | .send _ => true
  | _ => false

def early : ServerPC → Bool
  | .mark | .lock | .signalInit => true
  | _ => false

def opening : ProxyPC → Bool
  | .lock | .post | .testInit | .waitInit | .waitingInit => true
  | _ => false

def inReply : ProxyPC → Bool
  | .recvTest | .recvWait | .recvWaiting | .read | .forward | .signal | .again => true
  | .unlock | .reset => true
  | _ => false

def closing : ProxyPC → Bool
  | .unlock | .reset => true
  | _ => false

def engaged (x : ProxyPC) : ServerPC → Bool
  | .idle | .reset | .fatal => false
  | .send _ => inReply x
  | _ => true

def unanswered (y : ServerPC) : ProxyPC → Bool
  | .recvTest | .recvWait | .recvWaiting => !isSend y
  | .send _ => true
  | x => opening x

def proxyReady (c : Waiter) (y : ServerPC) : ProxyPC → Bool
  | .idle | .fatal => false
  | .lock | .waitingInit | .send .waiting | .recvWaiting => c ≠ .proxy && !serverHolds y
  | _ => true

def serverReady (c : Waiter) (x : ProxyPC) : ServerPC → Bool
  | .idle | .fatal => false
  | .lock | .recvWaiting | .send .waiting => c ≠ .server && !proxyHolds x
  | _ => true

def sendPoints : List SendPC :=
  [.role,.loop,.flag,.map,.mark,.signal,.wait,.waiting,.returned]

def proxyPoints : List ProxyPC :=
  [.idle,.lock,.post,.testInit,.waitInit,.waitingInit,.recvTest,.recvWait,.recvWaiting,
    .read,.forward,.signal,.again,.unlock,.reset,.fatal] ++ sendPoints.map .send

def serverPoints : List ServerPC :=
  [.idle,.mark,.lock,.signalInit,.recvTest,.recvWait,.recvWaiting,.read,.signalTest,
    .signal,.again,.busy,.respond,.reset,.fatal] ++ sendPoints.map .send

theorem everySend (pc : SendPC) : pc ∈ sendPoints := by cases pc <;> decide

theorem everyProxy (x : ProxyPC) : x ∈ proxyPoints := by
  cases x with
  | send pc => exact List.mem_append_right _ (List.mem_map_of_mem (everySend pc))
  | _ => decide

theorem everyServer (y : ServerPC) : y ∈ serverPoints := by
  cases y with
  | send pc => exact List.mem_append_right _ (List.mem_map_of_mem (everySend pc))
  | _ => decide

theorem everyWaiter (c : Waiter) : c ∈ [Waiter.nobody,.proxy,.server] := by cases c <;> decide

theorem everyState (s : StateT) :
    s ∈ [StateT.idle,.busy,.waitingInitSrvr,.waitingContPrxy,.waitingContSrvr,.complete] := by
  cases s <;> decide

section
variable {α : Type} {points : List α}

def decideAll (every : ∀ a, a ∈ points) (P : α → Prop) [DecidablePred P] : Decidable (∀ a, P a) :=
  decidable_of_iff (∀ a ∈ points, P a) ⟨fun h a => h a (every a),fun h a _ => h a⟩

end

instance (P : ProxyPC → Prop) [DecidablePred P] : Decidable (∀ x, P x) := decideAll everyProxy P

instance (P : ServerPC → Prop) [DecidablePred P] : Decidable (∀ y, P y) := decideAll everyServer P

instance (P : Waiter → Prop) [DecidablePred P] : Decidable (∀ c, P c) := decideAll everyWaiter P

instance (P : StateT → Prop) [DecidablePred P] : Decidable (∀ s, P s) := decideAll everyState P

/- What holds wherever two sides meet. A chunk is posted by `map` and taken by `read`;
the server's first signal may give one up; every other move leaves the exchange as it was. -/
@[mk_iff] structure Lawful (x : ProxyPC) (xm : Bool) (c : Waiter) (ym : Bool) (y : ServerPC) :
    Prop where
  proxyMeets : ∀ t ∈ proxyNext xm c ym y x, meets t.1 t.2.1 t.2.2 ym y = true
  serverMeets : ∀ t ∈ serverNext x c ym y, meets x xm t.2.2 t.2.1 t.1 = true
  oneHolds : proxyHolds x = true → serverHolds y = false
  proxyWaits : x = .waitInit ∨ x = .send .wait ∨ x = .recvWait → c = .nobody
  serverWaits : y = .send .wait ∨ y = .recvWait → c = .nobody
  initialTest : x = .testInit → ∀ s, serverFlag ym s y = true → (s = .waitingContPrxy ↔ y = .lock)
  proxyTest : x = .recvTest → ∀ s, serverFlag ym s y = true → s ≠ .complete
  proxyAgain : x = .again → ∀ s, serverFlag ym s y = true → (s = .complete ↔ ym = false)
  serverTest : y = .recvTest ∨ y = .signalTest ∨ y = .again →
    ∀ s, proxyFlag xm s x = true → (s = .complete ↔ x = .recvWaiting)
  serverRole : y = .send .role → ∀ s, proxyFlag xm s x = true → s = .complete
  proxyKeeps : ∀ t ∈ proxyNext xm c ym y x,
    x ≠ .send .map → x ≠ .read → pending t.1 t.2.1 t.2.2 y = pending x xm c y
  proxyEngaged : ∀ t ∈ proxyNext xm c ym y x, engaged t.1 y = true → engaged x y = true
  proxyOpens : ∀ t ∈ proxyNext xm c ym y x, opening t.1 = true → opening x = true
  proxySkips : ∀ t ∈ proxyNext xm c ym y x,
    early y = true → opening t.1 = false → x ≠ .testInit → opening x = false
  proxyUnanswered : ∀ t ∈ proxyNext xm c ym y x, unanswered y t.1 = true → unanswered y x = true
  proxyReplied : ∀ t ∈ proxyNext xm c ym y x, isSend y = true → inReply t.1 = true → inReply x = true
  proxyCloses : ∀ t ∈ proxyNext xm c ym y x, closing t.1 = true → x ≠ .again → closing x = true
  serverKeeps : ∀ t ∈ serverNext x c ym y,
    y ≠ .send .map → y ≠ .read → y ≠ .signalInit → pending x xm t.2.2 t.1 = pending x xm c y
  serverEngaged : ∀ t ∈ serverNext x c ym y, engaged x t.1 = true → engaged x y = true
  serverEarly : ∀ t ∈ serverNext x c ym y, y ≠ .signalInit → engaged x t.1 = true → early t.1 = early y
  serverFirst : ∀ t ∈ serverNext x c ym y, early t.1 = true → early y = true
  serverUnanswered : ∀ t ∈ serverNext x c ym y, unanswered t.1 x = true → unanswered y x = true
  serverReplied : ∀ t ∈ serverNext x c ym y, isSend t.1 = true → y ≠ .respond → isSend y = true
  proxyMaps : x = .send .map → pending x xm c y = .nothing ∧
    ∀ more, pending (.send .mark) more c y = .request
  proxyReads : x = .read →
    y = .send .waiting ∧ pending x xm c y = .response ∧ pending .forward xm c y = .nothing
  testsEarly : x = .testInit → engaged x y = true → early y = true
  proxyEnds : x = .again → y = .send .waiting ∧ pending x xm c y = .nothing
  proxyForwards : x = .forward → pending x xm c y = .nothing
  firstSignal : y = .signalInit →
    c = .proxy ∧ (x = .waitingInit ∨ x = .send .waiting ∨ x = .recvWaiting)
  ends : y = .busy → x = .recvWaiting
  responds : y = .respond → x = .recvWaiting
  progress : x ≠ .idle ∨ y ≠ .idle →
    proxyReady c y x = true ∨ serverReady c x y = true ∨ y = .idle ∧ posted x c = true
  sane : x ≠ .fatal ∧ y ≠ .fatal
  replies : inReply x = true → isSend y = true ∨ unanswered y x = true ∨ closing x = true
  starts : x = .idle → c = .nobody ∧ early y = false ∧ engaged .lock y = false ∧
    ∀ more, meets .lock more c ym y = true ∧ pending .lock more c y = .nothing
  claims : y = .idle → c ≠ .server ∧ ∀ s, proxyFlag xm s x = true → s = .waitingInitSrvr →
    opening x = true ∧ pending x xm c .mark = .nothing ∧ ∀ more, meets x xm c more .mark = true
  serverReads : y = .read → pending x xm c y = .request ∧ pending x xm c .signalTest = .nothing
  serverMaps : y = .send .map → inReply x = true ∧ pending x xm c y = .nothing ∧
    pending x xm c (.send .mark) = .response

set_option synthInstance.maxSize 2000 in
instance (x : ProxyPC) (xm : Bool) (c : Waiter) (ym : Bool) (y : ServerPC) :
    Decidable (Lawful x xm c ym y) := decidable_of_iff' _ (lawful_iff x xm c ym y)

theorem lawful : ∀ x xm c ym y, meets x xm c ym y = true → Lawful x xm c ym y := by
  decide +kernel

theorem idleFlag {ym : Bool} {y : ServerPC} (flag : serverFlag ym .idle y = true)
    (sane : y ≠ .fatal) : y = .idle := by
  cases y with
  | send pc => cases pc <;> cases ym <;> simp [serverFlag] at flag
  | fatal => exact absurd rfl sane
  | idle => rfl
  | _ => simp [serverFlag] at flag

end IttyBittyServer.Rendezvous
