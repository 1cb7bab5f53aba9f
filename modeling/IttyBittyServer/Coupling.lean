import IttyBittyServer.Rendezvous

/-! A proxy worker and a server worker at one memnode stand as `meets` says, hold the
mutex and wait on the condition as their points say, and find in each other's flag what
the other's point allows. Every step of either side is a move of the table. -/
namespace IttyBittyServer.Coupling
open MemList ProcessShared Rendezvous

def waiters (p i : Nat) : Waiter → List Tid
  | .nobody => []
  | .proxy => [.proxy p]
  | .server => [.server i]

def owner (p i : Nat) (x : ProxyPC) (y : ServerPC) : Option Tid :=
  if proxyHolds x then some (.proxy p) else if serverHolds y then some (.server i) else none

def sendAt (x : Send) (isServer : Bool) : SendPC → Prop
  | .role => x.totalBytes = 0 ∧ x.data ≠ []
  | .flag | .map => x.isServer = isServer ∧ x.totalBytes < x.data.length
  | .loop | .mark | .signal => x.isServer = isServer ∧ x.totalBytes ≤ x.data.length
  | .wait | .waiting => x.isServer = isServer ∧ x.totalBytes ≤ x.data.length ∧
    (isServer = false → x.totalBytes < x.data.length)
  | .returned => x.isServer = isServer ∧ x.totalBytes = x.data.length

def proxyAt (x : Proxy) : Prop :=
  match x.pc with
  | .idle | .fatal => True
  | .lock | .post | .testInit | .waitInit | .waitingInit => sendAt x.sending false .role
  | .send pc => sendAt x.sending false pc
  | _ => sendAt x.sending false .returned

def serverAt (y : Server) : Prop :=
  match y.pc with
  | .send pc => sendAt y.sending true pc
  | _ => True

structure Control (p i : Nat) (c : Waiter) (node : Memnode) (x : Proxy) (y : Server) : Prop where
  met : meets x.pc x.sending.more c y.sending.more y.pc = true
  condition : node.condition = waiters p i c
  mutex : node.mutex = owner p i x.pc y.pc
  proxyFlag : proxyFlag x.sending.more node.proxyState x.pc = true
  serverFlag : serverFlag y.sending.more node.serverState y.pc = true
  proxyAt : proxyAt x
  serverAt : serverAt y

theorem moreExact {x : Send} : x.more = true ↔ x.totalBytes < x.data.length := by
  simp [Send.more]

theorem toWriteExact (x : Send) :
    x.toWrite = min segmentSize (x.data.length - x.totalBytes) := by
  unfold Send.toWrite
  split <;> omega

theorem sendKeeps {me woken : Tid} {node next : Memnode} {x x' : Send} {pc pc' : SendPC}
    {isServer : Bool} (h : sendAt x isServer pc)
    (role : pc = .role → (node.proxyState = .complete ↔ isServer = true))
    (sends : SendMove me woken node x pc next pc' x') :
    sendAt x' isServer pc' ∧ x'.data = x.data := by
  cases sends with
  | role =>
    have same := role rfl
    have empty : x.totalBytes = 0 := h.1
    cases isServer <;> simp_all [sendAt]
  | loop =>
    cases more : x.more with
    | true => exact ⟨⟨h.1,moreExact.mp more⟩,rfl⟩
    | false =>
      have last : ¬ x.totalBytes < x.data.length := fun l => by simp [moreExact.mpr l] at more
      exact ⟨⟨h.1,Nat.le_antisymm h.2 (Nat.le_of_not_lt last)⟩,rfl⟩
  | map =>
    have size := toWriteExact x
    have below : x.totalBytes < x.data.length := h.2
    have within : x.totalBytes + x.toWrite ≤ x.data.length := by omega
    exact ⟨⟨h.1,within⟩,rfl⟩
  | signal woke =>
    cases more : x.more with
    | true => exact ⟨⟨h.1,h.2,fun _ => moreExact.mp more⟩,rfl⟩
    | false =>
      cases isServer with
      | true => simp [sendAt,h.1,h.2]
      | false => simp [sendAt,h.1,h.2]
  | waiting got => exact ⟨⟨h.1,h.2.1⟩,rfl⟩
  | flag
  | mark
  | wait => exact ⟨h,rfl⟩

section
variable {p i : Nat} {c c' : Waiter} {node next : Memnode} {x x' : Proxy} {y y' : Server}
  {woken : Tid}

theorem Control.law (h : Control p i c node x y) :
    Lawful x.pc x.sending.more c y.sending.more y.pc := lawful _ _ _ _ _ h.met

theorem Control.proxyFree (h : Control p i c node x y) (holds : serverHolds y.pc = true) :
    proxyHolds x.pc = false := by
  cases held : proxyHolds x.pc with
  | false => rfl
  | true => simp [h.law.oneHolds held] at holds

theorem signalEmpties (waits : node.condition = waiters p i c)
    (h : condSignal woken node = some next) : next = { node with condition := [] } := by
  unfold condSignal at h
  cases node
  cases c <;> simp_all [waiters]

theorem proxyAcquires (h : Control p i c node x y) (got : acquire (.proxy p) node = some next) :
    c ≠ .proxy ∧ serverHolds y.pc = false ∧ next = { node with mutex := some (.proxy p) } := by
  obtain ⟨outside,free,made⟩ := acquireExact got
  refine ⟨fun e => ?_,?_,made⟩
  · simp [h.condition,e,waiters] at outside
  · have unowned := h.mutex.symm.trans free
    unfold owner at unowned
    split at unowned <;> simp_all

theorem serverAcquires (h : Control p i c node x y) (got : acquire (.server i) node = some next) :
    c ≠ .server ∧ proxyHolds x.pc = false ∧ next = { node with mutex := some (.server i) } := by
  obtain ⟨outside,free,made⟩ := acquireExact got
  refine ⟨fun e => ?_,?_,made⟩
  · simp [h.condition,e,waiters] at outside
  · have unowned := h.mutex.symm.trans free
    unfold owner at unowned
    split at unowned <;> simp_all

theorem Control.proxyMove (h : Control p i c node x y)
    (moved : (x'.pc,x'.sending.more,c') ∈
      proxyNext x.sending.more c y.sending.more y.pc x.pc)
    (condition : next.condition = waiters p i c') (mutex : next.mutex = owner p i x'.pc y.pc)
    (flag : Rendezvous.proxyFlag x'.sending.more next.proxyState x'.pc = true)
    (same : next.serverState = node.serverState) (kept : Coupling.proxyAt x') :
    Control p i c' next x' y :=
  ⟨h.law.proxyMeets _ moved,condition,mutex,flag,same ▸ h.serverFlag,kept,h.serverAt⟩

theorem Control.serverMove (h : Control p i c node x y)
    (moved : (y'.pc,y'.sending.more,c') ∈ serverNext x.pc c y.sending.more y.pc)
    (condition : next.condition = waiters p i c') (mutex : next.mutex = owner p i x.pc y'.pc)
    (flag : Rendezvous.serverFlag y'.sending.more next.serverState y'.pc = true)
    (same : next.proxyState = node.proxyState) (kept : Coupling.serverAt y') :
    Control p i c' next x y' :=
  ⟨h.law.serverMeets _ moved,condition,mutex,same ▸ h.proxyFlag,flag,h.proxyAt,kept⟩

theorem proxyOwns (y : ServerPC) {x : ProxyPC} (holds : proxyHolds x = true) :
    owner p i x y = some (.proxy p) := by
  simp [owner,holds]

theorem serverOwns {x : ProxyPC} {y : ServerPC} (px : proxyHolds x = false)
    (holds : serverHolds y = true) : owner p i x y = some (.server i) := by
  simp [owner,px,holds]

theorem nobodyOwns {x : ProxyPC} {y : ServerPC} (px : proxyHolds x = false)
    (sy : serverHolds y = false) : owner p i x y = none := by
  simp [owner,px,sy]

theorem Control.proxyInside (h : Control p i c node x y)
    (moved : (x'.pc,x'.sending.more,c) ∈ proxyNext x.sending.more c y.sending.more y.pc x.pc)
    (inside : proxyHolds x.pc = true) (inside' : proxyHolds x'.pc = true)
    (condition : next.condition = node.condition) (mutex : next.mutex = node.mutex)
    (flag : Rendezvous.proxyFlag x'.sending.more next.proxyState x'.pc = true)
    (same : next.serverState = node.serverState) (kept : Coupling.proxyAt x') :
    ∃ c', Control p i c' next x' y ∧
      (x'.pc,x'.sending.more,c') ∈ proxyNext x.sending.more c y.sending.more y.pc x.pc := by
  have owned : node.mutex = owner p i x'.pc y.pc :=
    h.mutex.trans ((proxyOwns _ inside).trans (proxyOwns _ inside').symm)
  exact ⟨c,h.proxyMove moved (condition.trans h.condition) (mutex.trans owned) flag same kept,moved⟩

theorem Control.proxyEnters (h : Control p i c node x y) (got : acquire (.proxy p) node = some next)
    (moved : c ≠ .proxy → serverHolds y.pc = false →
      (x'.pc,x'.sending.more,c) ∈ proxyNext x.sending.more c y.sending.more y.pc x.pc)
    (inside' : proxyHolds x'.pc = true)
    (flag : Rendezvous.proxyFlag x'.sending.more node.proxyState x'.pc = true) (kept : Coupling.proxyAt x') :
    ∃ c', Control p i c' next x' y ∧
      (x'.pc,x'.sending.more,c') ∈ proxyNext x.sending.more c y.sending.more y.pc x.pc := by
  obtain ⟨outside,unheld,rfl⟩ := proxyAcquires h got
  have moved := moved outside unheld
  exact ⟨c,h.proxyMove moved h.condition (proxyOwns _ inside').symm flag rfl kept,moved⟩

theorem Control.proxyRests (h : Control p i c node x y)
    (moved : (x'.pc,x'.sending.more,.proxy) ∈ proxyNext x.sending.more c y.sending.more y.pc x.pc)
    (inside : proxyHolds x.pc = true) (waits : x.pc = .waitInit ∨ x.pc = .send .wait ∨ x.pc = .recvWait)
    (outside : proxyHolds x'.pc = false)
    (flag : Rendezvous.proxyFlag x'.sending.more node.proxyState x'.pc = true) (kept : Coupling.proxyAt x') :
    ∃ c', Control p i c' (condWait (.proxy p) node) x' y ∧
      (x'.pc,x'.sending.more,c') ∈ proxyNext x.sending.more c y.sending.more y.pc x.pc := by
  have first : c = .nobody := h.law.proxyWaits waits
  have condition : (condWait (.proxy p) node).condition = waiters p i .proxy := by
    simp [condWait,h.condition,first,waiters]
  exact ⟨.proxy,h.proxyMove moved condition (nobodyOwns outside (h.law.oneHolds inside)).symm flag rfl kept,moved⟩

theorem Control.serverInside (h : Control p i c node x y)
    (moved : (y'.pc,y'.sending.more,c) ∈ serverNext x.pc c y.sending.more y.pc)
    (inside : serverHolds y.pc = true) (inside' : serverHolds y'.pc = true)
    (condition : next.condition = node.condition) (mutex : next.mutex = node.mutex)
    (flag : Rendezvous.serverFlag y'.sending.more next.serverState y'.pc = true)
    (same : next.proxyState = node.proxyState) (kept : Coupling.serverAt y') :
    ∃ c', Control p i c' next x y' ∧
      (y'.pc,y'.sending.more,c') ∈ serverNext x.pc c y.sending.more y.pc := by
  have free := h.proxyFree inside
  have owned : node.mutex = owner p i x.pc y'.pc :=
    h.mutex.trans ((serverOwns free inside).trans (serverOwns free inside').symm)
  exact ⟨c,h.serverMove moved (condition.trans h.condition) (mutex.trans owned) flag same kept,moved⟩

theorem Control.serverEnters (h : Control p i c node x y) (got : acquire (.server i) node = some next)
    (moved : c ≠ .server → proxyHolds x.pc = false →
      (y'.pc,y'.sending.more,c) ∈ serverNext x.pc c y.sending.more y.pc)
    (inside' : serverHolds y'.pc = true)
    (flag : Rendezvous.serverFlag y'.sending.more node.serverState y'.pc = true) (kept : Coupling.serverAt y') :
    ∃ c', Control p i c' next x y' ∧
      (y'.pc,y'.sending.more,c') ∈ serverNext x.pc c y.sending.more y.pc := by
  obtain ⟨outside,unheld,rfl⟩ := serverAcquires h got
  have moved := moved outside unheld
  exact ⟨c,h.serverMove moved h.condition (serverOwns unheld inside').symm flag rfl kept,moved⟩

theorem Control.serverRests (h : Control p i c node x y)
    (moved : (y'.pc,y'.sending.more,.server) ∈ serverNext x.pc c y.sending.more y.pc)
    (inside : serverHolds y.pc = true) (waits : y.pc = .send .wait ∨ y.pc = .recvWait)
    (outside : serverHolds y'.pc = false)
    (flag : Rendezvous.serverFlag y'.sending.more node.serverState y'.pc = true) (kept : Coupling.serverAt y') :
    ∃ c', Control p i c' (condWait (.server i) node) x y' ∧
      (y'.pc,y'.sending.more,c') ∈ serverNext x.pc c y.sending.more y.pc := by
  have first : c = .nobody := h.law.serverWaits waits
  have condition : (condWait (.server i) node).condition = waiters p i .server := by
    simp [condWait,h.condition,first,waiters]
  exact ⟨.server,h.serverMove moved condition (nobodyOwns (h.proxyFree inside) outside).symm flag rfl kept,moved⟩

theorem Control.proxySignals (h : Control p i c node x y) (woke : condSignal woken node = some next)
    (moved : (x'.pc,x'.sending.more,.nobody) ∈ proxyNext x.sending.more c y.sending.more y.pc x.pc)
    (inside : proxyHolds x.pc = true) (inside' : proxyHolds x'.pc = true)
    (flag : Rendezvous.proxyFlag x'.sending.more node.proxyState x'.pc = true) (kept : Coupling.proxyAt x') :
    ∃ c', Control p i c' next x' y ∧
      (x'.pc,x'.sending.more,c') ∈ proxyNext x.sending.more c y.sending.more y.pc x.pc := by
  obtain rfl := signalEmpties h.condition woke
  have owned : node.mutex = owner p i x'.pc y.pc :=
    h.mutex.trans ((proxyOwns _ inside).trans (proxyOwns _ inside').symm)
  exact ⟨.nobody,h.proxyMove moved rfl owned flag rfl kept,moved⟩

theorem Control.serverSignals (h : Control p i c node x y) (woke : condSignal woken node = some next)
    (moved : (y'.pc,y'.sending.more,.nobody) ∈ serverNext x.pc c y.sending.more y.pc)
    (inside : serverHolds y.pc = true) (inside' : serverHolds y'.pc = true)
    (flag : Rendezvous.serverFlag y'.sending.more node.serverState y'.pc = true) (kept : Coupling.serverAt y') :
    ∃ c', Control p i c' next x y' ∧
      (y'.pc,y'.sending.more,c') ∈ serverNext x.pc c y.sending.more y.pc := by
  have free := h.proxyFree inside
  obtain rfl := signalEmpties h.condition woke
  have owned : node.mutex = owner p i x.pc y'.pc :=
    h.mutex.trans ((serverOwns free inside).trans (serverOwns free inside').symm)
  exact ⟨.nobody,h.serverMove moved rfl owned flag rfl kept,moved⟩

theorem proxySend {pc pc' : SendPC} {sending : Send} (point : x.pc = .send pc)
    (h : Control p i c node x y) (sends : SendMove (.proxy p) woken node x.sending pc next pc' sending) :
    ∃ c', Control p i c' next { x with pc := .send pc', sending } y ∧
      (.send pc',sending.more,c') ∈ proxyNext x.sending.more c y.sending.more y.pc x.pc := by
  have here : sendAt x.sending false pc := by simpa [Coupling.proxyAt,point] using h.proxyAt
  have flag : Rendezvous.proxyFlag x.sending.more node.proxyState (.send pc) = true :=
    point ▸ h.proxyFlag
  have kept := (sendKeeps here (fun e => by subst e; simp_all [Rendezvous.proxyFlag]) sends).1
  have inside : pc ≠ .waiting → proxyHolds x.pc = true := fun e => by
    rw [point]
    cases pc <;> simp_all [proxyHolds]
  cases sends with
  | role =>
    have more : x.sending.more = true := by
      simpa [moreExact,here.1,List.length_pos_iff] using here.2
    have moved : (ProxyPC.send .loop,x.sending.more,c) ∈
        proxyNext x.sending.more c y.sending.more y.pc x.pc := by
      simp [proxyNext,point,more]
    refine h.proxyInside moved (inside (by simp)) rfl rfl rfl ?_ rfl kept
    simp_all [Rendezvous.proxyFlag,Send.more]
  | loop =>
    have moved : (ProxyPC.send (if x.sending.more then .flag else .returned),x.sending.more,c) ∈
        proxyNext x.sending.more c y.sending.more y.pc x.pc := by
      simp [proxyNext,point]
    refine h.proxyInside moved (inside (by simp)) (by dsimp only; split <;> rfl) rfl rfl ?_ rfl kept
    cases more : x.sending.more <;> simp_all [Rendezvous.proxyFlag]
  | flag =>
    have moved : (ProxyPC.send .map,x.sending.more,c) ∈
        proxyNext x.sending.more c y.sending.more y.pc x.pc := by
      simp [proxyNext,point]
    rw [setState,here.1]
    exact h.proxyInside moved (inside (by simp)) rfl rfl rfl rfl rfl kept
  | map =>
    have moved (more : Bool) : (ProxyPC.send .mark,more,c) ∈
        proxyNext x.sending.more c y.sending.more y.pc x.pc := by
      cases more <;> simp [proxyNext,point]
    exact h.proxyInside (moved _) (inside (by simp)) rfl rfl rfl flag rfl kept
  | mark =>
    have moved : (ProxyPC.send .signal,x.sending.more,c) ∈
        proxyNext x.sending.more c y.sending.more y.pc x.pc := by
      simp [proxyNext,point]
    rw [setState,here.1]
    refine h.proxyInside moved (inside (by simp)) rfl rfl rfl ?_ rfl kept
    cases more : x.sending.more <;> simp [Rendezvous.proxyFlag]
  | signal woke =>
    have moved : (ProxyPC.send (if x.sending.more || x.sending.isServer then .wait else .loop),
        x.sending.more,Waiter.nobody) ∈
        proxyNext x.sending.more c y.sending.more y.pc x.pc := by
      simp [proxyNext,point,here.1]
    refine h.proxySignals woke moved (inside (by simp)) (by dsimp only; split <;> rfl) ?_ kept
    cases more : x.sending.more <;> simp_all [Rendezvous.proxyFlag,here.1]
  | wait =>
    have moved : (ProxyPC.send .waiting,x.sending.more,Waiter.proxy) ∈
        proxyNext x.sending.more c y.sending.more y.pc x.pc := by
      simp [proxyNext,point]
    exact h.proxyRests moved (inside (by simp)) (.inr (.inl point)) rfl flag kept
  | waiting got =>
    have more : x.sending.more = true := moreExact.mpr (here.2.2 rfl)
    refine h.proxyEnters got (fun outside unheld => ?_) rfl ?_ kept
    · simp [proxyNext,point,outside,unheld,more]
    · simp_all [Rendezvous.proxyFlag]

theorem proxyControl {sent : Nat} (h : Control p i c node x y)
    (filled : x.pc = .read → node.spaceUsed ≠ 0)
    (step : sharedProxy p woken sent node x = some (next,x')) :
    ∃ c', Control p i c' next x' y ∧ (x'.pc,x'.sending.more,c') ∈
      proxyNext x.sending.more c y.sending.more y.pc x.pc := by
  have held := h.proxyAt
  have flag := h.proxyFlag
  have inside : ∀ {pc}, x.pc = pc → proxyHolds pc = true → proxyHolds x.pc = true := fun same holds => same ▸ holds
  unfold Coupling.proxyAt at held
  cases proxyMove step with
  | lock point got =>
    simp only [point] at held flag
    refine h.proxyEnters got (fun _ unheld => ?_) rfl flag held
    simp [proxyNext,point,unheld]
  | post point =>
    have moved : (ProxyPC.testInit,x.sending.more,c) ∈
        proxyNext x.sending.more c y.sending.more y.pc x.pc := by simp [proxyNext,point]
    simp only [point] at held
    exact h.proxyInside moved (inside point rfl) rfl rfl rfl rfl rfl held
  | waits point initial =>
    simp only [point] at held flag
    have test := h.law.initialTest point _ h.serverFlag
    have moved : (ProxyPC.waitInit,x.sending.more,c) ∈
        proxyNext x.sending.more c y.sending.more y.pc x.pc := by simp_all [proxyNext]
    exact h.proxyInside moved (inside point rfl) rfl rfl rfl flag rfl held
  | skips point initial =>
    simp only [point] at held flag
    have test := h.law.initialTest point _ h.serverFlag
    have moved : (ProxyPC.send .role,x.sending.more,c) ∈
        proxyNext x.sending.more c y.sending.more y.pc x.pc := by simp_all [proxyNext]
    exact h.proxyInside moved (inside point rfl) rfl rfl rfl flag rfl held
  | waitInit point =>
    have moved : (ProxyPC.waitingInit,x.sending.more,Waiter.proxy) ∈
        proxyNext x.sending.more c y.sending.more y.pc x.pc := by simp [proxyNext,point]
    simp only [point] at held flag
    exact h.proxyRests moved (inside point rfl) (.inl point) rfl flag held
  | waitingInit point got =>
    simp only [point] at held flag
    refine h.proxyEnters got (fun outside unheld => ?_) rfl flag held
    simp [proxyNext,point,outside,unheld]
  | send point sends => exact proxySend point h sends
  | returned point =>
    have moved : (ProxyPC.recvTest,x.sending.more,c) ∈
        proxyNext x.sending.more c y.sending.more y.pc x.pc := by simp [proxyNext,point]
    simp only [point] at held flag
    exact h.proxyInside moved (inside point rfl) rfl rfl rfl flag rfl held
  | recvTest point =>
    simp only [point] at held flag
    have test := h.law.proxyTest point _ h.serverFlag
    have moved : (ProxyPC.recvWait,x.sending.more,c) ∈
        proxyNext x.sending.more c y.sending.more y.pc x.pc := by simp [proxyNext,point]
    simp only [test,ne_eq,not_false_eq_true,if_true]
    exact h.proxyInside moved (inside point rfl) rfl rfl rfl flag rfl held
  | recvWait point =>
    have moved : (ProxyPC.recvWaiting,x.sending.more,Waiter.proxy) ∈
        proxyNext x.sending.more c y.sending.more y.pc x.pc := by simp [proxyNext,point]
    simp only [point] at held flag
    exact h.proxyRests moved (inside point rfl) (.inr (.inr point)) rfl flag held
  | recvWaiting point got =>
    simp only [point] at held flag
    refine h.proxyEnters got (fun outside unheld => ?_) rfl flag held
    simp [proxyNext,point,outside,unheld]
  | read point got =>
    have moved : (ProxyPC.forward,x.sending.more,c) ∈
        proxyNext x.sending.more c y.sending.more y.pc x.pc := by simp [proxyNext,point]
    simp only [point] at held flag
    exact h.proxyInside moved (inside point rfl) rfl rfl rfl flag rfl held
  | fails point got => simp [receiveShared,filled point] at got
  | forward point =>
    have moved : (ProxyPC.signal,x.sending.more,c) ∈
        proxyNext x.sending.more c y.sending.more y.pc x.pc := by simp [proxyNext,point]
    simp only [point] at held flag
    exact h.proxyInside moved (inside point rfl) rfl rfl rfl flag rfl held
  | signal point woke =>
    have moved : (ProxyPC.again,x.sending.more,Waiter.nobody) ∈
        proxyNext x.sending.more c y.sending.more y.pc x.pc := by simp [proxyNext,point]
    simp only [point] at held flag
    exact h.proxySignals woke moved (inside point rfl) rfl flag held
  | again point =>
    simp only [point] at held flag
    have test := h.law.proxyAgain point _ h.serverFlag
    cases later : y.sending.more with
    | true =>
      have moved : (ProxyPC.recvTest,x.sending.more,c) ∈
          proxyNext x.sending.more c y.sending.more y.pc x.pc := by simp [proxyNext,point,later]
      simp only [test,later,ne_eq,Bool.true_eq_false,not_false_eq_true,if_true]
      exact later ▸ h.proxyInside moved (inside point rfl) rfl rfl rfl flag rfl held
    | false =>
      have moved : (ProxyPC.unlock,x.sending.more,c) ∈
          proxyNext x.sending.more c y.sending.more y.pc x.pc := by simp [proxyNext,point,later]
      simp only [test,later,ne_eq,not_true_eq_false,if_false]
      exact later ▸ h.proxyInside moved (inside point rfl) rfl rfl rfl flag rfl held
  | unlock point =>
    have moved : (ProxyPC.reset,x.sending.more,c) ∈
        proxyNext x.sending.more c y.sending.more y.pc x.pc := by simp [proxyNext,point]
    have free : serverHolds y.pc = false := h.law.oneHolds (inside point rfl)
    simp only [point] at held flag
    exact ⟨c,h.proxyMove moved h.condition (nobodyOwns rfl free).symm flag rfl held,moved⟩
  | reset point =>
    have moved : (ProxyPC.idle,x.sending.more,c) ∈
        proxyNext x.sending.more c y.sending.more y.pc x.pc := by simp [proxyNext,point]
    have mutex : node.mutex = owner p i .idle y.pc := h.mutex.trans (by simp [point,owner,proxyHolds])
    exact ⟨c,h.proxyMove moved h.condition mutex rfl rfl trivial,moved⟩

theorem serverSend {pc pc' : SendPC} {sending : Send} (point : y.pc = .send pc)
    (h : Control p i c node x y) (sends : SendMove (.server i) woken node y.sending pc next pc' sending) :
    ∃ c', Control p i c' next x { y with pc := .send pc', sending } ∧
      (.send pc',sending.more,c') ∈ serverNext x.pc c y.sending.more y.pc := by
  have here : sendAt y.sending true pc := by simpa [Coupling.serverAt,point] using h.serverAt
  have flag : Rendezvous.serverFlag y.sending.more node.serverState (.send pc) = true :=
    point ▸ h.serverFlag
  have kept := (sendKeeps here (fun e => by
    subst e; simp [h.law.serverRole point _ h.proxyFlag]) sends).1
  have inside : pc ≠ .waiting → serverHolds y.pc = true := fun e => by
    rw [point]
    cases pc <;> simp_all [serverHolds]
  cases sends with
  | role =>
    have more : y.sending.more = true := by
      simpa [moreExact,here.1,List.length_pos_iff] using here.2
    have moved : (ServerPC.send .loop,y.sending.more,c) ∈
        serverNext x.pc c y.sending.more y.pc := by simp [serverNext,point,more]
    refine h.serverInside moved (inside (by simp)) rfl rfl rfl ?_ rfl kept
    simp_all [Rendezvous.serverFlag,Send.more]
  | loop =>
    have moved : (ServerPC.send (if y.sending.more then .flag else .returned),y.sending.more,c) ∈
        serverNext x.pc c y.sending.more y.pc := by simp [serverNext,point]
    refine h.serverInside moved (inside (by simp)) (by dsimp only; split <;> rfl) rfl rfl ?_ rfl kept
    cases more : y.sending.more <;> simp_all [Rendezvous.serverFlag]
  | flag =>
    have moved : (ServerPC.send .map,y.sending.more,c) ∈
        serverNext x.pc c y.sending.more y.pc := by simp [serverNext,point]
    rw [setState,here.1]
    exact h.serverInside moved (inside (by simp)) rfl rfl rfl rfl rfl kept
  | map =>
    have moved (more : Bool) : (ServerPC.send .mark,more,c) ∈
        serverNext x.pc c y.sending.more y.pc := by cases more <;> simp [serverNext,point]
    exact h.serverInside (moved _) (inside (by simp)) rfl rfl rfl flag rfl kept
  | mark =>
    have moved : (ServerPC.send .signal,y.sending.more,c) ∈
        serverNext x.pc c y.sending.more y.pc := by simp [serverNext,point]
    rw [setState,here.1]
    refine h.serverInside moved (inside (by simp)) rfl rfl rfl ?_ rfl kept
    cases more : y.sending.more <;> simp [Rendezvous.serverFlag]
  | signal woke =>
    simp only [here.1,Bool.or_true,if_true] at kept ⊢
    have moved : (ServerPC.send .wait,y.sending.more,Waiter.nobody) ∈
        serverNext x.pc c y.sending.more y.pc := by simp [serverNext,point]
    exact h.serverSignals woke moved (inside (by simp)) rfl flag kept
  | wait =>
    have moved : (ServerPC.send .waiting,y.sending.more,Waiter.server) ∈
        serverNext x.pc c y.sending.more y.pc := by simp [serverNext,point]
    exact h.serverRests moved (inside (by simp)) (.inl point) rfl flag kept
  | waiting got =>
    refine h.serverEnters got (fun outside unheld => ?_) rfl ?_ kept
    · simp [serverNext,point,outside,unheld]
    · cases more : y.sending.more <;> simp_all [Rendezvous.serverFlag]

theorem Control.serverTests {a b : ServerPC} (h : Control p i c node x y) (inside : serverHolds y.pc = true)
    (moved : (if node.proxyState ≠ .complete then a else b,y.sending.more,c) ∈
      serverNext x.pc c y.sending.more y.pc)
    (goes : ∀ pc, pc = a ∨ pc = b → serverHolds pc = true ∧
      Rendezvous.serverFlag y.sending.more node.serverState pc = true ∧ Coupling.serverAt { y with pc }) :
    ∃ c', Control p i c' node x { y with pc := if node.proxyState ≠ .complete then a else b } ∧
      (if node.proxyState ≠ .complete then a else b,y.sending.more,c') ∈
        serverNext x.pc c y.sending.more y.pc := by
  obtain ⟨inside',flag,kept⟩ := goes (if node.proxyState ≠ .complete then a else b) (by
    split
    · exact .inl rfl
    · exact .inr rfl)
  exact h.serverInside moved inside inside' rfl rfl flag rfl kept

theorem serverControl {header body : List UInt8} (h : Control p i c node x y)
    (filled : y.pc = .read → node.spaceUsed ≠ 0)
    (step : handleClient i woken header body node y = some (next,y')) :
    ∃ c', Control p i c' next x y' ∧
      (y'.pc,y'.sending.more,c') ∈ serverNext x.pc c y.sending.more y.pc := by
  have flag := h.serverFlag
  have inside : ∀ {pc}, y.pc = pc → serverHolds pc = true → serverHolds y.pc = true := fun same holds => same ▸ holds
  cases serverMove step with
  | mark point =>
    have moved : (ServerPC.lock,y.sending.more,c) ∈
        serverNext x.pc c y.sending.more y.pc := by simp [serverNext,point]
    have mutex : node.mutex = owner p i x.pc .lock := h.mutex.trans (by simp [point,owner,serverHolds])
    exact ⟨c,h.serverMove moved h.condition mutex rfl rfl trivial,moved⟩
  | lock point got =>
    simp only [point] at flag
    refine h.serverEnters got (fun _ unheld => ?_) rfl flag trivial
    simp [serverNext,point,unheld]
  | signalInit point woke =>
    have moved : (ServerPC.recvTest,y.sending.more,Waiter.nobody) ∈
        serverNext x.pc c y.sending.more y.pc := by simp [serverNext,point]
    simp only [point] at flag
    exact h.serverSignals woke moved (inside point rfl) rfl flag trivial
  | recvTest point =>
    simp only [point] at flag
    have test := h.law.serverTest (.inl point) _ h.proxyFlag
    have moved : (if node.proxyState ≠ .complete then ServerPC.recvWait else .read,
        y.sending.more,c) ∈ serverNext x.pc c y.sending.more y.pc := by
      by_cases e : x.pc = .recvWaiting <;> simp [serverNext,point,test,e]
    exact h.serverTests (inside point rfl) moved (by rintro _ (rfl | rfl) <;> exact ⟨rfl,flag,trivial⟩)
  | recvWait point =>
    have moved : (ServerPC.recvWaiting,y.sending.more,Waiter.server) ∈
        serverNext x.pc c y.sending.more y.pc := by simp [serverNext,point]
    simp only [point] at flag
    exact h.serverRests moved (inside point rfl) (.inr point) rfl flag trivial
  | recvWaiting point got =>
    simp only [point] at flag
    refine h.serverEnters got (fun outside unheld => ?_) rfl flag trivial
    simp [serverNext,point,outside,unheld]
  | read point got =>
    have moved : (ServerPC.signalTest,y.sending.more,c) ∈
        serverNext x.pc c y.sending.more y.pc := by simp [serverNext,point]
    simp only [point] at flag
    exact h.serverInside moved (inside point rfl) rfl rfl rfl flag rfl trivial
  | fails point got => simp [receiveShared,filled point] at got
  | signalTest point =>
    simp only [point] at flag
    have test := h.law.serverTest (.inr (.inl point)) _ h.proxyFlag
    have moved : (if node.proxyState ≠ .complete then ServerPC.signal else .again,
        y.sending.more,c) ∈ serverNext x.pc c y.sending.more y.pc := by
      by_cases e : x.pc = .recvWaiting <;> simp [serverNext,point,test,e]
    exact h.serverTests (inside point rfl) moved (by rintro _ (rfl | rfl) <;> exact ⟨rfl,flag,trivial⟩)
  | signal point woke =>
    have moved : (ServerPC.again,y.sending.more,Waiter.nobody) ∈
        serverNext x.pc c y.sending.more y.pc := by simp [serverNext,point]
    simp only [point] at flag
    exact h.serverSignals woke moved (inside point rfl) rfl flag trivial
  | again point =>
    simp only [point] at flag
    have test := h.law.serverTest (.inr (.inr point)) _ h.proxyFlag
    have moved : (if node.proxyState ≠ .complete then ServerPC.recvTest else .busy,
        y.sending.more,c) ∈ serverNext x.pc c y.sending.more y.pc := by
      by_cases e : x.pc = .recvWaiting <;> simp [serverNext,point,test,e]
    exact h.serverTests (inside point rfl) moved (by rintro _ (rfl | rfl) <;> exact ⟨rfl,flag,trivial⟩)
  | busy point =>
    have moved : (ServerPC.respond,y.sending.more,c) ∈
        serverNext x.pc c y.sending.more y.pc := by simp [serverNext,point]
    exact h.serverInside moved (inside point rfl) rfl rfl rfl rfl rfl trivial
  | respond point full =>
    simp only [point] at flag
    have long : header ++ body ≠ [] := by simp [full]
    have more : (Send.call header body).more = true :=
      moreExact.mpr (List.length_pos_iff.mpr long)
    have moved : (ServerPC.send .role,(Send.call header body).more,c) ∈
        serverNext x.pc c y.sending.more y.pc := by simp [serverNext,point,more]
    exact h.serverInside moved (inside point rfl) rfl rfl rfl flag rfl ⟨rfl,long⟩
  | send point sends => exact serverSend point h sends
  | returned point =>
    have moved : (ServerPC.reset,y.sending.more,c) ∈
        serverNext x.pc c y.sending.more y.pc := by simp [serverNext,point]
    have free : proxyHolds x.pc = false := h.proxyFree (inside point rfl)
    simp only [point] at flag
    exact ⟨c,h.serverMove moved h.condition (nobodyOwns free rfl).symm flag rfl trivial,moved⟩
  | reset point =>
    have moved : (ServerPC.idle,y.sending.more,c) ∈
        serverNext x.pc c y.sending.more y.pc := by simp [serverNext,point]
    have mutex : node.mutex = owner p i x.pc .idle := h.mutex.trans (by simp [point,owner,serverHolds])
    exact ⟨c,h.serverMove moved h.condition mutex rfl rfl trivial,moved⟩

theorem Control.role (h : Control p i c node x y) {pc : SendPC} (point : x.pc = .send pc)
    (decided : pc ≠ .role) : x.sending.isServer = false := by
  have here : sendAt x.sending false pc := by simpa [Coupling.proxyAt,point] using h.proxyAt
  cases pc <;> first | exact here.1 | exact absurd rfl decided

theorem Control.serverRole (h : Control p i c node x y) {pc : SendPC} (point : y.pc = .send pc)
    (decided : pc ≠ .role) : y.sending.isServer = true := by
  have here : sendAt y.sending true pc := by simpa [Coupling.serverAt,point] using h.serverAt
  cases pc <;> first | exact here.1 | exact absurd rfl decided

theorem Control.serverStateKept {sent : Nat} (h : Control p i c node x y)
    (step : sharedProxy p woken sent node x = some (next,x')) :
    next.serverState = node.serverState := by
  rcases (proxyFlags step).2 with same | ⟨_,server,pc,point,decided⟩
  · exact same
  · simp [h.role point decided] at server

theorem sendMoves (me : Tid) (node : Memnode) (x : Send) {pc : SendPC} (here : pc ≠ .returned)
    (free : pc = .waiting → me ∉ node.condition ∧ node.mutex = none) :
    ∃ woken r, sendShared me woken node x pc = some r := by
  cases pc with
  | signal =>
    obtain ⟨woken,next,woke⟩ := signalPossible node
    exact ⟨woken,_,by simp only [sendShared,woke,bind,Option.bind_some]; rfl⟩
  | waiting =>
    obtain ⟨outside,unlocked⟩ := free rfl
    exact ⟨me,_,by
      simp only [sendShared,acquirePossible outside unlocked,bind,Option.bind_some]; rfl⟩
  | returned => exact absurd rfl here
  | _ => exact ⟨me,_,rfl⟩

theorem Control.proxyFreed (h : Control p i c node x y) (away : proxyHolds x.pc = false)
    (ready : c ≠ .proxy ∧ serverHolds y.pc = false) :
    Tid.proxy p ∉ node.condition ∧ node.mutex = none := by
  refine ⟨?_,h.mutex.trans (nobodyOwns away ready.2)⟩
  rw [h.condition]
  cases c <;> simp_all [waiters]

theorem Control.serverFreed (h : Control p i c node x y) (away : serverHolds y.pc = false)
    (ready : c ≠ .server ∧ proxyHolds x.pc = false) :
    Tid.server i ∉ node.condition ∧ node.mutex = none := by
  refine ⟨?_,h.mutex.trans (nobodyOwns ready.2 away)⟩
  rw [h.condition]
  cases c <;> simp_all [waiters]

theorem proxyMoves (h : Control p i c node x y) (ready : proxyReady c y.pc x.pc = true) :
    ∃ woken t, sharedProxy p woken 0 node x = some t := by
  have freed := h.proxyFreed
  cases point : x.pc with
  | idle | fatal => simp [point,proxyReady] at ready
  | lock | waitingInit | recvWaiting =>
    obtain ⟨outside,free⟩ := freed (by rw [point]; rfl) (by simpa [point,proxyReady] using ready)
    exact ⟨.proxy p,_,by
      simp only [sharedProxy,point,acquirePossible outside free,bind,Option.bind_some]; rfl⟩
  | send pc =>
    by_cases back : pc = .returned
    · exact ⟨.proxy p,_,by simp only [sharedProxy,point,back]; rfl⟩
    · obtain ⟨woken,r,sends⟩ := sendMoves (.proxy p) node x.sending back (fun e => by
        subst e
        exact freed (by rw [point]; rfl) (by simpa [point,proxyReady] using ready))
      refine ⟨woken,(r.1,{ x with pc := .send r.2.1, sending := r.2.2 }),?_⟩
      unfold sharedProxy
      cases pc <;> simp_all
  | signal =>
    obtain ⟨woken,next,woke⟩ := signalPossible node
    exact ⟨woken,_,by simp only [sharedProxy,point,woke,bind,Option.bind_some]; rfl⟩
  | testInit =>
    by_cases e : node.serverState = .waitingContPrxy
    · exact ⟨.proxy p,_,by simp only [sharedProxy,point,e]; rfl⟩
    · exact ⟨.proxy p,_,by simp only [sharedProxy,point,e,ne_eq,not_false_eq_true,if_true]; rfl⟩
  | read =>
    cases e : receiveShared node with
    | none => exact ⟨.proxy p,_,by simp only [sharedProxy,point,e]; rfl⟩
    | some data => exact ⟨.proxy p,_,by simp only [sharedProxy,point,e]; rfl⟩
  | _ => exact ⟨.proxy p,_,by simp only [sharedProxy,point]; rfl⟩

theorem serverMoves (h : Control p i c node x y) (ready : serverReady c x.pc y.pc = true)
    {header : List UInt8} (body : List UInt8) (full : header ≠ []) :
    ∃ woken t, handleClient i woken header body node y = some t := by
  have freed := h.serverFreed
  cases point : y.pc with
  | idle | fatal => simp [point,serverReady] at ready
  | lock | recvWaiting =>
    obtain ⟨outside,free⟩ := freed (by rw [point]; rfl) (by simpa [point,serverReady] using ready)
    exact ⟨.server i,_,by
      simp only [handleClient,point,acquirePossible outside free,bind,Option.bind_some]; rfl⟩
  | send pc =>
    by_cases back : pc = .returned
    · exact ⟨.server i,_,by simp only [handleClient,point,back]; rfl⟩
    · obtain ⟨woken,r,sends⟩ := sendMoves (.server i) node y.sending back (fun e => by
        subst e
        exact freed (by rw [point]; rfl) (by simpa [point,serverReady] using ready))
      refine ⟨woken,(r.1,{ y with pc := .send r.2.1, sending := r.2.2 }),?_⟩
      unfold handleClient
      cases pc <;> simp_all
  | signalInit | signal =>
    obtain ⟨woken,next,woke⟩ := signalPossible node
    exact ⟨woken,_,by simp only [handleClient,point,woke,bind,Option.bind_some]; rfl⟩
  | respond => exact ⟨.server i,_,by simp only [handleClient,point,full,if_false]; rfl⟩
  | read =>
    cases e : receiveShared node with
    | none => exact ⟨.server i,_,by simp only [handleClient,point,e]; rfl⟩
    | some data => exact ⟨.server i,_,by simp only [handleClient,point,e]; rfl⟩
  | _ => exact ⟨.server i,_,by simp only [handleClient,point]; rfl⟩

end

end IttyBittyServer.Coupling
