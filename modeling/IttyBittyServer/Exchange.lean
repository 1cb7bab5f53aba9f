import IttyBittyServer.Segment

/-! How long the exchanges over one memnode can take. What the two workers have left to do falls
with every step, in whatever order they take them; only a new request and its response add to
it, by their lengths. -/
namespace IttyBittyServer.Exchange
open MemList ProcessShared Rendezvous Coupling Transfer Segment Run

def chunks (length : Nat) : Nat := (length + (segmentSize - 1)) / segmentSize

def chunksLeft (x : Send) : Nat := chunks (x.data.length - x.totalBytes)

def proxySendLeft : SendPC → Nat
  | .role => 13
  | .loop => 12
  | .flag | .returned => 11
  | .map => 10
  | .mark => 16
  | .signal => 15
  | .wait => 14
  | .waiting => 13

def serverSendLeft : SendPC → Nat
  | .role | .waiting => 4
  | .loop => 3
  | .flag | .returned => 2
  | .map => 1
  | .mark => 7
  | .signal => 6
  | .wait => 5

/- A proxy that has a chunk to read goes round its loop once more. -/
def proxyLeft (chunk : Bool) : ProxyPC → Nat
  | .idle | .fatal => 0
  | .lock => 18
  | .post => 17
  | .testInit => 16
  | .waitInit => 15
  | .waitingInit => 14
  | .send pc => proxySendLeft pc
  | .recvTest => if chunk then 10 else 3
  | .recvWait => if chunk then 9 else 2
  | .recvWaiting => if chunk then 8 else 1
  | .read => if chunk then 7 else 0
  | .forward => 6
  | .signal => 5
  | .again => 4
  | .unlock => 2
  | .reset => 1

def serverLeft (chunk : Bool) : ServerPC → Nat
  | .idle | .fatal => 0
  | .mark => 9
  | .lock => if chunk then 15 else 8
  | .signalInit => if chunk then 14 else 7
  | .recvTest => if chunk then 13 else 6
  | .recvWait => if chunk then 12 else 5
  | .recvWaiting => if chunk then 11 else 4
  | .read => if chunk then 10 else 3
  | .signalTest => 9
  | .signal => 8
  | .again => 7
  | .busy => 6
  | .respond => 5
  | .send pc => serverSendLeft pc
  | .reset => 1

def claimLeft (x : ProxyPC) (y : ServerPC) : Nat :=
  if opening x && (y = .idle || y = .reset || isSend y) then 10 else 0

def meetLeft (x : ProxyPC) (xm : Bool) (c : Waiter) (y : ServerPC) : Nat :=
  proxyLeft (unanswered y x || pending x xm c y = .response) x +
    serverLeft (pending x xm c y = .request) y + claimLeft x y

def working : ServerPC → Bool
  | .idle | .reset | .fatal | .send _ => false
  | _ => true

def outstanding (x : ProxyPC) (y : ServerPC) : Nat := if opening x || working y then 1 else 0

@[mk_iff] structure Falls (x : ProxyPC) (xm : Bool) (c : Waiter) (ym : Bool) (y : ServerPC) : Prop where
  proxy : ∀ t ∈ proxyNext xm c ym y x,
    meetLeft t.1 t.2.1 t.2.2 y + 1 ≤ meetLeft x xm c y + 14 * if x = .send .map then 1 else 0
  server : ∀ t ∈ serverNext x c ym y,
    meetLeft x xm t.2.2 t.1 + 1 ≤ meetLeft x xm c y + 14 * if y = .send .map then 1 else 0
  claim : y = .idle → proxyFlag xm .waitingInitSrvr x = true → meetLeft x xm c .mark + 1 ≤ meetLeft x xm c y
  start : x = .idle → ∀ more, meetLeft .lock more c y ≤ meetLeft x xm c y + 28
  proxyKeeps : ∀ t ∈ proxyNext xm c ym y x, outstanding t.1 y = outstanding x y
  serverKeeps : ∀ t ∈ serverNext x c ym y, y ≠ .respond → outstanding x t.1 = outstanding x y
  answers : y = .respond → outstanding x y = 1 ∧ outstanding x (.send .role) = 0
  claims : y = .idle → proxyFlag xm .waitingInitSrvr x = true → outstanding x .mark = outstanding x y
  asks : x = .idle → outstanding x y = 0 ∧ outstanding .lock y = 1

set_option synthInstance.maxSize 2000 in
instance (x : ProxyPC) (xm : Bool) (c : Waiter) (ym : Bool) (y : ServerPC) : Decidable (Falls x xm c ym y) :=
  decidable_of_iff' _ (falls_iff x xm c ym y)

theorem falls : ∀ x xm c ym y, meets x xm c ym y = true → Falls x xm c ym y := by
  decide +kernel

section
variable {s t : State} {i : Nat} {c : Waiter} {x x' : Proxy} {y y' : Server} {node next : Memnode} {woken : Tid}

theorem waitersOnce {p i j : Nat} {c c' : Waiter} (h : waiters p i c = waiters p j c') : c = c' := by
  cases c <;> cases c' <;> simp_all [waiters]

theorem chunkWritten {x : Send} (more : x.totalBytes < x.data.length) :
    chunksLeft {x with totalBytes := x.totalBytes + x.toWrite} + 1 = chunksLeft x := by
  simp only [chunksLeft,chunks,toWriteExact]
  unfold segmentSize
  omega

theorem proxyChunks {sent : Nat} (held : proxyAt x) (moves : sharedProxy 0 woken sent node x = some (next,x')) :
    chunksLeft x'.sending + (if x.pc = .send .map then 1 else 0) = chunksLeft x.sending := by
  obtain ⟨_,data,_,_,kept⟩ := proxyFrame moves
  by_cases point : x.pc = .send .map
  · have more : x.sending.totalBytes < x.sending.data.length := by
      simp only [proxyAt,point] at held
      exact held.2
    simp only [sharedProxy,point,sendShared,bind,Option.bind_some,Option.some.injEq,Prod.mk.injEq] at moves
    obtain ⟨_,rfl⟩ := moves
    rw [if_pos point]
    exact chunkWritten more
  · rw [if_neg point]
    simp only [chunksLeft,data,(kept point).1]
    omega

theorem serverChunks {header body : List UInt8} (held : serverAt y)
    (moves : handleClient i woken header body node y = some (next,y')) :
    chunksLeft y'.sending + (if y.pc = .send .map then 1 else 0) ≤
      chunksLeft y.sending + if y.pc = .respond then chunks (header ++ body).length else 0 := by
  obtain ⟨_,kept,_⟩ := serverFrame moves
  by_cases point : y.pc = .send .map
  · have more : y.sending.totalBytes < y.sending.data.length := by
      simp only [serverAt,point] at held
      exact held.2
    simp only [handleClient,point,sendShared,bind,Option.bind_some,Option.some.injEq,Prod.mk.injEq] at moves
    obtain ⟨_,rfl⟩ := moves
    simp only [point,if_true,reduceCtorEq,if_false]
    exact Nat.le_of_eq (chunkWritten more)
  · by_cases answers : y.pc = .respond
    · simp only [handleClient,answers] at moves
      split at moves <;> try contradiction
      cases Option.some.inj moves
      simp [answers,chunksLeft,Send.call]
    · obtain ⟨data,bytes⟩ := kept answers
      simp [point,answers,chunksLeft,data,bytes point]

def left (s : State) (i : Nat) (c : Waiter) : Nat :=
  14 * chunksLeft s.proxy.sending + 14 * chunksLeft (s.servers i).sending +
    meetLeft s.proxy.pc s.proxy.sending.more c (s.servers i).pc

def brings (s : State) : Event → Nat
  | .start request => 29 + 14 * chunks request.length
  | .server i _ header body => 14 * if (s.servers i).pc = .respond then chunks (header ++ body).length else 0
  | _ => 0

def asks (_ : State) : Event → Nat
  | .start _ => 1
  | _ => 0

def answers (s : State) : Event → Nat
  | .server i _ _ _ => if (s.servers i).pc = .respond then 1 else 0
  | _ => 0

def Quiet (s : State) : Prop := ∀ e, (∀ request, e ≠ .start request) → step s e = none

def Left (s : State) (n : Nat) : Prop := ∃ i c, Inv s i c ∧ left s i c = n

def Outstanding (s : State) (n : Nat) : Prop := ∃ i c, Inv s i c ∧ outstanding s.proxy.pc (s.servers i).pc = n

theorem proxyPays {sent : Nat} (inv : Inv s i c) (h : step s (.proxy woken sent) = some t) :
    ∃ c', Inv t i c' ∧ left t i c' + 1 ≤ left s i c ∧
      outstanding t.proxy.pc (t.servers i).pc = outstanding s.proxy.pc (s.servers i).pc := by
  obtain ⟨d,later⟩ := proxyInv inv h
  simp only [step,bind,Option.bind_eq_some_iff,Option.some.injEq] at h
  obtain ⟨⟨node,proxy⟩,moves,rfl⟩ := h
  have control := inv.coupled.control
  obtain ⟨c',control',moved⟩ := proxyControl control
    (fun point => inv.coupled.filled (by simp [posts,(control.law.proxyReads point).2.1])) moves
  obtain rfl := waitersOnce (control'.condition.symm.trans later.coupled.control.condition)
  have falls := falls _ _ _ _ _ control.met
  have lower := falls.proxy _ moved
  have fewer := proxyChunks control.proxyAt moves
  refine ⟨c',later,?_,falls.proxyKeeps _ moved⟩
  simp only [left] at lower ⊢
  omega

theorem serverPays {j : Nat} {header body : List UInt8} (inv : Inv s i c)
    (h : step s (.server j woken header body) = some t) :
    ∃ c', Inv t i c' ∧ left t i c' + 1 ≤ left s i c + brings s (.server j woken header body) ∧
      outstanding t.proxy.pc (t.servers i).pc + answers s (.server j woken header body) =
        outstanding s.proxy.pc (s.servers i).pc := by
  obtain ⟨d,later⟩ := serverInv inv h
  simp only [step,bind,Option.bind_eq_some_iff,Option.some.injEq] at h
  obtain ⟨⟨node,server⟩,moves,rfl⟩ := h
  obtain rfl : j = i := Classical.byContradiction fun other => by
    simp [handleClient,inv.others j other] at moves
  have control := inv.coupled.control
  obtain ⟨c',control',moved⟩ := serverControl control
    (fun point => inv.coupled.filled (by simp [posts,(control.law.serverReads point).1])) moves
  have same : d = c' := waitersOnce (later.coupled.control.condition.symm.trans (by simpa using control'.condition))
  subst d
  have falls := falls _ _ _ _ _ control.met
  have lower := falls.server _ moved
  have fewer := serverChunks control.serverAt moves
  refine ⟨c',later,?_,?_⟩
  · simp only [left,brings,Function.update_self]
    dsimp only at lower
    omega
  · simp only [answers,Function.update_self]
    by_cases point : (s.servers j).pc = .respond
    · rw [point] at moved
      have next : server.pc = .send .role := congrArg Prod.fst (List.mem_singleton.mp moved)
      rw [if_pos point,next,(falls.answers point).1,(falls.answers point).2]
    · rw [if_neg point]
      exact falls.serverKeeps _ moved point

theorem claimPays {j : Nat} (inv : Inv s i c) (h : step s (.claim j) = some t) :
    ∃ c', Inv t j c' ∧ left t j c' + 1 ≤ left s i c ∧
      outstanding t.proxy.pc (t.servers j).pc = outstanding s.proxy.pc (s.servers i).pc := by
  obtain ⟨d,later⟩ := claimInv inv h
  simp only [step] at h
  split at h <;> try contradiction
  rename_i free
  obtain ⟨posted,unclaimed,resting⟩ := free
  cases Option.some.inj h
  have control := inv.coupled.control
  have same : c = d := waitersOnce (control.condition.symm.trans later.coupled.control.condition)
  subst d
  have idle : (s.servers i).pc = .idle := by
    have flag := control.serverFlag
    rw [unclaimed] at flag
    exact idleFlag flag control.law.sane.2
  have falls := falls _ _ _ _ _ control.met
  have flag := posted ▸ control.proxyFlag
  have lower := falls.claim idle flag
  have keeps := falls.claims idle flag
  refine ⟨c,later,?_,?_⟩
  · have none : chunksLeft Server.start.sending = 0 := rfl
    simp only [left,Function.update_self,none]
    have point : Server.start.pc = .mark := rfl
    rw [point]
    omega
  · rw [← keeps]
    simp [Server.start]

theorem startPays {request : List UInt8} (inv : Inv s i c) (h : step s (.start request) = some t) :
    Inv t i c ∧ left t i c + 1 ≤ left s i c + brings s (.start request) ∧
      outstanding t.proxy.pc (t.servers i).pc = outstanding s.proxy.pc (s.servers i).pc + 1 := by
  have later := startInv inv h
  simp only [step] at h
  split at h <;> try contradiction
  rename_i free
  cases Option.some.inj h
  have falls := falls _ _ _ _ _ inv.coupled.control.met
  have lower := falls.start free.1 (Proxy.start request).sending.more
  refine ⟨later,?_,?_⟩
  · have all : chunksLeft (Proxy.start request).sending = chunks request.length := by
      simp [Proxy.start,Send.call,chunksLeft]
    have point : (Proxy.start request).pc = .lock := rfl
    simp only [left,brings,all,point]
    omega
  · rw [(falls.asks free.1).1]
    exact (falls.asks free.1).2

theorem leftFalls {e : Event} {n : Nat} (held : Left s n) (h : step s e = some t) :
    ∃ m, Left t m ∧ m + 1 ≤ n + brings s e := by
  obtain ⟨i,c,inv,rfl⟩ := held
  cases e with
  | start request =>
    obtain ⟨later,lower,_⟩ := startPays inv h
    exact ⟨_,⟨i,c,later,rfl⟩,lower⟩
  | claim j =>
    obtain ⟨c',later,lower,_⟩ := claimPays inv h
    exact ⟨_,⟨j,c',later,rfl⟩,lower⟩
  | proxy woken sent =>
    obtain ⟨c',later,lower,_⟩ := proxyPays inv h
    exact ⟨_,⟨i,c',later,rfl⟩,lower⟩
  | server j woken header body =>
    obtain ⟨c',later,lower,_⟩ := serverPays inv h
    exact ⟨_,⟨i,c',later,rfl⟩,lower⟩

theorem outstandingKept {e : Event} {n : Nat} (held : Outstanding s n) (h : step s e = some t) :
    ∃ m, Outstanding t m ∧ m + answers s e = n + asks s e := by
  obtain ⟨i,c,inv,rfl⟩ := held
  cases e with
  | start request =>
    obtain ⟨later,_,more⟩ := startPays inv h
    exact ⟨_,⟨i,c,later,rfl⟩,more⟩
  | claim j =>
    obtain ⟨c',later,_,same⟩ := claimPays inv h
    exact ⟨_,⟨j,c',later,rfl⟩,same⟩
  | proxy woken sent =>
    obtain ⟨c',later,_,same⟩ := proxyPays inv h
    exact ⟨_,⟨i,c',later,rfl⟩,same⟩
  | server j woken header body =>
    obtain ⟨c',later,_,fewer⟩ := serverPays inv h
    exact ⟨_,⟨i,c',later,rfl⟩,fewer⟩

theorem quietExact (inv : Inv s i c) : Quiet s ↔ s.proxy.pc = .idle ∧ ∀ j, (s.servers j).pc = .idle := by
  constructor
  · intro quiet
    have rests : s.proxy.pc = .idle ∧ (s.servers i).pc = .idle := by
      by_contra open_
      obtain ⟨e,t,other,next⟩ := inv.moves (by tauto)
      simp [quiet e other] at next
    refine ⟨rests.1,fun j => ?_⟩
    by_cases same : j = i
    · exact same ▸ rests.2
    · exact inv.others j same
  · rintro ⟨proxy,servers⟩ e other
    have flag := inv.coupled.control.proxyFlag
    simp only [proxy,Rendezvous.proxyFlag,decide_eq_true_eq] at flag
    cases e with
    | start request => exact absurd rfl (other request)
    | claim j => simp [step,flag]
    | proxy woken sent => simp [step,sharedProxy,proxy]
    | server j woken header body => simp [step,handleClient,servers j]

end

end IttyBittyServer.Exchange
