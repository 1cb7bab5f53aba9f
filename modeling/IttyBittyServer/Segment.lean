import IttyBittyServer.Transfer
import IttyBittyServer.Run
import Mathlib.Logic.Function.Basic

/-! One memnode, one proxy worker that sends any number of requests in a row, and the
server workers, one of which claims the node as soon as a request is posted. -/
namespace IttyBittyServer.Segment
open MemList ProcessShared Rendezvous Coupling Transfer Run

/- `replied` is what a server has passed to sendShared for the request of this
transaction, behind the line that it answers. -/
structure State where
  node : Memnode
  proxy : Proxy
  servers : Nat → Server
  replied : Option (List UInt8 × List UInt8)

def initial : State := ⟨created,Proxy.rest,fun _ => Server.rest,none⟩

inductive Event where
  | start (request : List UInt8)
  | claim (i : Nat)
  | proxy (woken : Tid) (sent : Nat)
  | server (i : Nat) (woken : Tid) (header body : List UInt8)
  deriving DecidableEq, Repr

def step (s : State) : Event → Option State
  | .start request =>
    if s.proxy.pc = .idle ∧ request ≠ [] then
      some { s with proxy := .start request, replied := none }
    else none
  | .claim i =>
    if s.node.proxyState = .waitingInitSrvr ∧ s.node.serverState = .idle ∧
        (s.servers i).pc = .idle then
      some { s with
        node := { s.node with serverState := .busy }
        servers := Function.update s.servers i .start }
    else none
  | .proxy woken sent => do
    let (node,proxy) ← sharedProxy 0 woken sent s.node s.proxy
    some { s with node, proxy }
  | .server i woken header body => do
    let y := s.servers i
    let (node,y') ← handleClient i woken header body s.node y
    some { s with
      node
      servers := Function.update s.servers i y'
      replied := if y.pc = .respond then some (y.line,header ++ body) else s.replied }

structure Inv (s : State) (i : Nat) (c : Waiter) : Prop where
  others : ∀ j, j ≠ i → (s.servers j).pc = .idle
  coupled : Coupled 0 i c s.node s.proxy (s.servers i) s.replied
  unclaimed : (s.servers i).pc = .idle → s.node.serverState = .idle

def Shared (s : State) : Prop := ∃ i c, Inv s i c

theorem initialShared : Shared initial := ⟨0,.nobody,fun _ _ => rfl,createdCoupled,fun _ => rfl⟩

section
variable {s t : State} {i : Nat} {c : Waiter}

theorem proxyInv {woken : Tid} {sent : Nat} (inv : Inv s i c)
    (next : step s (.proxy woken sent) = some t) : ∃ c', Inv t i c' := by
  simp only [step,bind,Option.bind_eq_some_iff,Option.some.injEq] at next
  obtain ⟨⟨node,proxy⟩,moves,rfl⟩ := next
  obtain ⟨c',coupled⟩ := proxyCoupled inv.coupled moves
  exact ⟨c',inv.others,coupled,fun e =>
    (inv.coupled.control.serverStateKept moves).trans (inv.unclaimed e)⟩

theorem serverInv {j : Nat} {woken : Tid} {header body : List UInt8} (inv : Inv s i c)
    (next : step s (.server j woken header body) = some t) : ∃ c', Inv t i c' := by
  simp only [step,bind,Option.bind_eq_some_iff,Option.some.injEq] at next
  obtain ⟨⟨node,y'⟩,moves,rfl⟩ := next
  by_cases busy : j = i
  · subst busy
    obtain ⟨c',coupled⟩ := serverCoupled inv.coupled moves
    refine ⟨c',fun k e => ?_,?_,fun e => ?_⟩
    · simpa [e] using inv.others k e
    · simpa using coupled
    · have flags := serverFlags moves
      exact (flags.2.1 (flags.1 (by simpa using e))).2
  · simp [handleClient,inv.others j busy] at moves

theorem claimInv {j : Nat} (inv : Inv s i c) (next : step s (.claim j) = some t) :
    ∃ c', Inv t j c' := by
  simp only [step] at next
  split at next <;> try contradiction
  rename_i free
  obtain ⟨posted,unclaimed,resting⟩ := free
  cases Option.some.inj next
  have idle : (s.servers i).pc = .idle := by
    have flag := inv.coupled.control.serverFlag
    rw [unclaimed] at flag
    exact idleFlag flag inv.coupled.control.law.sane.2
  have marked := markedCoupled inv.coupled idle (.inr rfl : StateT.busy = .idle ∨ _)
  refine ⟨c,fun k e => ?_,?_,fun e => ?_⟩
  · by_cases same : k = i
    · subst same; simpa [e] using idle
    · simpa [e] using inv.others k same
  · simpa using claimCoupled marked idle posted rfl
  · simp [Server.start] at e

theorem startInv {request : List UInt8} (inv : Inv s i c)
    (next : step s (.start request) = some t) : Inv t i c := by
  simp only [step] at next
  split at next <;> try contradiction
  rename_i free
  cases Option.some.inj next
  exact ⟨inv.others,startCoupled inv.coupled free.1 free.2,inv.unclaimed⟩

theorem stepShared {e : Event} (shared : Shared s) (next : step s e = some t) : Shared t := by
  obtain ⟨i,c,inv⟩ := shared
  cases e with
  | start request => exact ⟨i,c,startInv inv next⟩
  | claim j => exact ⟨j,claimInv inv next⟩
  | proxy woken sent => exact ⟨i,proxyInv inv next⟩
  | server j woken header body => exact ⟨i,serverInv inv next⟩

theorem reached {es : List Event} (ran : run step initial es = some s) : Shared s :=
  everyRun initialShared (fun _ _ _ => stepShared) ran

theorem Inv.copies {j : Nat} (inv : Inv s i c) (reads : (s.servers j).pc = .read) :
    ((s.servers j).line ++ s.node.mem.take s.node.spaceUsed).length ≤ s.proxy.request.length := by
  obtain rfl : j = i := Classical.byContradiction fun other => by simp [inv.others j other] at reads
  exact inv.coupled.copyFits reads

theorem Inv.moves (inv : Inv s i c) (open_ : s.proxy.pc ≠ .idle ∨ (s.servers i).pc ≠ .idle) :
    ∃ e t, (∀ request, e ≠ .start request) ∧ step s e = some t := by
  rcases inv.coupled.control.law.progress open_ with ready | ready | ⟨idle,posted⟩
  · obtain ⟨woken,r,moves⟩ := proxyMoves inv.coupled.control ready
    exact ⟨.proxy woken 0,_,by simp,by simp only [step,moves,bind,Option.bind_some]; rfl⟩
  · obtain ⟨woken,r,moves⟩ := serverMoves inv.coupled.control ready [] (List.cons_ne_nil 0 [])
    exact ⟨.server i woken [0] [],_,by simp,by simp only [step,moves,bind,Option.bind_some]; rfl⟩
  · have flag := inv.coupled.control.proxyFlag
    have waiting : s.node.proxyState = .waitingInitSrvr := by
      cases point : s.proxy.pc <;> simp_all [Rendezvous.posted,Rendezvous.proxyFlag]
    exact ⟨.claim i,_,by simp,by simp only [step,waiting,inv.unclaimed idle,idle]; rfl⟩

end

structure Transferred (s : State) : Prop where
  response : closing s.proxy.pc = true → ∃ line, s.replied = some (line,s.proxy.received)
  soFar : inReply s.proxy.pc = true → ∀ line response, s.replied = some (line,response) →
    s.proxy.received <+: response
  proxyRole : ∀ pc, s.proxy.pc = .send pc → pc ≠ .role → s.proxy.sending.isServer = false
  serverRole : ∀ i pc, (s.servers i).pc = .send pc → pc ≠ .role →
    (s.servers i).sending.isServer = true
  proxyReads : s.proxy.pc ≠ .fatal
  serverReads : ∀ i, (s.servers i).pc ≠ .fatal
  progress : s.proxy.pc ≠ .idle ∨ (∃ i, (s.servers i).pc ≠ .idle) →
    ∃ e t, (∀ request, e ≠ .start request) ∧ step s e = some t

theorem responseTransferred {es : List Event} {s : State} (ran : run step initial es = some s) :
    Transferred s := by
  obtain ⟨i,c,inv⟩ := reached ran
  have busy {j : Nat} (e : (s.servers j).pc ≠ .idle) : j = i :=
    Classical.byContradiction fun other => e (inv.others j other)
  exact {
    response := fun e => ⟨_,inv.coupled.finished e⟩
    soFar := fun e line response answered => inv.coupled.soFar e answered
    proxyRole := fun _ point decided => inv.coupled.control.role point decided
    serverRole := fun j pc point decided => by
      obtain rfl := busy (by rw [point]; simp)
      exact inv.coupled.control.serverRole point decided
    proxyReads := inv.coupled.control.law.sane.1
    serverReads := fun j fatal => by
      obtain rfl := busy (by rw [fatal]; simp)
      exact inv.coupled.control.law.sane.2 fatal
    progress := fun open_ => inv.moves (open_.imp_right fun ⟨j,e⟩ => busy e ▸ e) }

def onceAround : List Event :=
  let proxy : Event := .proxy (.server 0) 2
  let server : Event := .server 0 (.proxy 0) [2] [3]
  [.start [1]] ++ List.replicate 4 proxy ++ [.claim 0] ++ List.replicate 5 server ++
    List.replicate 11 proxy ++ List.replicate 13 server ++ List.replicate 6 proxy

theorem responseTransferredOnce : ∃ s, run step initial onceAround = some s ∧
    s.proxy.pc = .reset ∧ s.replied = some ([1],[2,3]) ∧ s.proxy.received = [2,3] ∧
    Transferred s := by
  have ran : ((run step initial onceAround).map fun s =>
      (s.proxy.pc,s.replied,s.proxy.received)) = some (.reset,some ([1],[2,3]),[2,3]) := by
    decide +kernel
  obtain ⟨s,hs,same⟩ := Option.map_eq_some_iff.mp ran
  obtain ⟨point,replied,received⟩ := Prod.mk.inj same |>.imp_right Prod.mk.inj
  exact ⟨s,hs,point,replied,received,responseTransferred hs⟩

def inTime (s : State) : Event → Prop
  | .proxy _ _ => s.proxy.pc = .testInit → s.node.serverState = .waitingContPrxy →
    s.proxy.request.length ≤ segmentSize
  | _ => True

def Fits (s : State) : Prop := s.proxy.skipped = true → s.proxy.request.length ≤ segmentSize

theorem skipsExact {w sent : Nat} {woken : Tid} {node next : Memnode} {x x' : Proxy}
    (moves : sharedProxy w woken sent node x = some (next,x')) :
    x'.skipped = true ↔
      x.skipped = true ∨ x.pc = .testInit ∧ node.serverState = .waitingContPrxy := by
  cases point : x.pc with
  | testInit =>
    unfold sharedProxy at moves
    simp only [point] at moves
    split at moves <;> simp only [Option.some.injEq,Prod.mk.injEq] at moves <;>
      obtain ⟨rfl,rfl⟩ := moves <;> simp_all
  | _ =>
    rcases (proxyFrame moves).2.2.1 with kept | skipping
    · simp [kept.1]
    · cases point.symm.trans skipping.1

theorem stepFits {s t : State} {e : Event} (next : step s e = some t)
    (old : ∀ request, e ≠ .start request) :
    t.proxy.request = s.proxy.request ∧ (inTime s e ∧ Fits s ↔ Fits t) := by
  cases e with
  | start request => exact absurd rfl (old request)
  | claim j =>
    simp only [step] at next
    split at next <;> try contradiction
    cases Option.some.inj next
    simp [inTime,Fits]
  | server j woken header body =>
    simp only [step,bind,Option.bind_eq_some_iff,Option.some.injEq] at next
    obtain ⟨r,_,rfl⟩ := next
    simp [inTime,Fits]
  | proxy woken sent =>
    simp only [step,bind,Option.bind_eq_some_iff,Option.some.injEq] at next
    obtain ⟨⟨node,proxy⟩,moves,rfl⟩ := next
    have request := (proxyFrame moves).1
    refine ⟨request,?_⟩
    simp only [inTime,Fits,request,skipsExact moves]
    tauto

theorem runFits {s t : State} {es : List Event} (ran : run step s es = some t)
    (once : ∀ request, .start request ∉ es) :
    t.proxy.request = s.proxy.request ∧ (Along step inTime s es ∧ Fits s ↔ Fits t) := by
  induction es generalizing s with
  | nil => cases Option.some.inj ran; simp [Along]
  | cons e rest ih =>
    obtain ⟨u,next,later⟩ := runCons ran
    obtain ⟨request,fits⟩ := stepFits next fun q same => once q (same ▸ List.mem_cons_self)
    obtain ⟨request',fits'⟩ := ih later fun q mem => once q (List.mem_cons_of_mem _ mem)
    refine ⟨request'.trans request,?_⟩
    rw [← fits',← fits]
    simp only [Along,next,Option.some.injEq,forall_eq']
    tauto

theorem lineRead {s : State} {i : Nat} (shared : Shared s) (ended : (s.servers i).pc = .busy) :
    (s.servers i).line = s.proxy.request.drop (lost s.proxy) := by
  obtain ⟨j,c,inv⟩ := shared
  obtain rfl : i = j := Classical.byContradiction fun other => by
    simp [inv.others i other] at ended
  have last := inv.coupled.control.law.ends ended
  have line := inv.coupled.line (by rw [ended]; rfl)
  have here : sendAt s.proxy.sending false .returned := by
    simpa [Coupling.proxyAt,last] using inv.coupled.control.proxyAt
  have all : s.proxy.sending.totalBytes = s.proxy.request.length := inv.coupled.asked ▸ here.2
  have nothing : posts c s.proxy (s.servers i) = .nothing := by simp [posts,pending,ended]
  simpa [nothing,unread,ended,early,all] using line

theorem lostExact {x : Proxy} :
    x.request.drop (lost x) = x.request ↔ (x.skipped = true → x.request.length ≤ segmentSize) := by
  unfold lost
  split
  · rename_i loses
    constructor
    · intro same
      have shorter := congrArg List.length same
      rw [List.length_drop] at shorter
      have size := loses.2
      unfold segmentSize at shorter size
      omega
    · intro short
      have size := loses.2
      have short := short loses.1
      omega
  · rename_i keeps
    simp only [List.drop_zero,true_iff]
    intro skipped
    exact Nat.le_of_not_lt fun long => keeps ⟨skipped,long⟩

theorem requestExact {before es : List Event} {s t : State} {i : Nat}
    (reaches : run step initial before = some s) (posted : s.proxy.pc = .testInit)
    (ran : run step s es = some t) (once : ∀ request, .start request ∉ es)
    (ended : (t.servers i).pc = .busy) :
    (t.servers i).line = s.proxy.request ↔ Along step inTime s es := by
  obtain ⟨request,fits⟩ := runFits ran once
  have shared := reached reaches
  have waits : Fits s := by
    obtain ⟨j,c,inv⟩ := shared
    intro skipped
    rw [inv.coupled.opens (by rw [posted]; rfl)] at skipped
    cases skipped
  have total := reached (runAppend.mpr ⟨s,reaches,ran⟩)
  rw [lineRead total ended,← request,lostExact]
  exact fits.symm.trans ⟨fun e => e.1,fun e => ⟨e,waits⟩⟩

theorem requestExactOnce : ∃ s t, run step initial (onceAround.take 3) = some s ∧
    run step s ((onceAround.take 26).drop 3) = some t ∧
    ((t.servers 0).line = s.proxy.request ↔ Along step inTime s ((onceAround.take 26).drop 3)) := by
  have ran : ((run step initial (onceAround.take 3)).bind fun s =>
      (run step s ((onceAround.take 26).drop 3)).map fun t =>
        (s.proxy.pc,(t.servers 0).pc)) = some (.testInit,.busy) := by
    decide +kernel
  obtain ⟨s,hs,after⟩ := Option.bind_eq_some_iff.mp ran
  obtain ⟨t,ht,same⟩ := Option.map_eq_some_iff.mp after
  obtain ⟨posted,ended⟩ := Prod.mk.inj same
  exact ⟨s,t,hs,ht,requestExact hs posted ht (by simp [onceAround,List.replicate]) ended⟩

def proxyTurn : Event := .proxy (.server 0) 0

def serverTurn : Event := .server 0 (.proxy 0) [0] []

def overtaking (request : List UInt8) : List Event :=
  [.start request,proxyTurn,proxyTurn,.claim 0,serverTurn,proxyTurn] ++
    (List.replicate 7 proxyTurn ++ (List.replicate 4 serverTurn ++
      (List.replicate 5 proxyTurn ++ (List.replicate 5 proxyTurn ++ List.replicate 4 serverTurn))))

def stage (node : Memnode) (x : Proxy) (y : Server) : State :=
  ⟨node,x,Function.update (fun _ => Server.rest) 0 y,none⟩

def skipping (request : List UInt8) (pc : ProxyPC) (total : Nat) : Proxy :=
  ⟨pc,request,true,⟨request,total,false⟩,[]⟩

theorem skips (full : request ≠ []) :
    run step ⟨⟨mem,0,.idle,.idle,none,[]⟩,Proxy.rest,fun _ => Server.rest,none⟩
      [.start request,proxyTurn,proxyTurn,.claim 0,serverTurn,proxyTurn] =
    some (stage ⟨mem,0,.waitingInitSrvr,.waitingContPrxy,some (.proxy 0),[]⟩
      (skipping request (.send .role) 0) ⟨.lock,[],Send.call [] []⟩) := by
  simp [run,step,proxyTurn,serverTurn,full,sharedProxy,handleClient,acquire,stage,skipping,
    Proxy.start,Proxy.rest,Server.start,Server.rest,Send.call]

theorem postsFirst (opening : (Send.mk request 0 false).more = true)
    (first : (Send.mk request 0 false).toWrite = a)
    (between : (Send.mk request a false).more = true) :
    run step (stage ⟨mem,0,.waitingInitSrvr,.waitingContPrxy,some (.proxy 0),[]⟩
      (skipping request (.send .role) 0) ⟨.lock,[],Send.call [] []⟩) (List.replicate 7 proxyTurn) =
    some (stage { setMapping ⟨mem,0,.waitingContSrvr,.waitingContPrxy,none,[.proxy 0]⟩
        (request.take a) with proxyState := .waitingContSrvr }
      (skipping request (.send .waiting) a) ⟨.lock,[],Send.call [] []⟩) := by
  simp [List.replicate,run,step,proxyTurn,sharedProxy,sendShared,stage,skipping,opening,first,
    between,setState,setMapping,condSignal,condWait]

theorem wakesTooEarly {space : Nat} :
    run step (stage ⟨mem,space,.waitingContSrvr,.waitingContPrxy,none,[.proxy 0]⟩
      (skipping request (.send .waiting) a) ⟨.lock,[],Send.call [] []⟩) (List.replicate 4 serverTurn) =
    some (stage ⟨mem,space,.waitingContSrvr,.waitingContPrxy,none,[.server 0]⟩
      (skipping request (.send .waiting) a) ⟨.recvWaiting,[],Send.call [] []⟩) := by
  simp [List.replicate,run,step,serverTurn,handleClient,stage,acquire,condSignal,condWait]

theorem overwrites {space : Nat} (between : (Send.mk request a false).more = true)
    (second : (Send.mk request a false).toWrite = b)
    (last : (Send.mk request (a + b) false).more = false) :
    run step (stage ⟨mem,space,.waitingContSrvr,.waitingContPrxy,none,[.server 0]⟩
      (skipping request (.send .waiting) a) ⟨.recvWaiting,[],Send.call [] []⟩)
      (List.replicate 5 proxyTurn) =
    some (stage { setMapping ⟨mem,space,.busy,.waitingContPrxy,some (.proxy 0),[.server 0]⟩
        ((request.drop a).take b) with proxyState := .complete }
      (skipping request (.send .signal) (a + b)) ⟨.recvWaiting,[],Send.call [] []⟩) := by
  simp [List.replicate,run,step,proxyTurn,sharedProxy,sendShared,stage,skipping,between,second,
    last,setState,acquire,setMapping]

theorem completes {space : Nat} (last : (Send.mk request a false).more = false) :
    run step (stage ⟨mem,space,.complete,.waitingContPrxy,some (.proxy 0),[.server 0]⟩
      (skipping request (.send .signal) a) ⟨.recvWaiting,[],Send.call [] []⟩)
      (List.replicate 5 proxyTurn) =
    some (stage ⟨mem,space,.complete,.waitingContPrxy,none,[.proxy 0]⟩
      (skipping request .recvWaiting a) ⟨.recvWaiting,[],Send.call [] []⟩) := by
  simp [List.replicate,run,step,proxyTurn,sharedProxy,sendShared,stage,skipping,last,condSignal,
    condWait]

theorem readsLast {space : Nat} (full : space ≠ 0) :
    run step (stage ⟨mem,space,.complete,.waitingContPrxy,none,[.proxy 0]⟩
      (skipping request .recvWaiting a) ⟨.recvWaiting,[],Send.call [] []⟩)
      (List.replicate 4 serverTurn) =
    some (stage ⟨mem,space,.complete,.waitingContPrxy,some (.server 0),[.proxy 0]⟩
      (skipping request .recvWaiting a) ⟨.busy,mem.take space,Send.call [] []⟩) := by
  simp [List.replicate,run,step,serverTurn,handleClient,stage,skipping,acquire,receiveShared,full]


theorem overtakes {request : List UInt8} (long : segmentSize < request.length)
    (short : request.length ≤ 2 * segmentSize) :
    ∃ s, run step initial (overtaking request) = some s ∧ (s.servers 0).pc = .busy ∧
      s.proxy.request = request ∧ (s.servers 0).line.length ≤ request.length - segmentSize := by
  have full : request ≠ [] := fun e => by simp [e] at long
  have first : (Send.mk request 0 false).toWrite = segmentSize := by
    rw [toWriteExact]; simp only [Nat.sub_zero]; omega
  have second : (Send.mk request segmentSize false).toWrite = request.length - segmentSize := by
    rw [toWriteExact]; simp only; omega
  have sum : segmentSize + (request.length - segmentSize) = request.length := by omega
  have opening : (Send.mk request 0 false).more = true :=
    moreExact.mpr (Nat.lt_of_le_of_lt (Nat.zero_le _) long)
  have between : (Send.mk request segmentSize false).more = true := moreExact.mpr long
  have last : (Send.mk request (segmentSize + (request.length - segmentSize)) false).more = false := by
    simp [Send.more,sum]
  have size : ((request.drop segmentSize).take (request.length - segmentSize)).length =
      request.length - segmentSize := by simp
  refine ⟨_,runAppend.mpr ⟨_,skips full,runAppend.mpr ⟨_,postsFirst opening first between,
    runAppend.mpr ⟨_,wakesTooEarly,runAppend.mpr ⟨_,overwrites between second last,
      runAppend.mpr ⟨_,completes last,readsLast ?_⟩⟩⟩⟩⟩,rfl,rfl,?_⟩
  · simp only [setMapping,size]; omega
  · simp only [stage,Function.update_self,List.length_take,setMapping,size]
    exact Nat.min_le_left _ _

theorem overtakenChunk : ∃ request s, 1 ≤ request.length ∧ request.length ≤ 19999 ∧
    run step initial (overtaking request) = some s ∧ (s.servers 0).pc = .busy ∧
    s.proxy.request = request ∧ (s.servers 0).line ≠ request := by
  have size : (List.replicate 10001 (0 : UInt8)).length = 10001 := List.length_replicate
  obtain ⟨s,ran,ended,asked,short⟩ := @overtakes (List.replicate 10001 0)
    (by rw [size]; decide) (by rw [size]; decide)
  refine ⟨_,s,by omega,by omega,ran,ended,asked,fun same => ?_⟩
  rw [same,size] at short
  unfold segmentSize at short
  omega

end IttyBittyServer.Segment
