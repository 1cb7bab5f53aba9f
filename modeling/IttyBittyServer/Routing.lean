import IttyBittyServer.Memory
import IttyBittyServer.MemList
import IttyBittyServer.Startup

/-! How sharedProxy decides between the shared nodes and the sockets. inet_ntoa prints every
address into the one buffer that its thread has, and returns that buffer. -/
namespace IttyBittyServer.Routing
open Text Memory MemList
open Startup (Metanode)

structure InAddr where
  a : UInt8
  b : UInt8
  c : UInt8
  d : UInt8
  deriving DecidableEq, Repr

def InAddr.dotted (inp : InAddr) : List UInt8 :=
  decimal inp.a.toNat ++ [46] ++ decimal inp.b.toNat ++ [46] ++ decimal inp.c.toNat ++ [46] ++ decimal inp.d.toNat

/- What a worker sees: the flags, its thread's buffer, its request and the shared memory.
`hostAddr` is what this host's own name resolves to, if there is memory and it does. -/
structure World where
  optimized : Bool
  allocated : Bool
  resolves : Bool
  hostAddr : InAddr
  ntoa : List UInt8
  ntoaSize : ntoa.length = 18
  header : List UInt8
  shMeta : Metanode
  shList : Nat → Memnode

def inetNtoa (inp : InAddr) (w : World) : Option (Int × World) :=
  match h : snprintf w.ntoa 18 inp.dotted with
  | none => none
  | some ntoa => some (0,{ w with ntoa, ntoaSize := (writeLength h).trans w.ntoaSize })

def strcmp (b : List UInt8) (p q : Int) : Option Bool := do
  some ((← text b p) = (← text b q))

def findLoop (list : Nat → Memnode) (length : Nat) (s : StateT) (i : Nat) : Nat → Option Nat
  | 0 => none
  | left + 1 => match MemList.findState (fun i => (list i).proxyState) length s i with
    | .found i => some i
    | .null => none
    | .next i => findLoop list length s i left

def findState (list : Nat → Memnode) (length : Nat) (s : StateT) : Option Nat :=
  findLoop list length s 0 (length + 1)

inductive Entry where
  | returned (value : Int)
  | started (node : Nat)
  deriving DecidableEq, Repr

def sharedProxy (h : InAddr) (w : World) : Option (Entry × World) :=
  if ¬ w.optimized then some (.returned (-1),w)
  else if ¬ w.allocated then some (.returned (-1),w)
  else if ¬ w.resolves then some (.returned (-1),w)
  else do
    let (ip,w) ← inetNtoa w.hostAddr w
    let (other,w) ← inetNtoa h w
    if ¬ (← strcmp w.ntoa ip other) then some (.returned (-1),w)
    else if w.shMeta.serverFlag = .offline then some (.returned (-1),w)
    else match findState w.shList w.shMeta.numNodes .idle with
      | none => some (.returned (-1),w)
      | some node => some (.started node,w)

theorem findLoopExact {list : Nat → Memnode} {length : Nat} {s : StateT} {i left : Nat}
    (enough : length < i + left) :
    (∃ n, findLoop list length s i left = some n) ↔ ∃ n, i ≤ n ∧ n < length ∧ (list n).proxyState = s := by
  induction left generalizing i with
  | zero =>
    refine iff_of_false (fun ⟨n,h⟩ => by cases h) fun ⟨n,from_,below,_⟩ => ?_
    omega
  | succ left ih =>
    rw [findLoop,MemList.findState]
    by_cases inside : i < length
    · rw [if_pos inside]
      by_cases here : (list i).proxyState = s
      · rw [if_pos here]
        exact iff_of_true ⟨i,rfl⟩ ⟨i,Nat.le_refl _,inside,here⟩
      · rw [if_neg here]
        simp only [ih (show length < i + 1 + left by omega)]
        constructor
        · exact fun ⟨n,from_,found⟩ => ⟨n,Nat.le_of_succ_le from_,found⟩
        · rintro ⟨n,from_,below,found⟩
          refine ⟨n,Nat.lt_of_le_of_ne from_ fun same => here (same ▸ found),below,found⟩
    · rw [if_neg inside]
      refine iff_of_false (fun ⟨n,h⟩ => by cases h) fun ⟨n,from_,below,_⟩ => ?_
      omega

theorem findStateExact {list : Nat → Memnode} {length : Nat} {s : StateT} :
    (∃ n, findState list length s = some n) ↔ ∃ n, n < length ∧ (list n).proxyState = s := by
  rw [findState,findLoopExact (by omega)]
  simp

structure SameButNtoa (w w' : World) : Prop where
  hostAddr : w'.hostAddr = w.hostAddr
  header : w'.header = w.header
  shMeta : w'.shMeta = w.shMeta
  shList : w'.shList = w.shList

theorem inetNtoaPrints (inp : InAddr) (w : World) : ∃ w' s, inetNtoa inp w = some (0,w') ∧
    text w'.ntoa 0 = some s ∧ SameButNtoa w w' := by
  obtain ⟨rest,printed⟩ := snprintfHere inp.dotted (by decide) (show 18 ≤ w.ntoa.length by rw [w.ntoaSize])
  unfold inetNtoa
  split
  · rename_i failed
    cases failed.symm.trans printed
  · rename_i ntoa stored
    cases Option.some.inj (stored.symm.trans printed)
    exact ⟨_,_,rfl,textFront _ rest,rfl,rfl,rfl,rfl⟩

/- Both pointers are the buffer, and so what it held for the first address is not compared. -/
theorem sameBuffer (h : InAddr) (w : World) : ∃ w', SameButNtoa w w' ∧
    (do
      let (ip,w) ← inetNtoa w.hostAddr w
      let (other,w) ← inetNtoa h w
      some (← strcmp w.ntoa ip other,w)) = some (true,w') := by
  obtain ⟨w₁,_,first,_,same₁⟩ := inetNtoaPrints w.hostAddr w
  obtain ⟨w₂,s,second,held,same₂⟩ := inetNtoaPrints h w₁
  refine ⟨w₂,⟨same₂.hostAddr.trans same₁.hostAddr,same₂.header.trans same₁.header,
    same₂.shMeta.trans same₁.shMeta,same₂.shList.trans same₁.shList⟩,?_⟩
  simp [first,second,strcmp,held]

structure Local (h : InAddr) (w : World) : Prop where
  optimized : w.optimized = true
  online : w.shMeta.serverFlag = .online
  idle : ∃ n, n < w.shMeta.numNodes ∧ (w.shList n).proxyState = .idle
  here : h = w.hostAddr

def Routed (h : InAddr) (w : World) : Prop :=
  ∃ entry w', sharedProxy h w = some (entry,w') ∧
    ((∃ node, entry = .started node ∧ Local h w) ∨
      (entry = .returned (-1) ∧ w'.shList = w.shList ∧ w'.shMeta = w.shMeta ∧ w'.header = w.header))

theorem sharedProxyEnters (h : InAddr) {w : World} (optimized : w.optimized = true) (allocated : w.allocated = true)
    (resolves : w.resolves = true) : ∃ w', SameButNtoa w w' ∧ sharedProxy h w =
      some (if w.shMeta.serverFlag = .offline then .returned (-1)
        else (findState w.shList w.shMeta.numNodes .idle).elim (.returned (-1)) .started,w') := by
  obtain ⟨w',same,compared⟩ := sameBuffer h w
  refine ⟨w',same,?_⟩
  simp only [bind,Option.bind_eq_some_iff] at compared
  obtain ⟨⟨ip,w₁⟩,first,⟨other,w₂⟩,second,equal,compared,last⟩ := compared
  cases Option.some.inj last
  have sameMeta : w₂.shMeta = w.shMeta := same.shMeta
  have sameList : w₂.shList = w.shList := same.shList
  simp only [sharedProxy,optimized,allocated,resolves,not_true,if_false,bind,Option.bind_some,first,second,compared,
    sameMeta,sameList]
  split
  · rfl
  · cases findState w.shList w.shMeta.numNodes .idle <;> rfl

theorem routedAway {h : InAddr} {w w' : World} (same : SameButNtoa w w')
    (returned : sharedProxy h w = some (.returned (-1),w')) : Routed h w :=
  ⟨_,w',returned,.inr ⟨rfl,same.shList,same.shMeta,same.header⟩⟩

theorem routedEntered (h : InAddr) {w : World} (optimized : w.optimized = true) (allocated : w.allocated = true)
    (resolves : w.resolves = true) (online : w.shMeta.serverFlag = .online) : Routed h w ↔
      h = w.hostAddr ∨ ∀ n, n < w.shMeta.numNodes → (w.shList n).proxyState ≠ .idle := by
  obtain ⟨w',same,entered⟩ := sharedProxyEnters h optimized allocated resolves
  rw [online,if_neg (by simp)] at entered
  cases found : findState w.shList w.shMeta.numNodes .idle with
  | none =>
    rw [found] at entered
    refine iff_of_true (routedAway same entered) (.inr fun n below idle => ?_)
    obtain ⟨node,some_⟩ := findStateExact.mpr ⟨n,below,idle⟩
    cases found.symm.trans some_
  | some node =>
    have idle := findStateExact.mp ⟨node,found⟩
    rw [found] at entered
    constructor
    · rintro ⟨entry,w'',returned,⟨_,_,local_⟩ | ⟨away,_⟩⟩
      · exact .inl local_.here
      · rw [entered,away] at returned
        cases returned
    · rintro (here | none_)
      · exact ⟨_,w',entered,.inl ⟨node,rfl,optimized,online,idle,here⟩⟩
      · obtain ⟨n,below,state⟩ := idle
        exact absurd state (none_ n below)

/-- For a remote destination sharedProxy keeps off the shared nodes exactly when something
other than the address stops it. -/
theorem routedExact (h : InAddr) (w : World) : Routed h w ↔
    h = w.hostAddr ∨ w.optimized = false ∨ w.allocated = false ∨ w.resolves = false ∨
      w.shMeta.serverFlag = .offline ∨ ∀ n, n < w.shMeta.numNodes → (w.shList n).proxyState ≠ .idle := by
  have unchanged : SameButNtoa w w := ⟨rfl,rfl,rfl,rfl⟩
  cases optimized : w.optimized with
  | false => exact iff_of_true (routedAway unchanged (by simp [sharedProxy,optimized])) (.inr (.inl rfl))
  | true =>
  cases allocated : w.allocated with
  | false =>
    exact iff_of_true (routedAway unchanged (by simp [sharedProxy,optimized,allocated])) (.inr (.inr (.inl rfl)))
  | true =>
  cases resolves : w.resolves with
  | false =>
    exact iff_of_true (routedAway unchanged (by simp [sharedProxy,optimized,allocated,resolves]))
      (.inr (.inr (.inr (.inl rfl))))
  | true =>
  cases flag : w.shMeta.serverFlag with
  | offline =>
    obtain ⟨w',same,entered⟩ := sharedProxyEnters h optimized allocated resolves
    rw [if_pos flag] at entered
    exact iff_of_true (routedAway same entered) (.inr (.inr (.inr (.inr (.inl rfl)))))
  | online =>
    rw [routedEntered h optimized allocated resolves flag]
    simp

def twoHosts : World :=
  ⟨true,true,true,⟨127,0,0,1⟩,List.replicate 18 0,rfl,ascii "GET http://h/ HTTP/1.0\r\nHost: h\r\n\r\n",
    ⟨.online,.online,1⟩,fun _ => created⟩

theorem remoteServedHere : ¬ Routed ⟨10,0,0,1⟩ twoHosts := by
  rintro ⟨entry,w',returned,⟨_,_,local_⟩ | ⟨away,_⟩⟩
  · exact absurd local_.here (by decide)
  · have started : (sharedProxy ⟨10,0,0,1⟩ twoHosts).map Prod.fst = some (.started 0) := by decide +kernel
    rw [returned,away] at started
    cases started

end IttyBittyServer.Routing
