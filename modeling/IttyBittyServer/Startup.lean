import IttyBittyServer.Run
import Mathlib.Data.Option.Basic
import Mathlib.Logic.Function.Basic

/-! How an optimized server and an optimized proxy come to share a metanode and a list of
memnodes. A name refers to at most one object; an object that is created gets the size its
creator asks for, and one that is opened again keeps its size. Of the calls of
memOps_Create, those for the list may fail. -/
namespace IttyBittyServer.Startup
open Run

def numSegments : Nat := 10

inductive Flag where
  | offline
  | online
  deriving DecidableEq, Repr

structure Metanode where
  serverFlag : Flag
  proxyFlag : Flag
  numNodes : Nat
  deriving DecidableEq, Repr

/- `sizes` is the number of memnodes a list object was truncated to. -/
structure Objects where
  metas : Nat → Metanode
  sizes : Nat → Nat
  metaName : Option Nat
  listName : Option Nat
  fresh : Nat

inductive Outcome where
  | ok
  | open
  | truncate
  | map
  deriving DecidableEq, Repr

def Outcome.truncated (numNodes : Nat) : Outcome → Option Nat
  | .open => none
  | .truncate => some 0
  | .map | .ok => some numNodes

def Objects.addList (o : Objects) (size : Nat) : Objects :=
  { o with
    sizes := Function.update o.sizes o.fresh size
    listName := some o.fresh
    fresh := o.fresh + 1 }

def getMemList (o : Objects) (numNodes : Nat) (outcome : Outcome) : Objects × Option Nat :=
  match o.listName with
  | some l => (o,if outcome = .open ∨ outcome = .map then none else some l)
  | none =>
    match outcome.truncated numNodes with
    | none => (o,none)
    | some size => (o.addList size,if outcome = .ok then some o.fresh else none)

def getMetanode (o : Objects) : Objects × Nat :=
  match o.metaName with
  | some m => (o,m)
  | none => ({ o with
      metas := Function.update o.metas o.fresh ⟨.offline,.offline,0⟩
      metaName := some o.fresh
      fresh := o.fresh + 1 },o.fresh)

def Objects.setMeta (o : Objects) (m : Nat) (node : Metanode) : Objects :=
  { o with metas := Function.update o.metas m node }

/- Where initializeGlobals, or in the last cases cleanUpGlobals, has come to; `l` is shList
and `m` is shMeta. -/
inductive Server where
  | off
  | list (nodes : Nat) (again : Bool)
  | metanode (nodes l : Nat)
  | flag (nodes l m : Nat)
  | count (nodes l m : Nat)
  | on (l m : Nat)
  | destroyMeta (m : Nat)
  deriving DecidableEq, Repr

inductive Proxy where
  | off
  | test (m : Nat)
  | store (m : Nat)
  | read (m : Nat)
  | list (m numNodes : Nat)
  | flag (l m : Nat)
  | on (l m : Nat)
  | destroyList (m : Nat)
  | destroyMeta (m : Nat)
  deriving DecidableEq, Repr

def Server.shList : Server → Option Nat
  | .metanode _ l | .flag _ l _ | .count _ l _ | .on l _ => some l
  | _ => none

def Server.shMeta : Server → Option Nat
  | .flag _ _ m | .count _ _ m | .on _ m | .destroyMeta m => some m
  | _ => none

def Proxy.shList : Proxy → Option Nat
  | .flag l _ | .on l _ => some l
  | _ => none

def Proxy.shMeta : Proxy → Option Nat
  | .test m | .store m | .read m | .list m _ | .flag _ m | .on _ m => some m
  | .destroyList m | .destroyMeta m => some m
  | .off => none

structure State where
  objects : Objects
  server : Server
  proxy : Proxy

def initial : State := ⟨⟨fun _ => ⟨.offline,.offline,0⟩,fun _ => 0,none,none,0⟩,.off,.off⟩

inductive Event where
  | serverStart (numThreads : Nat)
  | serverList (outcome : Outcome)
  | serverMeta
  | serverFlag
  | serverCount
  | proxyStart
  | proxyTest
  | proxyStore
  | proxyRead
  | proxyList (outcome : Outcome)
  | proxyFlag
  deriving DecidableEq, Repr

def step (s : State) : Event → Option State
  | .serverStart numThreads =>
    if s.server = .off ∧ 1 ≤ numThreads then some { s with server := .list numThreads false } else none
  | .serverList outcome =>
    match s.server with
    | .list nodes again =>
      let (objects,shList) := getMemList s.objects nodes outcome
      some { s with
        objects
        server := match shList with
          | some l => .metanode nodes l
          | none => if again then .off else .list numSegments true }
    | _ => none
  | .serverMeta =>
    match s.server with
    | .metanode nodes l =>
      let (objects,m) := getMetanode s.objects
      some { s with objects, server := .flag nodes l m }
    | _ => none
  | .serverFlag =>
    match s.server with
    | .flag nodes l m => some { s with
        objects := s.objects.setMeta m { s.objects.metas m with serverFlag := .online }
        server := .count nodes l m }
    | _ => none
  | .serverCount =>
    match s.server with
    | .count nodes l m => some { s with
        objects := s.objects.setMeta m { s.objects.metas m with numNodes := nodes }
        server := .on l m }
    | _ => none
  | .proxyStart =>
    match s.proxy with
    | .off =>
      let (objects,m) := getMetanode s.objects
      some { s with objects, proxy := .test m }
    | _ => none
  | .proxyTest =>
    match s.proxy with
    | .test m => some { s with
        proxy := if (s.objects.metas m).serverFlag = .offline then .store m else .read m }
    | _ => none
  | .proxyStore =>
    match s.proxy with
    | .store m => some { s with
        objects := s.objects.setMeta m { s.objects.metas m with numNodes := numSegments }
        proxy := .read m }
    | _ => none
  | .proxyRead =>
    match s.proxy with
    | .read m => some { s with proxy := .list m (s.objects.metas m).numNodes }
    | _ => none
  | .proxyList outcome =>
    match s.proxy with
    | .list m numNodes =>
      let (objects,shList) := getMemList s.objects numNodes outcome
      some { s with
        objects
        proxy := match shList with
          | some l => .flag l m
          | none => .off }
    | _ => none
  | .proxyFlag =>
    match s.proxy with
    | .flag l m => some { s with
        objects := s.objects.setMeta m { s.objects.metas m with proxyFlag := .online }
        proxy := .on l m }
    | _ => none

/- findState stays within the list object, in either process and for whoever attaches next. -/
def Sized (s : State) : Prop := ∀ l m,
  s.objects.listName = some l ∧ s.objects.metaName = some m ∨
    s.server.shList = some l ∧ s.server.shMeta = some m ∨
    s.proxy.shList = some l ∧ s.proxy.shMeta = some m →
  (s.objects.metas m).numNodes ≤ s.objects.sizes l

def creates (s : State) : Event → Option Nat
  | .serverList outcome =>
    match s.server,s.objects.listName with
    | .list nodes _,none => outcome.truncated nodes
    | _,_ => none
  | .proxyList outcome =>
    match s.proxy,s.objects.listName with
    | .list _ numNodes,none => outcome.truncated numNodes
    | _,_ => none
  | _ => none

def stores (s : State) : Event → Option Nat
  | .serverCount =>
    match s.server with
    | .count nodes _ _ => some nodes
    | _ => none
  | .proxyStore => some numSegments
  | _ => none

def fitting (s : State) (e : Event) : Prop :=
  (∀ size m, creates s e = some size → s.objects.metaName = some m →
    (s.objects.metas m).numNodes ≤ size) ∧
  ∀ nodes l, stores s e = some nodes → s.objects.listName = some l → nodes ≤ s.objects.sizes l

def Named (o : Objects) : Prop := ∀ l m, o.listName = some l → o.metaName = some m →
  (o.metas m).numNodes ≤ o.sizes l

structure Inv (s : State) : Prop where
  serverList : ∀ l, s.server.shList = some l → s.objects.listName = some l
  serverMeta : ∀ m, s.server.shMeta = some m → s.objects.metaName = some m
  proxyList : ∀ l, s.proxy.shList = some l → s.objects.listName = some l
  proxyMeta : ∀ m, s.proxy.shMeta = some m → s.objects.metaName = some m

section
variable {s t : State}

theorem initialInv : Inv initial := by
  constructor <;> simp [initial,Server.shList,Server.shMeta,Proxy.shList,Proxy.shMeta]

/- Where nothing is unlinked, whoever is attached is attached to what the names refer to. -/
theorem sizedNamed (inv : Inv s) : Sized s ↔ Named s.objects := by
  constructor
  · exact fun sized l m list metanode => sized l m (.inl ⟨list,metanode⟩)
  · intro named l m attached
    rcases attached with ⟨list,metanode⟩ | ⟨list,metanode⟩ | ⟨list,metanode⟩
    · exact named l m list metanode
    · exact named l m (inv.serverList l list) (inv.serverMeta m metanode)
    · exact named l m (inv.proxyList l list) (inv.proxyMeta m metanode)

structure Grows (o o' : Objects) : Prop where
  list : ∀ l, o.listName = some l → o'.listName = some l
  metanode : ∀ m, o.metaName = some m → o'.metaName = some m

theorem growsSame (o : Objects) : Grows o o :=
  ⟨fun _ e => e,fun _ e => e⟩

theorem growsMeta (o : Objects) (m : Nat) (node : Metanode) : Grows o (o.setMeta m node) :=
  ⟨fun _ e => e,fun _ e => e⟩

theorem getMemListGrows (o : Objects) (numNodes : Nat) (outcome : Outcome) :
    Grows o (getMemList o numNodes outcome).1 := by
  unfold getMemList
  cases named : o.listName with
  | some l => exact growsSame o
  | none =>
    cases outcome.truncated numNodes with
    | none => exact growsSame o
    | some size =>
      refine ⟨fun l e => ?_,fun _ e => e⟩
      rw [named] at e; cases e

theorem getMemListNamed {o : Objects} {numNodes l : Nat} {outcome : Outcome}
    (got : (getMemList o numNodes outcome).2 = some l) :
    (getMemList o numNodes outcome).1.listName = some l := by
  unfold getMemList at got ⊢
  cases named : o.listName with
  | some l' =>
    simp only [named] at got ⊢
    split at got
    · cases got
    · exact got
  | none =>
    simp only [named] at got ⊢
    cases created : outcome.truncated numNodes with
    | none => simp [created] at got
    | some size =>
      simp only [created] at got ⊢
      split at got
      · exact got
      · cases got

theorem getMetanodeGrows (o : Objects) : Grows o (getMetanode o).1 := by
  unfold getMetanode
  cases named : o.metaName with
  | some m => exact growsSame o
  | none =>
    refine ⟨fun _ e => e,fun m e => ?_⟩
    rw [named] at e; cases e

theorem getMetanodeNamed (o : Objects) : (getMetanode o).1.metaName = some (getMetanode o).2 := by
  unfold getMetanode
  cases named : o.metaName <;> simp [named]

theorem Inv.grow {objects : Objects} {server : Server} {proxy : Proxy} (inv : Inv s)
    (grows : Grows s.objects objects)
    (serverList : ∀ l, server.shList = some l → s.server.shList = some l ∨ objects.listName = some l)
    (serverMeta : ∀ m, server.shMeta = some m → s.server.shMeta = some m ∨ objects.metaName = some m)
    (proxyList : ∀ l, proxy.shList = some l → s.proxy.shList = some l ∨ objects.listName = some l)
    (proxyMeta : ∀ m, proxy.shMeta = some m → s.proxy.shMeta = some m ∨ objects.metaName = some m) :
    Inv ⟨objects,server,proxy⟩ where
  serverList := fun l e => (serverList l e).elim (fun old => grows.list l (inv.serverList l old)) id
  serverMeta := fun m e =>
    (serverMeta m e).elim (fun old => grows.metanode m (inv.serverMeta m old)) id
  proxyList := fun l e => (proxyList l e).elim (fun old => grows.list l (inv.proxyList l old)) id
  proxyMeta := fun m e => (proxyMeta m e).elim (fun old => grows.metanode m (inv.proxyMeta m old)) id

inductive Move (s : State) : Event → State → Prop where
  | serverStart {numThreads} (free : s.server = .off) (some_ : 1 ≤ numThreads) :
      Move s (.serverStart numThreads) { s with server := .list numThreads false }
  | serverList {nodes again outcome l} (point : s.server = .list nodes again)
      (got : (getMemList s.objects nodes outcome).2 = some l) : Move s (.serverList outcome) { s with
        objects := (getMemList s.objects nodes outcome).1
        server := .metanode nodes l }
  | serverUnlisted {nodes again outcome} (point : s.server = .list nodes again)
      (got : (getMemList s.objects nodes outcome).2 = none) : Move s (.serverList outcome) { s with
        objects := (getMemList s.objects nodes outcome).1
        server := if again then .off else .list numSegments true }
  | serverMeta {nodes l} (point : s.server = .metanode nodes l) : Move s .serverMeta { s with
      objects := (getMetanode s.objects).1
      server := .flag nodes l (getMetanode s.objects).2 }
  | serverFlag {nodes l m} (point : s.server = .flag nodes l m) : Move s .serverFlag { s with
      objects := s.objects.setMeta m { s.objects.metas m with serverFlag := .online }
      server := .count nodes l m }
  | serverCount {nodes l m} (point : s.server = .count nodes l m) : Move s .serverCount { s with
      objects := s.objects.setMeta m { s.objects.metas m with numNodes := nodes }
      server := .on l m }
  | proxyStart (free : s.proxy = .off) : Move s .proxyStart { s with
      objects := (getMetanode s.objects).1
      proxy := .test (getMetanode s.objects).2 }
  | proxyOffline {m} (point : s.proxy = .test m) (flag : (s.objects.metas m).serverFlag = .offline) :
      Move s .proxyTest { s with proxy := .store m }
  | proxyOnline {m} (point : s.proxy = .test m) (flag : (s.objects.metas m).serverFlag ≠ .offline) :
      Move s .proxyTest { s with proxy := .read m }
  | proxyStore {m} (point : s.proxy = .store m) : Move s .proxyStore { s with
      objects := s.objects.setMeta m { s.objects.metas m with numNodes := numSegments }
      proxy := .read m }
  | proxyRead {m} (point : s.proxy = .read m) : Move s .proxyRead
      { s with proxy := .list m (s.objects.metas m).numNodes }
  | proxyList {m numNodes outcome l} (point : s.proxy = .list m numNodes)
      (got : (getMemList s.objects numNodes outcome).2 = some l) : Move s (.proxyList outcome) { s with
        objects := (getMemList s.objects numNodes outcome).1
        proxy := .flag l m }
  | proxyUnlisted {m numNodes outcome} (point : s.proxy = .list m numNodes)
      (got : (getMemList s.objects numNodes outcome).2 = none) : Move s (.proxyList outcome) { s with
        objects := (getMemList s.objects numNodes outcome).1
        proxy := .off }
  | proxyFlag {l m} (point : s.proxy = .flag l m) : Move s .proxyFlag { s with
      objects := s.objects.setMeta m { s.objects.metas m with proxyFlag := .online }
      proxy := .on l m }

theorem stepMove {e : Event} (next : step s e = some t) : Move s e t := by
  cases e with
  | serverStart numThreads =>
    simp only [step] at next
    split at next <;> try contradiction
    rename_i free
    cases Option.some.inj next
    exact .serverStart free.1 free.2
  | serverList outcome =>
    simp only [step] at next
    split at next <;> try contradiction
    rename_i nodes again point
    cases Option.some.inj next
    cases got : (getMemList s.objects nodes outcome).2 with
    | some l => exact .serverList point got
    | none => exact .serverUnlisted point got
  | serverMeta =>
    simp only [step] at next
    split at next <;> try contradiction
    rename_i point
    cases Option.some.inj next
    exact .serverMeta point
  | serverFlag =>
    simp only [step] at next
    split at next <;> try contradiction
    rename_i point
    cases Option.some.inj next
    exact .serverFlag point
  | serverCount =>
    simp only [step] at next
    split at next <;> try contradiction
    rename_i point
    cases Option.some.inj next
    exact .serverCount point
  | proxyStart =>
    simp only [step] at next
    split at next <;> try contradiction
    rename_i free
    cases Option.some.inj next
    exact .proxyStart free
  | proxyTest =>
    simp only [step] at next
    split at next <;> try contradiction
    rename_i m point
    cases Option.some.inj next
    split
    · exact .proxyOffline point (by assumption)
    · exact .proxyOnline point (by assumption)
  | proxyStore =>
    simp only [step] at next
    split at next <;> try contradiction
    rename_i point
    cases Option.some.inj next
    exact .proxyStore point
  | proxyRead =>
    simp only [step] at next
    split at next <;> try contradiction
    rename_i point
    cases Option.some.inj next
    exact .proxyRead point
  | proxyList outcome =>
    simp only [step] at next
    split at next <;> try contradiction
    rename_i m numNodes point
    cases Option.some.inj next
    cases got : (getMemList s.objects numNodes outcome).2 with
    | some l => exact .proxyList point got
    | none => exact .proxyUnlisted point got
  | proxyFlag =>
    simp only [step] at next
    split at next <;> try contradiction
    rename_i point
    cases Option.some.inj next
    exact .proxyFlag point

theorem stepInv {e : Event} (inv : Inv s) (next : step s e = some t) : Inv t := by
  cases stepMove next with
  | serverStart =>
    exact inv.grow (growsSame _) (by simp [Server.shList]) (by simp [Server.shMeta])
      (fun _ e => .inl e) (fun _ e => .inl e)
  | serverList point got =>
    exact inv.grow (getMemListGrows _ _ _) (fun l e => .inr (by cases e; exact getMemListNamed got))
      (by simp [Server.shMeta]) (fun _ e => .inl e) (fun _ e => .inl e)
  | @serverUnlisted _ again =>
    exact inv.grow (getMemListGrows _ _ _) (by cases again <;> simp [Server.shList])
      (by cases again <;> simp [Server.shMeta]) (fun _ e => .inl e) (fun _ e => .inl e)
  | serverMeta point =>
    exact inv.grow (getMetanodeGrows _) (by simp [point,Server.shList])
      (fun m e => .inr (by cases e; exact getMetanodeNamed _)) (fun _ e => .inl e) (fun _ e => .inl e)
  | serverFlag point | serverCount point =>
    exact inv.grow (growsMeta _ _ _) (by simp [point,Server.shList]) (by simp [point,Server.shMeta])
      (fun _ e => .inl e) (fun _ e => .inl e)
  | proxyStart =>
    exact inv.grow (getMetanodeGrows _) (fun _ e => .inl e) (fun _ e => .inl e)
      (by simp [Proxy.shList]) (fun m e => .inr (by cases e; exact getMetanodeNamed _))
  | proxyOffline point | proxyOnline point | proxyRead point =>
    exact inv.grow (growsSame _) (fun _ e => .inl e) (fun _ e => .inl e) (by simp [Proxy.shList])
      (by simp [point,Proxy.shMeta])
  | proxyStore point =>
    exact inv.grow (growsMeta _ _ _) (fun _ e => .inl e) (fun _ e => .inl e) (by simp [Proxy.shList])
      (by simp [point,Proxy.shMeta])
  | proxyList point got =>
    exact inv.grow (getMemListGrows _ _ _) (fun _ e => .inl e) (fun _ e => .inl e)
      (fun l e => .inr (by cases e; exact getMemListNamed got)) (by simp [point,Proxy.shMeta])
  | proxyUnlisted =>
    exact inv.grow (getMemListGrows _ _ _) (fun _ e => .inl e) (fun _ e => .inl e)
      (by simp [Proxy.shList]) (by simp [Proxy.shMeta])
  | proxyFlag point =>
    exact inv.grow (growsMeta _ _ _) (fun _ e => .inl e) (fun _ e => .inl e)
      (by simp [point,Proxy.shList]) (by simp [point,Proxy.shMeta])

theorem listNamed {o : Objects} {numNodes : Nat} {outcome : Outcome} (named : Named o) :
    Named (getMemList o numNodes outcome).1 ↔ ∀ size m, o.listName = none →
      outcome.truncated numNodes = some size → o.metaName = some m →
      (o.metas m).numNodes ≤ size := by
  unfold getMemList
  cases list : o.listName with
  | some l => simpa using named
  | none =>
    cases created : outcome.truncated numNodes with
    | none => simpa using named
    | some size =>
      simp only [Named,Objects.addList,Option.some.injEq]
      constructor
      · rintro fits size' m - rfl metanode
        simpa using fits o.fresh m rfl metanode
      · rintro fits l m rfl metanode
        simpa using fits size m trivial rfl metanode

theorem metanodeNamed {o : Objects} (named : Named o) : Named (getMetanode o).1 := by
  unfold getMetanode
  cases metanode : o.metaName with
  | some m => exact named
  | none =>
    intro l m list e
    cases e
    simp

theorem setNamed {o : Objects} {m : Nat} {node : Metanode}
    (metanode : o.metaName = some m) : Named (o.setMeta m node) ↔ ∀ l, o.listName = some l →
      node.numNodes ≤ o.sizes l := by
  constructor
  · intro fits l list
    simpa [Objects.setMeta] using fits l m list metanode
  · intro fits l m' list e
    cases metanode.symm.trans e
    simpa [Objects.setMeta] using fits l list

theorem storesFit {e : Event} {nodes : Nat} (creates_ : creates s e = none)
    (stores_ : stores s e = some nodes) :
    (∀ l, s.objects.listName = some l → nodes ≤ s.objects.sizes l) ↔ fitting s e := by
  simp only [fitting,creates_,stores_,Option.some.injEq]
  constructor
  · intro fits
    refine ⟨fun size m e => ?_,fun nodes' l same list => same ▸ fits l list⟩
    cases e
  · exact fun fits l list => fits.2 nodes l rfl list

theorem stepNamed {e : Event} (inv : Inv s) (named : Named s.objects) (next : step s e = some t) :
    Named t.objects ↔ fitting s e := by
  cases stepMove next with
  | serverStart | proxyOffline | proxyOnline | proxyRead =>
    simpa [fitting,creates,stores] using named
  | serverList point | serverUnlisted point | proxyList point | proxyUnlisted point =>
    rw [listNamed named]
    simp only [fitting,creates,stores,point]
    cases list : s.objects.listName <;> simp
  | serverMeta | proxyStart =>
    simpa [fitting,creates,stores] using metanodeNamed named
  | serverFlag point =>
    have metanode := inv.serverMeta _ (by rw [point]; rfl)
    rw [setNamed metanode]
    simpa [fitting,creates,stores] using fun l list => named l _ list metanode
  | serverCount point =>
    rw [setNamed (inv.serverMeta _ (by rw [point]; rfl))]
    exact storesFit (by simp [creates]) (by simp [stores,point])
  | proxyStore point =>
    rw [setNamed (inv.proxyMeta _ (by rw [point]; rfl))]
    exact storesFit (by simp [creates]) rfl
  | proxyFlag point =>
    have metanode := inv.proxyMeta _ (by rw [point]; rfl)
    rw [setNamed metanode]
    simpa [fitting,creates,stores] using fun l list => named l _ list metanode

end

theorem sizedExact {es : List Event} {s : State} (ran : run step initial es = some s) :
    Throughout step Sized initial es ↔ Along step fitting initial es :=
  @throughoutExact _ _ step fitting (fun s => Inv s ∧ Named s.objects) Sized initial es s
    ⟨initialInv,by simp [Named,initial]⟩
    (fun _ _ _ inv fits next => ⟨stepInv inv.1 next,(stepNamed inv.1 inv.2 next).mpr fits⟩)
    (fun _ inv => (sizedNamed inv.1).mpr inv.2)
    (fun _ _ _ inv broken next sized => broken ((stepNamed inv.1 inv.2 next).mp
      ((sizedNamed (stepInv inv.1 next)).mp sized)))
    ran

def serverUp (numThreads : Nat) : List Event :=
  [.serverStart numThreads,.serverList .ok,.serverMeta,.serverFlag,.serverCount]

def proxyUp : List Event := [.proxyStart,.proxyTest,.proxyRead,.proxyList .ok,.proxyFlag]

def proxyAlone : List Event :=
  [.proxyStart,.proxyTest,.proxyStore,.proxyRead,.proxyList .ok,.proxyFlag]

theorem sizedServerFirst : ∃ s, run step initial (serverUp 25 ++ proxyUp) = some s ∧
    s.server = .on 0 1 ∧ s.proxy = .on 0 1 ∧
    (Throughout step Sized initial (serverUp 25 ++ proxyUp) ↔
      Along step fitting initial (serverUp 25 ++ proxyUp)) := by
  have ran : ((run step initial (serverUp 25 ++ proxyUp)).map fun s => (s.server,s.proxy)) =
      some (.on 0 1,.on 0 1) := by decide +kernel
  obtain ⟨s,hs,same⟩ := Option.map_eq_some_iff.mp ran
  obtain ⟨server,proxy⟩ := Prod.mk.inj same
  exact ⟨s,hs,server,proxy,sizedExact hs⟩

theorem eleventhNode : ∃ s, run step initial (proxyAlone ++ serverUp 11) = some s ∧ ¬ Sized s := by
  have ran : ((run step initial (proxyAlone ++ serverUp 11)).map fun s =>
      (s.server,(s.objects.metas 0).numNodes,s.objects.sizes 1)) = some (.on 1 0,11,10) := by
    decide +kernel
  obtain ⟨s,hs,same⟩ := Option.map_eq_some_iff.mp ran
  simp only [Prod.mk.injEq] at same
  obtain ⟨server,numNodes,size⟩ := same
  refine ⟨s,hs,fun sized => ?_⟩
  have fits := sized 1 0 (.inr (.inl (by simp [server,Server.shList,Server.shMeta])))
  omega

end IttyBittyServer.Startup
