import Mathlib.Logic.Function.Basic
import IttyBittyServer.Run

/-! The proxy's worker threads and their one global `serverSock`. Each statement of
`handleClient` that calls socket, connect, sendAll, recvHeader, recvAll_Forward or
close is one step. Data is followed by its origin only: a response carries the
clients whose requests had been sent on the socket it was read from. -/
namespace IttyBittyServer.Upstream
open Run

structure Client where
  id : Nat
  fd : Int
  dest : Nat
  deriving DecidableEq, Repr

structure Server where
  opener : Nat
  client : Nat
  dest : Option Nat
  requests : List Nat
  deriving DecidableEq, Repr

inductive File where
  | client (id : Nat)
  | server (u : Server)
  deriving DecidableEq, Repr

/- The two close calls come in either order: client first on the error exits
(`closeClientFirst`, `closeServerLast`), server first on success. -/
inductive Pc where
  | waiting | request | socket | connect | strip | sendAll | recvHeader | recvAllForward
  | closeClientFirst | closeServerLast | closeServer | closeClient
  deriving DecidableEq, Repr

def Pc.upstream : Pc → Bool
  | .connect | .strip | .sendAll | .recvHeader | .recvAllForward
  | .closeClientFirst | .closeServerLast | .closeServer => true
  | _ => false

def Pc.talks : Pc → Bool
  | .strip | .sendAll | .recvHeader | .recvAllForward | .closeServer => true
  | _ => false

def Pc.hasClient : Pc → Bool
  | .waiting | .closeServerLast => false
  | _ => true

structure Worker where
  pc : Pc
  client : Client
  header : List Nat
  deriving DecidableEq, Repr

structure Delivery where
  receiver : Nat
  origin : List Nat
  deriving DecidableEq, Repr

structure State where
  serverSock : Int
  files : Int → Option File
  accepted : Nat
  list : List Client
  workers : Nat → Worker
  delivered : List Delivery

def initial : State := ⟨0,fun _ => none,0,[],fun _ => ⟨.waiting,⟨0,-1,0⟩,[]⟩,[]⟩

inductive Event where
  | accept (fd : Int) (dest : Nat)
  | work (w : Nat) (fd : Int) (ok : Bool)
  deriving DecidableEq, Repr

/- `accept` in main(), with addTail: the kernel answers with a closed descriptor. -/
def accept (s : State) (fd : Int) (dest : Nat) : Option State :=
  if 0 ≤ fd ∧ s.files fd = none then
    some {s with
      files := Function.update s.files fd (some (.client s.accepted))
      accepted := s.accepted + 1
      list := s.list ++ [⟨s.accepted,fd,dest⟩]}
  else none

def State.set (s : State) (w : Nat) (me : Worker) : State :=
  {s with workers := Function.update s.workers w me}

def State.goto (s : State) (w : Nat) (pc : Pc) : State := s.set w {s.workers w with pc := pc}

def State.put (s : State) (fd : Int) (file : Option File) : State :=
  {s with files := Function.update s.files fd file}

/- What a read on `fd` carries: the requests sent on that socket so far. -/
def State.origin (s : State) (fd : Int) : List Nat := match s.files fd with
  | some (.server u) => u.requests
  | _ => []

def State.deliver (s : State) (fd : Int) (origin : List Nat) : State := match s.files fd with
  | some (.client id) => {s with delivered := s.delivered ++ [⟨id,origin⟩]}
  | _ => s

/- One statement of worker `w`. `ok` is the answer of the call, `fd` the descriptor
that `socket` returns (negative on failure). -/
def handleClient (s : State) (w : Nat) (fd : Int) (ok : Bool) : Option State :=
  let me := s.workers w
  match me.pc with
  | .waiting => match s.list with
    | [] => none
    | c::rest => some ({s with list := rest}.set w ⟨.request,c,[]⟩)
  -- the exits before the socket call, and sharedProxy's success, close the client
  | .request => some (s.goto w (if ok then .socket else .closeClient))
  | .socket =>
    if fd < 0 then some ({s with serverSock := -1}.goto w .closeClient)
    else if s.files fd = none then
      some (({s with serverSock := fd}.put fd (some (.server ⟨w,me.client.id,none,[]⟩))).goto w .connect)
    else none
  | .connect => match s.files s.serverSock with
    | some (.server u) =>
      if ok ∧ u.dest = none then
        some ((s.put s.serverSock (some (.server {u with dest := some me.client.dest}))).goto w .strip)
      else some (s.goto w .closeClientFirst)
    | _ => some (s.goto w .closeClientFirst)
  | .strip => some (s.goto w (if ok then .sendAll else .closeClientFirst))
  | .sendAll => match s.files s.serverSock with
    | some (.server u) =>
      some ((s.put s.serverSock (some (.server {u with requests := u.requests ++ [me.client.id]}))).goto w
        (if ok then .recvHeader else .closeClientFirst))
    | some (.client _) => some (s.goto w (if ok then .recvHeader else .closeClientFirst))
    | none => some (s.goto w .closeClientFirst)
  | .recvHeader =>
    if ok ∧ s.files s.serverSock ≠ none then
      some (s.set w {me with pc := .recvAllForward, header := s.origin s.serverSock})
    else some (s.goto w .closeClientFirst)
  | .recvAllForward =>
    some ((s.deliver me.client.fd (me.header ++ s.origin s.serverSock)).goto w
      (if ok then .closeServer else .closeClientFirst))
  | .closeClientFirst => some ((s.put me.client.fd none).goto w .closeServerLast)
  | .closeServerLast => some ((s.put s.serverSock none).goto w .waiting)
  | .closeServer => some ((s.put s.serverSock none).goto w .closeClient)
  | .closeClient => some ((s.put me.client.fd none).goto w .waiting)

def step (numThreads : Nat) (s : State) : Event → Option State
  | .accept fd dest => accept s fd dest
  | .work w fd ok => if w < numThreads then handleClient s w fd ok else none

def Isolated (s : State) : Prop :=
  (∀ w, (s.workers w).pc.upstream = true → ∃ u, s.files s.serverSock = some (.server u) ∧
    u.opener = w ∧ u.client = (s.workers w).client.id ∧
    ((s.workers w).pc.talks = true → u.dest = some (s.workers w).client.dest)) ∧
  ∀ d ∈ s.delivered, ∀ k ∈ d.origin, k = d.receiver

def SocketAlone (s : State) : Event → Prop
  | .accept _ _ => True
  | .work w _ _ => (s.workers w).pc = .socket → ∀ v ≠ w, (s.workers v).pc.upstream = false

structure Inv (s : State) : Prop where
  negative : ∀ fd < 0, s.files fd = none
  sockets : ∀ w, (s.workers w).pc.upstream = true → ∃ u, s.files s.serverSock = some (.server u) ∧
    u.opener = w ∧ u.client = (s.workers w).client.id ∧ (∀ k ∈ u.requests, k = u.client) ∧
    ((s.workers w).pc.talks = true → u.dest = some (s.workers w).client.dest)
  clients : ∀ w, (s.workers w).pc.hasClient = true →
    s.files (s.workers w).client.fd = some (.client (s.workers w).client.id)
  queued : ∀ c ∈ s.list, s.files c.fd = some (.client c.id)
  own : ∀ w v, (s.workers w).pc.hasClient = true → (s.workers v).pc.hasClient = true →
    (s.workers w).client.id = (s.workers v).client.id → w = v
  apart : ∀ w, (s.workers w).pc.hasClient = true → ∀ c ∈ s.list, c.id ≠ (s.workers w).client.id
  distinct : (s.list.map Client.id).Nodup
  counted : (∀ w, (s.workers w).pc.hasClient = true → (s.workers w).client.id < s.accepted) ∧
    ∀ c ∈ s.list, c.id < s.accepted
  header : ∀ w, (s.workers w).pc = .recvAllForward →
    ∀ k ∈ (s.workers w).header, k = (s.workers w).client.id
  delivered : ∀ d ∈ s.delivered, ∀ k ∈ d.origin, k = d.receiver

theorem initialInv : Inv initial := by
  constructor <;> simp [initial,Pc.upstream,Pc.hasClient]

theorem Inv.isolated {s} (inv : Inv s) : Isolated s := by
  refine ⟨fun w busy => ?_,inv.delivered⟩
  obtain ⟨u,file,opener,client,_,dest⟩ := inv.sockets w busy
  exact ⟨u,file,opener,client,dest⟩

theorem Inv.single {s} (inv : Inv s) {w v} (hw : (s.workers w).pc.upstream = true)
    (hv : (s.workers v).pc.upstream = true) : w = v := by
  obtain ⟨a,fa,oa,_⟩ := inv.sockets w hw
  obtain ⟨b,fb,ob,_⟩ := inv.sockets v hv
  have same : a = b := by simpa [fa] using fb
  rw [← oa,← ob,same]

theorem setWorkers (s : State) (w : Nat) (me : Worker) (v : Nat) :
    (s.set w me).workers v = if v = w then me else s.workers v := by
  simp [State.set,Function.update_apply]

theorem Inv.set {s} (inv : Inv s) (w : Nat) (me : Worker)
    (sockets : me.pc.upstream = true → ∃ u, s.files s.serverSock = some (.server u) ∧
      u.opener = w ∧ u.client = me.client.id ∧ (∀ k ∈ u.requests, k = u.client) ∧
      (me.pc.talks = true → u.dest = some me.client.dest))
    (client : me.pc.hasClient = true →
      (s.workers w).pc.hasClient = true ∧ me.client = (s.workers w).client)
    (header : me.pc = .recvAllForward → ∀ k ∈ me.header, k = me.client.id) :
    Inv (s.set w me) := by
  have had : ∀ v, ((s.set w me).workers v).pc.hasClient = true →
      (s.workers v).pc.hasClient = true ∧ ((s.set w me).workers v).client = (s.workers v).client := by
    intro v h
    rw [setWorkers] at h ⊢
    split at h
    · subst v; simpa using client h
    · simp_all
  constructor
  case negative => exact inv.negative
  case sockets =>
    intro v h
    rw [setWorkers] at h ⊢
    split at h
    · subst v; rw [if_pos rfl]; exact sockets h
    · rename_i other; rw [if_neg other]; exact inv.sockets v h
  case clients => intro v h; rw [(had v h).2]; exact inv.clients v (had v h).1
  case queued => exact inv.queued
  case own =>
    intro v x hv hx same
    rw [(had v hv).2,(had x hx).2] at same
    exact inv.own v x (had v hv).1 (had x hx).1 same
  case apart => intro v h c hc; rw [(had v h).2]; exact inv.apart v (had v h).1 c hc
  case distinct => exact inv.distinct
  case counted =>
    exact ⟨fun v h => by rw [(had v h).2]; exact inv.counted.1 v (had v h).1,inv.counted.2⟩
  case header =>
    intro v h
    rw [setWorkers] at h ⊢
    split at h
    · subst v; rw [if_pos rfl]; exact header h
    · rename_i other; rw [if_neg other]; exact inv.header v h
  case delivered => exact inv.delivered

theorem Inv.goto {s} (inv : Inv s) (w : Nat) (pc : Pc)
    (upstream : pc.upstream = true → (s.workers w).pc.upstream = true)
    (talks : pc.talks = true → (s.workers w).pc.talks = true)
    (client : pc.hasClient = true → (s.workers w).pc.hasClient = true)
    (header : pc ≠ .recvAllForward) : Inv (s.goto w pc) := by
  refine inv.set w _ (fun h => ?_) (fun h => ⟨client h,rfl⟩) (fun h => absurd h header)
  obtain ⟨u,file,opener,id,requests,dest⟩ := inv.sockets w (upstream h)
  exact ⟨u,file,opener,id,requests,fun t => dest (talks t)⟩

theorem Inv.put {s} (inv : Inv s) (fd : Int) (file : Option File)
    (negative : fd < 0 → file = none)
    (sockets : ∀ w, (s.workers w).pc.upstream = true → s.serverSock ≠ fd)
    (clients : ∀ w, (s.workers w).pc.hasClient = true → (s.workers w).client.fd ≠ fd)
    (queued : ∀ c ∈ s.list, c.fd ≠ fd) : Inv (s.put fd file) := by
  constructor
  case negative =>
    intro x hx
    by_cases same : x = fd
    · subst x; simpa [State.put] using negative hx
    · simpa [State.put,same] using inv.negative x hx
  case sockets =>
    intro w h
    simpa [State.put,sockets w h] using inv.sockets w h
  case clients => intro w h; simpa [State.put,clients w h] using inv.clients w h
  case queued => intro c h; simpa [State.put,queued c h] using inv.queued c h
  all_goals first
    | exact inv.own | exact inv.apart | exact inv.distinct | exact inv.counted
    | exact inv.header | exact inv.delivered

theorem Inv.revise {s} (inv : Inv s) (w : Nat) (busy : (s.workers w).pc.upstream = true)
    (had : (s.workers w).pc.hasClient = true) (u : Server) (pc : Pc)
    (opener : u.opener = w) (id : u.client = (s.workers w).client.id)
    (requests : ∀ k ∈ u.requests, k = u.client)
    (dest : pc.talks = true → u.dest = some (s.workers w).client.dest)
    (header : pc ≠ .recvAllForward) :
    Inv ((s.put s.serverSock (some (.server u))).goto w pc) := by
  have away : Inv (s.goto w .closeClient) :=
    inv.goto w .closeClient (by simp [Pc.upstream]) (by simp [Pc.talks]) (fun _ => had) (by simp)
  have alone : ∀ v, ((s.goto w .closeClient).workers v).pc.upstream = false := by
    intro v
    simp only [State.goto,setWorkers]
    split
    · rfl
    · rename_i other
      by_contra h
      exact other (inv.single (by simpa using h) busy)
  obtain ⟨old,file,_⟩ := inv.sockets w busy
  have apartFd : ∀ v, ((s.goto w .closeClient).workers v).pc.hasClient = true →
      ((s.goto w .closeClient).workers v).client.fd ≠ s.serverSock := by
    intro v h same
    have found := away.clients v h
    rw [same] at found
    exact absurd (file.symm.trans found) (by simp)
  have changed := away.put s.serverSock (some (.server u))
    (fun neg => absurd (file.symm.trans (inv.negative _ neg)) (by simp))
    (fun v h => absurd h (by simp [alone v])) apartFd
    (fun c hc same => absurd (file.symm.trans (same ▸ inv.queued c hc)) (by simp))
  have back := changed.set w {s.workers w with pc := pc}
    (fun _ => ⟨u,by simp [State.put,State.goto,State.set],opener,id,requests,dest⟩)
    (fun _ => by simp [State.put,State.goto,State.set,Pc.hasClient]) (fun h => absurd h header)
  have same : (((s.goto w .closeClient).put s.serverSock (some (.server u))).set w
      {s.workers w with pc := pc}) = (s.put s.serverSock (some (.server u))).goto w pc := by
    simp [State.put,State.goto,State.set]
  rwa [same] at back

theorem acceptInv {s fd dest t} (inv : Inv s) (h : accept s fd dest = some t) : Inv t := by
  unfold accept at h
  split at h <;> try contradiction
  rename_i fresh
  cases Option.some.inj h
  have other : ∀ x f, s.files x = some f → x ≠ fd := by
    intro x f found same; subst x; simp [fresh.2] at found
  constructor
  case negative =>
    intro x hx
    have away : x ≠ fd := by have := fresh.1; omega
    simpa [away] using inv.negative x hx
  case sockets =>
    intro w busy
    obtain ⟨u,file,rest⟩ := inv.sockets w busy
    exact ⟨u,by simpa [other _ _ file] using file,rest⟩
  case clients =>
    intro w has
    have file := inv.clients w has
    simpa [other _ _ file] using file
  case queued =>
    intro c hc
    rcases List.mem_append.mp hc with old | new
    · have file := inv.queued c old
      simpa [other _ _ file] using file
    · cases List.mem_singleton.mp new; simp
  case own => exact inv.own
  case apart =>
    intro w has c hc
    rcases List.mem_append.mp hc with old | new
    · exact inv.apart w has c old
    · cases List.mem_singleton.mp new
      have := inv.counted.1 w has
      simp only; omega
  case distinct =>
    simp only [List.map_append,List.map_cons,List.map_nil,List.nodup_append]
    refine ⟨inv.distinct,by simp,?_⟩
    intro a ha b hb same
    obtain ⟨c,hc,rfl⟩ := List.mem_map.mp ha
    have := inv.counted.2 c hc
    simp only [List.mem_singleton] at hb
    omega
  case counted =>
    refine ⟨fun w has => Nat.lt_succ_of_lt (inv.counted.1 w has),fun c hc => ?_⟩
    rcases List.mem_append.mp hc with old | new
    · exact Nat.lt_succ_of_lt (inv.counted.2 c old)
    · cases List.mem_singleton.mp new; exact Nat.lt_succ_self _
  case header => exact inv.header
  case delivered => exact inv.delivered

theorem removeHeadInv {s : State} {w c rest} (inv : Inv s)
    (list : s.list = c::rest) : Inv ({s with list := rest}.set w ⟨.request,c,[]⟩) := by
  have member : c ∈ s.list := by simp [list]
  have later : ∀ x ∈ rest, x ∈ s.list := fun x hx => by simp [list,hx]
  have ids := inv.distinct
  simp only [list,List.map_cons,List.nodup_cons] at ids
  have fresh : ∀ x ∈ rest, x.id ≠ c.id :=
    fun x hx same => ids.1 (List.mem_map.mpr ⟨x,hx,same⟩)
  constructor
  case negative => exact inv.negative
  case sockets =>
    intro v h
    rw [setWorkers] at h ⊢
    split at h
    · simp [Pc.upstream] at h
    · rename_i away; rw [if_neg away]; exact inv.sockets v h
  case clients =>
    intro v h
    rw [setWorkers] at h ⊢
    split at h
    · subst v; rw [if_pos rfl]; exact inv.queued c member
    · rename_i away; rw [if_neg away]; exact inv.clients v h
  case queued => exact fun x hx => inv.queued x (later x hx)
  case own =>
    intro v x hv hx same
    rw [setWorkers] at hv hx same
    rw [setWorkers] at same
    by_cases isV : v = w <;> by_cases isX : x = w <;> simp only [isV,isX,if_true,if_false] at *
    · exact absurd same (inv.apart x hx c member)
    · exact absurd same.symm (inv.apart v hv c member)
    · exact inv.own v x hv hx same
  case apart =>
    intro v h x hx
    rw [setWorkers] at h ⊢
    split at h
    · subst v; rw [if_pos rfl]; exact fresh x hx
    · rename_i away; rw [if_neg away]; exact inv.apart v h x (later x hx)
  case distinct => exact ids.2
  case counted =>
    refine ⟨fun v h => ?_,fun x hx => inv.counted.2 x (later x hx)⟩
    rw [setWorkers] at h ⊢
    split at h
    · subst v; rw [if_pos rfl]; exact inv.counted.2 c member
    · rename_i away; rw [if_neg away]; exact inv.counted.1 v h
  case header =>
    intro v h
    rw [setWorkers] at h ⊢
    split at h
    · cases h
    · rename_i away; rw [if_neg away]; exact inv.header v h
  case delivered => exact inv.delivered

theorem socketInv {s : State} {w fd} (inv : Inv s) (pc : (s.workers w).pc = .socket)
    (alone : ∀ v ≠ w, (s.workers v).pc.upstream = false) (fresh : 0 ≤ fd ∧ s.files fd = none) :
    Inv (({s with serverSock := fd}.put fd
      (some (.server ⟨w,(s.workers w).client.id,none,[]⟩))).goto w .connect) := by
  have quiet : ∀ v, (s.workers v).pc.upstream = false := by
    intro v
    by_cases same : v = w
    · subst v; rw [pc]; rfl
    · exact alone v same
  have free : Inv {s with serverSock := fd} :=
    ⟨inv.negative,fun v h => absurd h (by simp [quiet v]),inv.clients,inv.queued,inv.own,
      inv.apart,inv.distinct,inv.counted,inv.header,inv.delivered⟩
  have opened := free.put fd (some (.server ⟨w,(s.workers w).client.id,none,[]⟩))
    (by intro neg; have := fresh.1; omega) (fun v h => absurd h (by simp [quiet v]))
    (fun v h same => absurd (same ▸ inv.clients v h) (by simp [fresh.2]))
    (fun c h same => absurd (same ▸ inv.queued c h) (by simp [fresh.2]))
  exact opened.set w {s.workers w with pc := .connect}
    (fun _ => ⟨_,by simp [State.put]; rfl,rfl,rfl,by simp,by simp [Pc.talks]⟩)
    (fun _ => ⟨by simp [State.put,pc,Pc.hasClient],rfl⟩) (by simp)

theorem socketFailInv {s : State} {w} (inv : Inv s) (pc : (s.workers w).pc = .socket)
    (alone : ∀ v ≠ w, (s.workers v).pc.upstream = false) :
    Inv ({s with serverSock := -1}.goto w .closeClient) := by
  have quiet : ∀ v, (s.workers v).pc.upstream = false := by
    intro v
    by_cases same : v = w
    · subst v; rw [pc]; rfl
    · exact alone v same
  have free : Inv {s with serverSock := -1} :=
    ⟨inv.negative,fun v h => absurd h (by simp [quiet v]),inv.clients,inv.queued,inv.own,
      inv.apart,inv.distinct,inv.counted,inv.header,inv.delivered⟩
  exact free.goto w .closeClient (by simp [Pc.upstream]) (by simp [Pc.talks])
    (fun _ => by simp [pc,Pc.hasClient]) (by simp)

theorem originOwn {s w} (inv : Inv s) (busy : (s.workers w).pc.upstream = true) :
    ∀ k ∈ s.origin s.serverSock, k = (s.workers w).client.id := by
  obtain ⟨u,file,_,id,requests,_⟩ := inv.sockets w busy
  intro k hk
  simp only [State.origin,file] at hk
  exact (requests k hk).trans id

theorem deliverInv {s w} (inv : Inv s) (has : (s.workers w).pc.hasClient = true) (origin : List Nat)
    (own : ∀ k ∈ origin, k = (s.workers w).client.id) :
    Inv (s.deliver (s.workers w).client.fd origin) := by
  simp only [State.deliver,inv.clients w has]
  refine ⟨inv.negative,inv.sockets,inv.clients,inv.queued,inv.own,inv.apart,inv.distinct,
    inv.counted,inv.header,fun d hd => ?_⟩
  rcases List.mem_append.mp hd with old | new
  · exact inv.delivered d old
  · cases List.mem_singleton.mp new; exact own

theorem deliverWorkers (s fd origin) : (State.deliver s fd origin).workers = s.workers := by
  unfold State.deliver; split <;> rfl

theorem closeClientInv {s w} (inv : Inv s) (pc : Pc) (has : (s.workers w).pc.hasClient = true)
    (gone : pc.hasClient = false)
    (upstream : pc.upstream = true → (s.workers w).pc.upstream = true)
    (talks : pc.talks = false) :
    Inv ((s.put (s.workers w).client.fd none).goto w pc) := by
  have moved := inv.goto w pc upstream (by simp [talks]) (by simp [gone])
    (by rintro rfl; simp [Pc.hasClient] at gone)
  have file := inv.clients w has
  refine moved.put (s.workers w).client.fd none (fun _ => rfl) ?_ ?_ ?_
  · intro v busy same
    obtain ⟨u,found,_⟩ := moved.sockets v busy
    rw [same] at found
    exact absurd (file.symm.trans found) (by simp)
  · intro v hv same
    have found := moved.clients v hv
    rw [same] at found
    have ids := file.symm.trans found
    simp only [State.goto,setWorkers] at hv ids
    split at hv
    · simp [gone] at hv
    · rename_i away
      rw [if_neg away] at ids
      exact away (inv.own w v has hv (by simpa using ids)).symm
  · intro c hc same
    have found := inv.queued c hc
    rw [same] at found
    have ids := file.symm.trans found
    exact inv.apart w has c hc (by simpa using ids.symm)

theorem closeServerInv {s w} (inv : Inv s) (pc : Pc) (busy : (s.workers w).pc.upstream = true)
    (gone : pc.upstream = false) (talks : pc.talks = false)
    (client : pc.hasClient = true → (s.workers w).pc.hasClient = true)
    (header : pc ≠ .recvAllForward) :
    Inv ((s.put s.serverSock none).goto w pc) := by
  have moved := inv.goto w pc (by simp [gone]) (by simp [talks]) client header
  obtain ⟨u,file,_⟩ := inv.sockets w busy
  refine moved.put s.serverSock none (fun _ => rfl) ?_ ?_ ?_
  · intro v hv
    simp only [State.goto,setWorkers] at hv
    split at hv
    · simp [gone] at hv
    · rename_i away; exact absurd (inv.single hv busy) away
  · intro v hv same
    have found := moved.clients v hv
    rw [same] at found
    exact absurd (file.symm.trans found) (by simp)
  · intro c hc same
    exact absurd (file.symm.trans (same ▸ inv.queued c hc)) (by simp)

theorem handleClientInv {s w fd ok t} (inv : Inv s)
    (alone : (s.workers w).pc = .socket → ∀ v ≠ w, (s.workers v).pc.upstream = false)
    (h : handleClient s w fd ok = some t) : Inv t := by
  cases pc : (s.workers w).pc with
  | waiting =>
    cases list : s.list with
    | nil => simp [handleClient,pc,list] at h
    | cons c rest =>
      simp only [handleClient,pc,list,Option.some.injEq] at h
      subst t
      exact removeHeadInv inv list
  | request =>
    simp only [handleClient,pc,Option.some.injEq] at h
    subst t
    cases ok <;> exact inv.goto w _ (by simp [Pc.upstream]) (by simp [Pc.talks])
      (by simp [pc,Pc.hasClient]) (by simp)
  | socket =>
    simp only [handleClient,pc] at h
    split at h
    · cases Option.some.inj h; exact socketFailInv inv pc (alone pc)
    · split at h <;> try contradiction
      cases Option.some.inj h
      exact socketInv inv pc (alone pc) ⟨by omega,by assumption⟩
  | connect =>
    have busy : (s.workers w).pc.upstream = true := by rw [pc]; rfl
    have had : (s.workers w).pc.hasClient = true := by rw [pc]; rfl
    obtain ⟨u,file,opener,id,requests,_⟩ := inv.sockets w busy
    simp only [handleClient,pc,file] at h
    split at h
    · cases Option.some.inj h
      exact inv.revise w busy had {u with dest := some (s.workers w).client.dest} .strip opener id
        requests (fun _ => rfl) (by simp)
    · cases Option.some.inj h
      exact inv.goto w _ (fun _ => busy) (by simp [Pc.talks]) (fun _ => had) (by simp)
  | strip =>
    simp only [handleClient,pc,Option.some.injEq] at h
    subst t
    cases ok <;> exact inv.goto w _ (by simp [pc,Pc.upstream]) (by simp [pc,Pc.talks])
      (by simp [pc,Pc.hasClient]) (by simp)
  | sendAll =>
    have busy : (s.workers w).pc.upstream = true := by rw [pc]; rfl
    have had : (s.workers w).pc.hasClient = true := by rw [pc]; rfl
    obtain ⟨u,file,opener,id,requests,dest⟩ := inv.sockets w busy
    simp only [handleClient,pc,file,Option.some.injEq] at h
    subst t
    have sent : ∀ k ∈ u.requests ++ [(s.workers w).client.id], k = u.client := by
      intro k hk
      rcases List.mem_append.mp hk with old | new
      · exact requests k old
      · rw [id]; exact List.mem_singleton.mp new
    cases ok <;> exact inv.revise w busy had {u with requests := u.requests ++ [(s.workers w).client.id]}
      _ opener id sent (fun _ => dest (by rw [pc]; rfl)) (by simp)
  | recvHeader =>
    have busy : (s.workers w).pc.upstream = true := by rw [pc]; rfl
    simp only [handleClient,pc] at h
    split at h
    · cases Option.some.inj h
      obtain ⟨u,file,opener,id,requests,dest⟩ := inv.sockets w busy
      exact inv.set w _ (fun _ => ⟨u,file,opener,id,requests,fun _ => dest (by rw [pc]; rfl)⟩)
        (fun _ => ⟨by rw [pc]; rfl,rfl⟩) (fun _ => originOwn inv busy)
    · cases Option.some.inj h
      exact inv.goto w _ (fun _ => busy) (by simp [Pc.talks]) (by simp [pc,Pc.hasClient]) (by simp)
  | recvAllForward =>
    have busy : (s.workers w).pc.upstream = true := by rw [pc]; rfl
    have own : ∀ k ∈ (s.workers w).header ++ s.origin s.serverSock, k = (s.workers w).client.id := by
      intro k hk
      rcases List.mem_append.mp hk with head | body
      · exact inv.header w pc k head
      · exact originOwn inv busy k body
    have sent := deliverInv inv (by rw [pc]; rfl) _ own
    simp only [handleClient,pc,Option.some.injEq] at h
    subst t
    cases ok <;> exact sent.goto w _ (by simp [deliverWorkers,pc,Pc.upstream])
      (by simp [deliverWorkers,pc,Pc.talks]) (by simp [deliverWorkers,pc,Pc.hasClient]) (by simp)
  | closeClientFirst =>
    simp only [handleClient,pc,Option.some.injEq] at h
    subst t
    exact closeClientInv inv _ (by rw [pc]; rfl) rfl (by simp [pc,Pc.upstream]) rfl
  | closeServerLast =>
    simp only [handleClient,pc,Option.some.injEq] at h
    subst t
    exact closeServerInv inv _ (by rw [pc]; rfl) rfl rfl (by simp [Pc.hasClient]) (by simp)
  | closeServer =>
    simp only [handleClient,pc,Option.some.injEq] at h
    subst t
    exact closeServerInv inv _ (by rw [pc]; rfl) rfl rfl (by simp [pc,Pc.hasClient]) (by simp)
  | closeClient =>
    simp only [handleClient,pc,Option.some.injEq] at h
    subst t
    exact closeClientInv inv _ (by rw [pc]; rfl) rfl (by simp [Pc.upstream]) rfl

theorem stepInv {numThreads s e t} (inv : Inv s) (alone : SocketAlone s e)
    (h : step numThreads s e = some t) : Inv t := by
  cases e with
  | accept fd dest => exact acceptInv inv h
  | work w fd ok =>
    simp only [step] at h
    split at h <;> try contradiction
    exact handleClientInv inv alone h

/- A second socket call takes `serverSock` away from the worker still using it. -/
theorem overlapBreaks {numThreads s e t} (inv : Inv s) (overlap : ¬ SocketAlone s e)
    (h : step numThreads s e = some t) : ¬ Isolated t := by
  cases e with
  | accept fd dest => exact absurd trivial overlap
  | work w fd ok =>
    simp only [SocketAlone,not_forall] at overlap
    obtain ⟨pc,v,away,busy⟩ := overlap
    simp only [step] at h
    split at h <;> try contradiction
    rintro ⟨isolated,_⟩
    simp only [handleClient,pc] at h
    split at h
    · cases Option.some.inj h
      obtain ⟨u,file,_⟩ := isolated v (by simpa [State.goto,setWorkers,away] using busy)
      have closed := inv.negative (-1) (by decide)
      exact absurd (closed.symm.trans file) (by simp)
    · split at h <;> try contradiction
      cases Option.some.inj h
      obtain ⟨u,file,opener,_⟩ := isolated v
        (by simpa [State.goto,setWorkers,State.put,away] using busy)
      simp only [State.goto,State.set,State.put,Function.update_self,Option.some.injEq,
        File.server.injEq] at file
      exact away (opener.symm.trans (by rw [← file]))

/-- Any number of workers: the workers stay isolated through a run exactly when no
step of it calls `socket` while another worker still has `serverSock` to use. -/
theorem isolatedExact {numThreads : Nat} {events : List Event} {t : State}
    (ran : run (step numThreads) initial events = some t) :
    Throughout (step numThreads) Isolated initial events ↔
      Along (step numThreads) SocketAlone initial events :=
  throughoutExact initialInv (fun _ _ _ inv alone h => stepInv inv alone h)
    (fun _ inv => inv.isolated) (fun _ _ _ inv overlap h => overlapBreaks inv overlap h) ran

def crossing : List Event :=
  [.accept 4 10,.accept 5 20,.work 0 0 true,.work 1 0 true,.work 0 0 true,.work 1 0 true,
    .work 0 6 true,.work 0 0 true,.work 0 0 true,.work 1 7 true,.work 1 0 true,.work 1 0 true,
    .work 1 0 true,.work 0 0 true,.work 0 0 true,.work 0 0 true]

theorem isolatedExactCrossing : ∃ t, run (step 2) initial crossing = some t ∧
    (Throughout (step 2) Isolated initial crossing ↔ Along (step 2) SocketAlone initial crossing) :=
  ⟨_,rfl,isolatedExact rfl⟩

theorem crossedResponse : ∃ t, run (step 2) initial crossing = some t ∧
    t.delivered = [⟨0,[1,0,1,0]⟩] ∧ ¬ Isolated t := by
  refine ⟨_,rfl,rfl,?_⟩
  rintro ⟨_,own⟩
  have crossed := own ⟨0,[1,0,1,0]⟩ (List.mem_singleton.mpr rfl) 1 (by decide)
  contradiction

end IttyBittyServer.Upstream
