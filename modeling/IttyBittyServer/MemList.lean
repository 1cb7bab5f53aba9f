import Mathlib.Tactic.Common
import Mathlib.Data.List.Basic

/-! A memnode of shared memory, its mutex and its condition variable. A wait
releases the mutex and joins `condition`; a signal takes one waiter out of it, and
that thread goes on once the mutex is free. A thread never leaves `condition` unasked. -/
namespace IttyBittyServer.MemList

def segmentSize : Nat := 10000

inductive StateT where
  | idle
  | busy
  | waitingInitSrvr
  | waitingContPrxy
  | waitingContSrvr
  | complete
  deriving DecidableEq, Repr

inductive Tid where
  | proxy (worker : Nat)
  | server (worker : Nat)
  deriving DecidableEq, Repr

structure Memnode where
  mem : List UInt8
  spaceUsed : Nat
  proxyState : StateT
  serverState : StateT
  mutex : Option Tid
  condition : List Tid
  deriving DecidableEq, Repr

/- A node as getMemList leaves it; ftruncate fills the segment with zeros. -/
def created : Memnode := ⟨List.replicate segmentSize 0,0,.idle,.idle,none,[]⟩

def setMapping (node : Memnode) (data : List UInt8) : Memnode :=
  let zeroed := List.replicate data.length 0 ++ node.mem.drop data.length
  { node with mem := data ++ zeroed.drop data.length, spaceUsed := data.length }

def receiveShared (node : Memnode) : Option (List UInt8) :=
  if node.spaceUsed = 0 then none else some (node.mem.take node.spaceUsed)

inductive Found where
  | found (i : Nat)
  | next (i : Nat)
  | null
  deriving DecidableEq, Repr

def findState (list : Nat → StateT) (length : Nat) (s : StateT) (i : Nat) : Found :=
  if i < length then if list i = s then .found i else .next (i + 1) else .null

def condSignal (woken : Tid) (node : Memnode) : Option Memnode :=
  if node.condition = [] then some node
  else if woken ∈ node.condition then
    some { node with condition := node.condition.erase woken }
  else none

def condWait (me : Tid) (node : Memnode) : Memnode :=
  { node with condition := node.condition ++ [me], mutex := none }

def acquire (me : Tid) (node : Memnode) : Option Memnode :=
  if me ∉ node.condition ∧ node.mutex = none then some { node with mutex := some me } else none

def release (node : Memnode) : Memnode := { node with mutex := none }

def setState (node : Memnode) (isServer : Bool) (s : StateT) : Memnode :=
  if isServer then { node with serverState := s } else { node with proxyState := s }

@[simp] theorem setStateMem (node : Memnode) (isServer : Bool) (s : StateT) :
    (setState node isServer s).mem = node.mem := by cases isServer <;> rfl

@[simp] theorem setStateSpaceUsed (node : Memnode) (isServer : Bool) (s : StateT) :
    (setState node isServer s).spaceUsed = node.spaceUsed := by cases isServer <;> rfl

theorem signalExact {woken : Tid} {node next : Memnode} (h : condSignal woken node = some next) :
    next = { node with condition := node.condition.erase woken } := by
  unfold condSignal at h
  split at h
  · rename_i empty
    cases Option.some.inj h
    cases node; simp_all
  · split at h <;> try contradiction
    exact (Option.some.inj h).symm

theorem signalPossible (node : Memnode) : ∃ woken next, condSignal woken node = some next := by
  cases waits : node.condition with
  | nil => exact ⟨.proxy 0,node,by simp [condSignal,waits]⟩
  | cons t rest =>
    exact ⟨t,{ node with condition := node.condition.erase t },by simp [condSignal,waits]⟩

theorem acquirePossible {me : Tid} {node : Memnode} (outside : me ∉ node.condition)
    (free : node.mutex = none) : acquire me node = some { node with mutex := some me } := by
  simp [acquire,outside,free]

theorem acquireExact {me : Tid} {node next : Memnode} (h : acquire me node = some next) :
    me ∉ node.condition ∧ node.mutex = none ∧ next = { node with mutex := some me } := by
  unfold acquire at h
  split at h <;> try contradiction
  rename_i free
  exact ⟨free.1,free.2,(Option.some.inj h).symm⟩

end IttyBittyServer.MemList
