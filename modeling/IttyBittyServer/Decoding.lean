import IttyBittyServer.RequestMemory

/-! strDecode with two pointers of its own, which may be the same: every read and every write
that it makes, and what it leaves of every encoding of a string. -/
namespace IttyBittyServer.Decoding
open Text

structure Pointer where
  object : Nat
  index : Int
  deriving DecidableEq, Repr

def Pointer.after (p : Pointer) (n : Nat) : Pointer := {p with index := p.index + n}

inductive Access where
  | read (p : Pointer) | write (p : Pointer)
  deriving DecidableEq, Repr

abbrev Objects := Nat → List UInt8

structure State where
  memory : Objects
  log : List Access

def load (p : Pointer) : StateT State Option UInt8 := fun s => do
  let c ← Memory.load (s.memory p.object) p.index
  some (c,{s with log := s.log ++ [.read p]})

def store (p : Pointer) (c : UInt8) : StateT State Option Unit := fun s => do
  let cells ← Memory.store (s.memory p.object) p.index c
  some ((),⟨Function.update s.memory p.object cells,s.log ++ [.write p]⟩)

/- A char is signed. -/
def char (c : UInt8) : Int := (c.toNat : Int).bmod 256

def hexit (c : Int) : Int :=
  if 48 ≤ c ∧ c ≤ 57 then c - 48
  else if 97 ≤ c ∧ c ≤ 102 then c - 97 + 10
  else if 65 ≤ c ∧ c ≤ 70 then c - 65 + 10
  else 0

def encoded (from_ : Pointer) : StateT State Option Bool := do
  if (← load from_) = 37 then
    if isxdigit (← load (from_.after 1)) then return isxdigit (← load (from_.after 2)) else return false
  else return false

/- A loop that does not come to the end has no result before its steps run out. -/
def strDecode (to_ from_ : Pointer) : Nat → StateT State Option Unit
  | 0 => failure
  | left + 1 => do
    if (← load from_) = 0 then store to_ 0
    else if ← encoded from_ then
      let high ← load (from_.after 1)
      let low ← load (from_.after 2)
      store to_ (UInt8.ofInt (hexit (char high) * 16 + hexit (char low)))
      strDecode (to_.after 1) (from_.after 3) left
    else
      store to_ (← load from_)
      strDecode (to_.after 1) (from_.after 1) left

def Digit (d : UInt8) (n : Nat) : Prop :=
  (ascii "0123456789abcdef")[n]? = some d ∨ (ascii "0123456789ABCDEF")[n]? = some d

inductive Encodes : List UInt8 → List UInt8 → Prop where
  | nil : Encodes [] []
  | hex {a b : UInt8} {h l : Nat} {e s : List UInt8} (high : Digit a h) (low : Digit b l) (tail : Encodes e s) :
      Encodes (37::a::b::e) (UInt8.ofNat (16 * h + l)::s)
  | literal {c : UInt8} {e s : List UInt8}
      (plain : c = 37 → ∀ a b rest h l, e = a::b::rest → Digit a h → ¬ Digit b l) (tail : Encodes e s) :
      Encodes (c::e) (c::s)

def Holds (m : Objects) (p : Pointer) (bytes : List UInt8) : Prop :=
  ∀ i c, bytes[i]? = some c → Memory.load (m p.object) (p.after i).index = some c

/- All accesses lie between the pointer and the end of its string, and what is written has
been read and is not read again. -/
structure Confined (p : Pointer) (e : List UInt8) (log : List Access) : Prop where
  within : ∀ q, .read q ∈ log ∨ .write q ∈ log → ∃ i ≤ e.length, q = p.after i
  unread : ∀ front q back, log = front ++ .write q::back → .read q ∈ front ∧ .read q ∉ back

def Decodes (e s : List UInt8) : Prop :=
  ∀ (m : Objects) (source target : Pointer) (old : List UInt8) (left : Nat), Holds m source (e ++ [0]) →
    Holds m target old → old.length = s.length + 1 → target.object ≠ source.object → e.length < left →
      ∃ here away, strDecode source source left ⟨m,[]⟩ = some ((),here) ∧
        strDecode target source left ⟨m,[]⟩ = some ((),away) ∧ Holds here.memory source (s ++ [0]) ∧
        Holds away.memory target (s ++ [0]) ∧ away.memory source.object = m source.object ∧
        Confined source e here.log ∧ ∀ q, .read q ∈ away.log → ∃ i ≤ e.length, q = source.after i

theorem everyByte {P : UInt8 → Prop} (h : ∀ n < 256, P (UInt8.ofNat n)) (c : UInt8) : P c := by
  have here := h c.toNat c.toNat_lt
  rwa [UInt8.ofNat_toNat] at here

theorem hexitSame (c : UInt8) : hexit (char c) = (CheckAndSend.hexit c).toNat :=
  @everyByte (fun c => hexit (char c) = (CheckAndSend.hexit c).toNat) (by decide +kernel) c

theorem byteSame (a b : UInt8) : UInt8.ofInt (hexit (char a) * 16 + hexit (char b)) =
    CheckAndSend.hexit a * 16 + CheckAndSend.hexit b := by
  have kept : ∀ c : UInt8, UInt8.ofInt c.toNat = c := fun c => by
    have small := c.toNat_lt
    rw [UInt8.ofInt,Int.emod_eq_of_lt (by omega) (by omega),Int.toNat_natCast,UInt8.ofNat_toNat]
  rw [hexitSame,hexitSame,UInt8.ofInt_add,UInt8.ofInt_mul,kept,kept]
  rfl

instance (d : UInt8) (n : Nat) : Decidable (Digit d n) := inferInstanceAs (Decidable (_ ∨ _))

theorem digitHere (d : UInt8) : isxdigit d = true → Digit d (CheckAndSend.hexit d).toNat :=
  @everyByte (fun d => isxdigit d = true → Digit d (CheckAndSend.hexit d).toNat) (by decide +kernel) d

theorem digitRead {d : UInt8} {n : Nat} (digit : Digit d n) :
    isxdigit d = true ∧ CheckAndSend.hexit d = UInt8.ofNat n := by
  have every : ∀ n < 16, (∀ d ∈ (ascii "0123456789abcdef")[n]?, isxdigit d = true ∧ CheckAndSend.hexit d = UInt8.ofNat n) ∧
      ∀ d ∈ (ascii "0123456789ABCDEF")[n]?, isxdigit d = true ∧ CheckAndSend.hexit d = UInt8.ofNat n := by
    decide +kernel
  have short : n < 16 := by
    rcases digit with lower | upper
    · exact (List.getElem?_eq_some_iff.mp lower).1
    · exact (List.getElem?_eq_some_iff.mp upper).1
  rcases digit with lower | upper
  · exact (every n short).1 d lower
  · exact (every n short).2 d upper

theorem digitExact (d : UInt8) : isxdigit d = true ↔ ∃ n, Digit d n :=
  ⟨fun hex => ⟨_,digitHere d hex⟩,fun ⟨_,digit⟩ => (digitRead digit).1⟩

theorem decodeLiteral {c : UInt8} {e : List UInt8}
    (plain : c = 37 → ∀ a b rest, e = a::b::rest → isxdigit a = true → ¬ isxdigit b = true) :
    CheckAndSend.strDecode (c::e) = c::CheckAndSend.strDecode e := by
  rcases e with _ | ⟨a,_ | ⟨b,rest⟩⟩
  · rfl
  · rfl
  · rw [CheckAndSend.strDecode,if_neg fun hex => plain hex.1 a b rest rfl hex.2.1 hex.2.2]

theorem decodesEncoding {e s : List UInt8} (encoding : Encodes e s) : CheckAndSend.strDecode e = s := by
  induction encoding with
  | nil => rfl
  | hex high low tail ih =>
    obtain ⟨high,first⟩ := digitRead high
    obtain ⟨low,second⟩ := digitRead low
    rw [CheckAndSend.strDecode,if_pos ⟨rfl,high,low⟩,ih,first,second,UInt8.ofNat_add,UInt8.ofNat_mul,UInt8.mul_comm]
    rfl
  | literal plain tail ih =>
    rw [decodeLiteral fun percent a b rest shape high low => ?_,ih]
    obtain ⟨h,high⟩ := (digitExact a).mp high
    obtain ⟨l,low⟩ := (digitExact b).mp low
    exact plain percent a b rest h l shape high low

theorem encodingNoNul {e s : List UInt8} (encoding : Encodes e s) (noNul : 0 ∉ s) : 0 ∉ e := by
  induction encoding with
  | nil => exact noNul
  | hex high low tail ih =>
    have digitNul : ∀ {d n}, Digit d n → (0 : UInt8) ≠ d := fun digit zero => by
      have hex := (digitRead digit).1
      rw [← zero] at hex
      exact absurd hex (by decide)
    intro mem
    rcases List.mem_cons.mp mem with percent | mem
    · cases percent
    rcases List.mem_cons.mp mem with zero | mem
    · exact digitNul high zero
    rcases List.mem_cons.mp mem with zero | mem
    · exact digitNul low zero
    exact ih (fun later => noNul (List.mem_cons_of_mem _ later)) mem
  | literal plain tail ih =>
    intro mem
    rcases List.mem_cons.mp mem with zero | mem
    · exact noNul (by rw [zero]; exact List.mem_cons_self)
    · exact ih (fun later => noNul (List.mem_cons_of_mem _ later)) mem

section
variable {m : Objects} {p from_ : Pointer}

theorem afterZero (p : Pointer) : p.after 0 = p := by simp [Pointer.after]

theorem afterAfter (p : Pointer) (i j : Nat) : (p.after i).after j = p.after (i + j) := by
  simp [Pointer.after,Int.add_assoc]

theorem afterInj {i j : Nat} (same : p.after i = p.after j) : i = j := by
  have index := congrArg Pointer.index same
  simp only [Pointer.after] at index
  omega

theorem holdsCons {c : UInt8} {bytes : List UInt8} :
    Holds m p (c::bytes) ↔ Memory.load (m p.object) p.index = some c ∧ Holds m (p.after 1) bytes := by
  constructor
  · refine fun held => ⟨?_,fun i d here => ?_⟩
    · have first := held 0 c rfl
      rwa [afterZero] at first
    · have next := held (i + 1) d here
      rwa [afterAfter,Nat.add_comm]
  · rintro ⟨first,rest⟩ i d here
    cases i with
    | zero =>
      cases Option.some.inj here
      rwa [afterZero]
    | succ i =>
      have next := rest i d here
      rwa [afterAfter,Nat.add_comm] at next

theorem holdsDrop {bytes : List UInt8} (held : Holds m p bytes) (n : Nat) : Holds m (p.after n) (bytes.drop n) :=
  fun i c here => by
    rw [List.getElem?_drop] at here
    rw [afterAfter]
    exact held (n + i) c here

theorem loadStore {b cells : List UInt8} {i j : Int} {c : UInt8} (h : Memory.store b i c = some cells) :
    Memory.load cells j = if j = i then some c else Memory.load b j := by
  simp only [Memory.store,Option.ite_none_right_eq_some] at h
  obtain ⟨inside,same⟩ := h
  cases Option.some.inj same
  unfold Memory.load
  by_cases here : j = i
  · subst here
    rw [if_pos inside.1,if_pos rfl,List.getElem?_set_self (by omega)]
  · rw [if_neg here]
    split
    · rw [List.getElem?_set_ne (by omega)]
    · rfl

theorem storePossible {b : List UInt8} {i : Int} {old : UInt8} (c : UInt8) (here : Memory.load b i = some old) :
    ∃ cells, Memory.store b i c = some cells := by
  simp only [Memory.load,Option.ite_none_right_eq_some] at here
  have inside := (List.getElem?_eq_some_iff.mp here.2).1
  exact ⟨_,if_pos ⟨here.1,by omega⟩⟩

theorem bindRun {α β : Type} (x : StateT State Option α) (f : α → StateT State Option β) (s : State) :
    (x >>= f) s = (x s).bind fun r => f r.1 r.2 := rfl

theorem pureRun {α : Type} (a : α) (s : State) : (pure a : StateT State Option α) s = some (a,s) := rfl

theorem loadRun {c : UInt8} (here : Memory.load (m p.object) p.index = some c) (log : List Access) :
    load p ⟨m,log⟩ = some (c,⟨m,log ++ [.read p]⟩) := by
  simp [load,here]

theorem storeRun {cells : List UInt8} {c : UInt8} (here : Memory.store (m p.object) p.index c = some cells)
    (log : List Access) : store p c ⟨m,log⟩ = some ((),⟨Function.update m p.object cells,log ++ [.write p]⟩) := by
  simp [store,here]

theorem encodedHex {a b : UInt8} {e : List UInt8} (held : Holds m from_ (37::a::b::e))
    (high : isxdigit a = true) (low : isxdigit b = true) (log : List Access) : encoded from_ ⟨m,log⟩ =
      some (true,⟨m,log ++ [.read from_,.read (from_.after 1),.read (from_.after 2)]⟩) := by
  obtain ⟨first,rest⟩ := holdsCons.mp held
  obtain ⟨second,rest⟩ := holdsCons.mp rest
  obtain ⟨third,_⟩ := holdsCons.mp rest
  rw [afterAfter] at third
  simp only [encoded,bindRun,pureRun,loadRun first,loadRun second,loadRun third,Option.bind_some,if_true,high,low]
  simp

theorem encodedSecond {a : UInt8} (first : Memory.load (m from_.object) from_.index = some 37)
    (second : Memory.load (m from_.object) (from_.after 1).index = some a) (high : ¬ isxdigit a = true)
    (log : List Access) : encoded from_ ⟨m,log⟩ =
      some (false,⟨m,log ++ [0,1].map fun i => .read (from_.after i)⟩) := by
  have second' := @loadRun m (from_.after 1) a second
  simp only [encoded,bindRun,pureRun,loadRun first,second',Option.bind_some,if_true,if_neg high]
  simp [afterZero]

theorem encodedThird {a b : UInt8} (first : Memory.load (m from_.object) from_.index = some 37)
    (second : Memory.load (m from_.object) (from_.after 1).index = some a) (high : isxdigit a = true)
    (third : Memory.load (m from_.object) (from_.after 2).index = some b) (log : List Access) :
    encoded from_ ⟨m,log⟩ = some (isxdigit b,⟨m,log ++ [0,1,2].map fun i => .read (from_.after i)⟩) := by
  have second' := @loadRun m (from_.after 1) a second
  have third' := @loadRun m (from_.after 2) b third
  simp only [encoded,bindRun,pureRun,loadRun first,second',third',Option.bind_some,if_true,high]
  simp [afterZero]

theorem encodedPlain {c : UInt8} {e : List UInt8} (held : Holds m from_ (c::e ++ [0]))
    (plain : c = 37 → ∀ a b rest, e = a::b::rest → isxdigit a = true → ¬ isxdigit b = true) :
    ∃ looked : List Nat, (∀ i ∈ looked, i ≤ (c::e).length) ∧ ∀ log, encoded from_ ⟨m,log⟩ =
      some (false,⟨m,log ++ looked.map fun i => .read (from_.after i)⟩) := by
  have nul : ¬ isxdigit 0 = true := by decide
  obtain ⟨first,rest⟩ := holdsCons.mp held
  by_cases percent : c = 37
  · subst percent
    rcases e with _ | ⟨a,e⟩
    · exact ⟨[0,1],by simp,encodedSecond first (holdsCons.mp rest).1 nul⟩
    · obtain ⟨second,rest⟩ := holdsCons.mp rest
      rw [afterAfter] at rest
      by_cases high : isxdigit a = true
      · refine ⟨[0,1,2],by simp,?_⟩
        rcases e with _ | ⟨b,e⟩
        · exact encodedThird first second high (holdsCons.mp rest).1
        · have third := @encodedThird m from_ a b first second high (holdsCons.mp rest).1
          rwa [Bool.eq_false_iff.mpr (plain rfl a b e rfl high)] at third
      · exact ⟨[0,1],by simp,encodedSecond first second high⟩
  · refine ⟨[0],by simp,fun log => ?_⟩
    simp only [encoded,bindRun,pureRun,loadRun first,Option.bind_some,if_neg percent]
    simp [afterZero]

theorem decodeStep {c : UInt8} {e : List UInt8} (held : Holds m from_ (c::e ++ [0])) (noNul : c ≠ 0) :
    ∃ (n : Nat) (v : UInt8) (looked : List Nat), 0 < n ∧ n ≤ (c::e).length ∧
      CheckAndSend.strDecode (c::e) = v::CheckAndSend.strDecode ((c::e).drop n) ∧
      (∀ i ∈ looked, i ≤ (c::e).length) ∧ (∀ i < n, i ∈ looked) ∧
      ∀ (to_ : Pointer) (left : Nat) (log : List Access) (cells : List UInt8),
        Memory.store (m to_.object) to_.index v = some cells →
        strDecode to_ from_ (left + 1) ⟨m,log⟩ = strDecode (to_.after 1) (from_.after n) left
          ⟨Function.update m to_.object cells,
            log ++ (looked.map fun i => .read (from_.after i)) ++ [.write to_]⟩ := by
  obtain ⟨first,_⟩ := holdsCons.mp held
  by_cases hex : c = 37 ∧ ∃ a b rest, e = a::b::rest ∧ isxdigit a = true ∧ isxdigit b = true
  · obtain ⟨rfl,a,b,rest,rfl,high,low⟩ := hex
    obtain ⟨_,behind⟩ := holdsCons.mp held
    obtain ⟨second,behind⟩ := holdsCons.mp behind
    obtain ⟨third,_⟩ := holdsCons.mp behind
    rw [afterAfter] at third
    have second' := @loadRun m (from_.after 1) a second
    have third' := @loadRun m (from_.after 2) b third
    refine ⟨3,CheckAndSend.hexit a * 16 + CheckAndSend.hexit b,[0,0,1,2,1,2],by omega,by simp,?_,by simp,?_,?_⟩
    · rw [CheckAndSend.strDecode,if_pos ⟨rfl,high,low⟩]
      rfl
    · intro i before
      obtain rfl | rfl | rfl : i = 0 ∨ i = 1 ∨ i = 2 := by omega
      all_goals simp
    · intro to_ left log cells stored
      rw [← byteSame] at stored
      simp only [strDecode,bindRun,loadRun first,encodedHex held high low,second',third',storeRun stored,
        Option.bind_some,if_neg noNul,if_true]
      simp [afterZero]
  · have plain : c = 37 → ∀ a b rest, e = a::b::rest → isxdigit a = true → ¬ isxdigit b = true :=
      fun percent a b rest shape high low => hex ⟨percent,a,b,rest,shape,high,low⟩
    obtain ⟨looked,within,ran⟩ := encodedPlain held plain
    refine ⟨1,c,0::looked ++ [0],by omega,by simp,decodeLiteral plain,?_,?_,?_⟩
    · intro i mem
      simp only [List.cons_append,List.mem_cons,List.mem_append,List.not_mem_nil,or_false] at mem
      rcases mem with rfl | mem | rfl
      · omega
      · exact within i mem
      · omega
    · intro i before
      obtain rfl : i = 0 := by omega
      exact List.mem_cons_self
    · intro to_ left log cells stored
      simp only [strDecode,bindRun,loadRun first,ran,storeRun stored,Option.bind_some,if_neg noNul,
        Bool.false_eq_true,if_false]
      simp [afterZero]

theorem decodeStop (held : Holds m from_ [0]) (to_ : Pointer) (left : Nat) (log : List Access) {cells : List UInt8}
    (stored : Memory.store (m to_.object) to_.index 0 = some cells) : strDecode to_ from_ (left + 1) ⟨m,log⟩ =
      some ((),⟨Function.update m to_.object cells,log ++ [.read from_,.write to_]⟩) := by
  simp only [strDecode,bindRun,loadRun (holdsCons.mp held).1,storeRun stored,Option.bind_some,if_true]
  simp

structure Ran (m m' : Objects) (to_ from_ : Pointer) (e s : List UInt8) (log : List Access) : Prop where
  result : Holds m' to_ (s ++ [0])
  frame : ∀ q : Pointer, q.object ≠ to_.object ∨ q.index < to_.index →
    Memory.load (m' q.object) q.index = Memory.load (m q.object) q.index
  others : ∀ object, object ≠ to_.object → m' object = m object
  reads : ∀ q, .read q ∈ log → ∃ i ≤ e.length, q = from_.after i
  writes : ∀ q, .write q ∈ log → ∃ k ≤ s.length, q = to_.after k
  order : ∀ front k back, log = front ++ .write (to_.after k)::back →
    (∀ i ≤ k, .read (from_.after i) ∈ front) ∧ ∀ i, .read (from_.after i) ∈ back → k < i

theorem splitBehind {α : Type} {front back reads rest : List α} {a w : α} (apart : a ∉ reads)
    (split : reads ++ w::rest = front ++ a::back) :
    front = reads ∧ w = a ∧ rest = back ∨ ∃ front', front = reads ++ w::front' ∧ rest = front' ++ a::back := by
  rcases List.append_eq_append_iff.mp split with ⟨more,shape,tail⟩ | ⟨more,shape,tail⟩
  · cases more with
    | nil =>
      obtain ⟨same,last⟩ := List.cons.inj tail
      exact .inl ⟨by simpa using shape,same,last⟩
    | cons b more =>
      obtain ⟨rfl,last⟩ := List.cons.inj tail
      exact .inr ⟨more,shape,last⟩
  · cases more with
    | nil =>
      obtain ⟨same,last⟩ := List.cons.inj tail
      exact .inl ⟨by simpa using shape.symm,same.symm,last.symm⟩
    | cons b more =>
      obtain ⟨rfl,_⟩ := List.cons.inj tail
      exact absurd (by rw [shape]; simp) apart

theorem storedLoad {to_ q : Pointer} {v : UInt8} {cells : List UInt8}
    (stored : Memory.store (m to_.object) to_.index v = some cells)
    (apart : q.object ≠ to_.object ∨ q.index ≠ to_.index) :
    Memory.load (Function.update m to_.object cells q.object) q.index = Memory.load (m q.object) q.index := by
  by_cases same : q.object = to_.object
  · rw [same,Function.update_self,loadStore stored,if_neg (apart.resolve_left fun other => other same)]
  · rw [Function.update_of_ne same]

theorem heldAfter {to_ q : Pointer} {v : UInt8} {cells bytes : List UInt8}
    (stored : Memory.store (m to_.object) to_.index v = some cells) (held : Holds m q bytes)
    (apart : q.object ≠ to_.object ∨ to_.index < q.index) :
    Holds (Function.update m to_.object cells) q bytes := fun i c here => by
  rw [← held i c here]
  refine @storedLoad m to_ (q.after i) v cells stored (apart.imp_right fun behind => ?_)
  simp only [Pointer.after]
  omega

theorem ranStop {to_ : Pointer} {cells : List UInt8}
    (stored : Memory.store (m to_.object) to_.index 0 = some cells) :
    Ran m (Function.update m to_.object cells) to_ from_ [] [] [.read from_,.write to_] := by
  refine ⟨holdsCons.mpr ⟨?_,fun i c here => by cases here⟩,fun q away => ?_,fun object other => ?_,fun q mem => ?_,
    fun q mem => ?_,fun front k back split => ?_⟩
  · rw [Function.update_self,loadStore stored,if_pos rfl]
  · exact storedLoad stored (away.imp_right fun front => by omega)
  · exact Function.update_of_ne other _ _
  · obtain rfl : q = from_ := by simpa using mem
    exact ⟨0,Nat.le_refl _,(afterZero _).symm⟩
  · obtain rfl : q = to_ := by simpa using mem
    exact ⟨0,Nat.le_refl _,(afterZero _).symm⟩
  · rcases @splitBehind _ front back [.read from_] [] (.write (to_.after k)) (.write to_) (by simp) split with
      ⟨rfl,same,rfl⟩ | ⟨front',_,tail⟩
    · obtain rfl : 0 = k := afterInj ((afterZero to_).trans (Access.write.inj same))
      refine ⟨fun i first => ?_,fun i mem => by cases mem⟩
      obtain rfl : i = 0 := by omega
      rw [afterZero]
      exact List.mem_cons_self
    · simp at tail

theorem ranNext {m' : Objects} {to_ : Pointer} {n : Nat} {v : UInt8} {looked : List Nat} {cells e s : List UInt8}
    {log : List Access} (some_ : 0 < n) (passed : n ≤ e.length) (within : ∀ i ∈ looked, i ≤ e.length)
    (all : ∀ i < n, i ∈ looked) (stored : Memory.store (m to_.object) to_.index v = some cells)
    (ran : Ran (Function.update m to_.object cells) m' (to_.after 1) (from_.after n) (e.drop n) s log) :
    Ran m m' to_ from_ e (v::s) ((looked.map fun i => .read (from_.after i)) ++ .write to_::log) := by
  have front : to_.index < (to_.after 1).index := by
    simp only [Pointer.after]
    omega
  refine ⟨holdsCons.mpr ⟨?_,ran.result⟩,fun q away => ?_,fun object other => ?_,fun q mem => ?_,fun q mem => ?_,
    fun before k back split => ?_⟩
  · rw [ran.frame to_ (.inr front),Function.update_self,loadStore stored,if_pos rfl]
  · rw [ran.frame q (away.imp_right fun front' => by omega)]
    exact storedLoad stored (away.imp_right fun front => by omega)
  · exact (ran.others object other).trans (Function.update_of_ne other _ _)
  · rcases List.mem_append.mp mem with mem | mem
    · obtain ⟨i,here,same⟩ := List.mem_map.mp mem
      exact ⟨i,within i here,(Access.read.inj same).symm⟩
    · obtain ⟨i,short,rfl⟩ := ran.reads q (by simpa using mem)
      rw [List.length_drop] at short
      exact ⟨n + i,by omega,afterAfter from_ n i⟩
  · rcases List.mem_append.mp mem with mem | mem
    · obtain ⟨i,_,other⟩ := List.mem_map.mp mem
      cases other
    · rcases List.mem_cons.mp mem with same | mem
      · exact ⟨0,Nat.zero_le _,by rw [Access.write.inj same,afterZero]⟩
      · obtain ⟨k,short,rfl⟩ := ran.writes q mem
        exact ⟨k + 1,by rw [List.length_cons]; omega,by rw [afterAfter,Nat.add_comm]⟩
  · have apart : Access.write (to_.after k) ∉ looked.map fun i => .read (from_.after i) := fun mem => by
      obtain ⟨i,_,other⟩ := List.mem_map.mp mem
      cases other
    rcases splitBehind apart split with ⟨rfl,same,rfl⟩ | ⟨before',rfl,rfl⟩
    · obtain rfl : 0 = k := afterInj ((afterZero to_).trans (Access.write.inj same))
      refine ⟨fun i first => List.mem_map.mpr ⟨i,all i (by omega),rfl⟩,fun i mem => ?_⟩
      obtain ⟨j,_,same⟩ := ran.reads _ mem
      rw [afterAfter] at same
      have place := afterInj same
      omega
    · obtain ⟨k',_,same⟩ := ran.writes (to_.after k) (by simp)
      rw [afterAfter] at same
      obtain rfl : k = 1 + k' := afterInj same
      obtain ⟨seen,unseen⟩ := ran.order before' k' back (by rw [afterAfter])
      refine ⟨fun i low => ?_,fun i mem => ?_⟩
      · by_cases first : i < n
        · exact List.mem_append_left _ (List.mem_map.mpr ⟨i,all i first,rfl⟩)
        · have later := seen (i - n) (by omega)
          rw [afterAfter,Nat.add_sub_cancel' (Nat.le_of_not_lt first)] at later
          exact List.mem_append_right _ (List.mem_cons_of_mem _ later)
      · obtain ⟨j,_,place⟩ := ran.reads (from_.after i) (by simp [mem])
        rw [place] at mem
        have later := unseen j mem
        rw [afterAfter] at place
        have index := afterInj place
        omega

/- The writing pointer stays behind the reading one, or is in another object. -/
theorem strDecodeRan {to_ : Pointer} {e old : List UInt8} {left : Nat} (noNul : 0 ∉ e) (enough : e.length < left)
    (held : Holds m from_ (e ++ [0])) (room : Holds m to_ old)
    (size : old.length = (CheckAndSend.strDecode e).length + 1)
    (behind : from_.object ≠ to_.object ∨ to_.index ≤ from_.index) (log : List Access) : ∃ m' log',
      strDecode to_ from_ left ⟨m,log⟩ = some ((),⟨m',log ++ log'⟩) ∧
      Ran m m' to_ from_ e (CheckAndSend.strDecode e) log' := by
  induction left generalizing m to_ from_ e old log with
  | zero => omega
  | succ left ih =>
    obtain ⟨first,old,rfl⟩ := List.exists_cons_of_length_eq_add_one size
    obtain ⟨place,room⟩ := holdsCons.mp room
    cases e with
    | nil =>
      obtain ⟨cells,stored⟩ := storePossible 0 place
      exact ⟨_,_,decodeStop held to_ left log stored,ranStop stored⟩
    | cons c e =>
      obtain ⟨n,v,looked,some_,passed,decoded,within,all,step⟩ :=
        decodeStep held fun zero => noNul (by rw [zero]; exact List.mem_cons_self)
      obtain ⟨cells,stored⟩ := storePossible v place
      have later := holdsDrop held n
      rw [List.drop_append_of_le_length passed] at later
      have short : ((c::e).drop n).length < left := by
        rw [List.length_drop]
        omega
      rw [decoded] at size ⊢
      have moves : to_.index < (from_.after n).index ∨ from_.object ≠ to_.object :=
        behind.symm.imp_left fun low => by
          simp only [Pointer.after]
          omega
      obtain ⟨m',log',ran,leaves⟩ := @ih (Function.update m to_.object cells) (from_.after n) (to_.after 1)
        ((c::e).drop n) old (fun mem => noNul (List.mem_of_mem_drop mem)) short
        (heldAfter stored later moves.symm) (heldAfter stored room (.inr (by simp only [Pointer.after]; omega)))
        (by simpa using size) (behind.imp_right fun low => by simp only [Pointer.after]; omega)
        (log ++ (looked.map fun i => .read (from_.after i)) ++ [.write to_])
      refine ⟨m',_,?_,ranNext some_ passed within all stored leaves⟩
      rw [step to_ left log cells stored,ran]
      simp

theorem ranConfined {m' : Objects} {e s : List UInt8} {log : List Access} (short : s.length ≤ e.length)
    (ran : Ran m m' p p e s log) : Confined p e log := by
  refine ⟨fun q mem => ?_,fun front q back split => ?_⟩
  · rcases mem with read | written
    · exact ran.reads q read
    · obtain ⟨k,low,rfl⟩ := ran.writes q written
      exact ⟨k,by omega,rfl⟩
  · obtain ⟨k,_,rfl⟩ := ran.writes q (by rw [split]; simp)
    obtain ⟨seen,unseen⟩ := ran.order front k back split
    exact ⟨seen k (Nat.le_refl k),fun mem => absurd (unseen k mem) (Nat.lt_irrefl k)⟩

theorem strDecodeDecodes {e : List UInt8} (noNul : 0 ∉ e) : Decodes e (CheckAndSend.strDecode e) := by
  intro m source target old left held room size apart enough
  have short := CheckAndSend.strDecodeLength e
  have itself : Holds m source ((e ++ [0]).take ((CheckAndSend.strDecode e).length + 1)) := fun i c here => by
    rw [List.getElem?_take] at here
    split at here
    · exact held i c here
    · cases here
  obtain ⟨m',log',ran,leaves⟩ := strDecodeRan noNul enough held itself (by simp; omega) (.inr (Int.le_refl _)) []
  obtain ⟨m'',log'',ran',leaves'⟩ := strDecodeRan noNul enough held room size (.inl apart.symm) []
  exact ⟨_,_,ran,ran',leaves.result,leaves'.result,leaves'.others source.object apart.symm,
    ranConfined short leaves,leaves'.reads⟩

theorem loadErased (m : Objects) (p : Pointer) (log : List Access) : load p ⟨m,log⟩ =
    (Memory.load (m p.object) p.index).map fun c => (c,⟨m,log ++ [.read p]⟩) := by
  unfold load
  cases Memory.load (m p.object) p.index <;> rfl

theorem encodedErased (m : Objects) (p : Pointer) (log : List Access) : ∃ log', encoded p ⟨m,log⟩ =
    (RequestMemory.encoded (m p.object) p.index).map fun hex => (hex,⟨m,log'⟩) := by
  simp only [encoded,RequestMemory.encoded,bindRun,loadErased]
  cases first : Memory.load (m p.object) p.index with
  | none => exact ⟨log,rfl⟩
  | some c =>
    simp only [Option.map_some,Option.bind_some,bind]
    by_cases percent : c = 37
    · simp only [if_pos percent]
      change ∃ log', ((load (p.after 1) _).bind _) = _
      rw [loadErased]
      change ∃ log', ((Memory.load (m p.object) (p.index + 1)).map _).bind _ = _
      cases second : Memory.load (m p.object) (p.index + 1) with
      | none => exact ⟨log,rfl⟩
      | some a =>
        simp only [Option.map_some,Option.bind_some]
        by_cases high : isxdigit a = true
        · simp only [if_pos high]
          change ∃ log', ((load (p.after 2) _).bind _) = _
          rw [loadErased]
          change ∃ log', ((Memory.load (m p.object) (p.index + 2)).map _).bind _ = _
          cases third : Memory.load (m p.object) (p.index + 2) with
          | none => exact ⟨log,rfl⟩
          | some b => exact ⟨_,rfl⟩
        · simp only [if_neg high]
          exact ⟨_,rfl⟩
    · simp only [if_neg percent]
      exact ⟨_,rfl⟩

theorem storeErased (m : Objects) (p : Pointer) (c : UInt8) (log : List Access) : store p c ⟨m,log⟩ =
    (Memory.store (m p.object) p.index c).map fun cells =>
      ((),⟨Function.update m p.object cells,log ++ [.write p]⟩) := by
  unfold store
  cases Memory.store (m p.object) p.index c <;> rfl

theorem loadThen {α β : Type} (m : Objects) (p : Pointer) (log : List Access) {f : UInt8 × State → Option α}
    {g : UInt8 → Option β} {k : α → β}
    (rest : ∀ c, Memory.load (m p.object) p.index = some c → (f (c,⟨m,log ++ [.read p]⟩)).map k = g c) :
    ((load p ⟨m,log⟩).bind f).map k = (Memory.load (m p.object) p.index).bind g := by
  rw [loadErased]
  cases read : Memory.load (m p.object) p.index with
  | none => rfl
  | some c => exact rest c read

theorem strDecodeErased (m : Objects) (to_ from_ : Pointer) (same : to_.object = from_.object) (log : List Access)
    (left : Nat) : (strDecode to_ from_ left ⟨m,log⟩).map (fun r => r.2.memory from_.object) =
      RequestMemory.strDecode (m from_.object) to_.index from_.index left := by
  induction left generalizing m to_ from_ log with
  | zero => rfl
  | succ left ih =>
    -- A step ends in a store and what the loop does on the changed object.
    have stored : ∀ (v : UInt8) (n : Nat) (log : List Access),
        ((store to_ v ⟨m,log⟩).bind fun r => strDecode (to_.after 1) (from_.after n) left r.2).map
          (fun r => r.2.memory from_.object) = (Memory.store (m from_.object) to_.index v).bind fun cells =>
            RequestMemory.strDecode cells (to_.index + 1) (from_.index + n) left := fun v n log => by
      rw [storeErased,same]
      cases Memory.store (m from_.object) to_.index v with
      | none => rfl
      | some cells =>
        simp only [Option.map_some,Option.bind_some]
        have next := ih (Function.update m from_.object cells) (to_.after 1) (from_.after n) same (log ++ [.write to_])
        simp only [Pointer.after,Function.update_self] at next
        exact next
    rw [strDecode,RequestMemory.strDecode,bindRun]
    refine loadThen m from_ log fun c first => ?_
    by_cases zero : c = 0
    · simp only [if_pos zero]
      rw [storeErased,same]
      cases Memory.store (m from_.object) to_.index 0 with
      | none => rfl
      | some cells => simp
    · simp only [if_neg zero]
      obtain ⟨log',tested⟩ := encodedErased m from_ (log ++ [.read from_])
      rw [bindRun,tested]
      cases RequestMemory.encoded (m from_.object) from_.index with
      | none => rfl
      | some hex =>
        cases hex with
        | true =>
          refine loadThen m (from_.after 1) log' fun high _ => ?_
          refine loadThen m (from_.after 2) _ fun low _ => ?_
          have step := stored (UInt8.ofInt (hexit (char high) * 16 + hexit (char low))) 3
          rw [byteSame] at step
          simp only [byteSame]
          exact step _
        | false =>
          change (((load from_ _).bind _).map _) = _
          rw [loadErased,first]
          exact stored c 1 _

/-- Every encoding of a string is decoded to it, and every string in its own place as into another.
In one object these are the steps that checkAndSend's model takes. -/
theorem urlDecoding : (∀ e s : List UInt8, 0 ∉ s → Encodes e s → Decodes e s) ∧
    (∀ e : List UInt8, 0 ∉ e → ∃ s, Decodes e s) ∧
    ∀ (m : Objects) (to_ from_ : Pointer) (left : Nat), to_.object = from_.object →
      (strDecode to_ from_ left ⟨m,[]⟩).map (fun r => r.2.memory from_.object) =
        RequestMemory.strDecode (m from_.object) to_.index from_.index left := by
  refine ⟨fun e s noNul encoding => ?_,fun e noNul => ⟨_,strDecodeDecodes noNul⟩,
    fun m to_ from_ left same => strDecodeErased m to_ from_ same [] left⟩
  have decoded := strDecodeDecodes (encodingNoNul encoding noNul)
  rwa [decodesEncoding encoding] at decoded

theorem urlDecodingPercent : Decodes (ascii "%4a%4A%4") (ascii "JJ%4") := by
  have bytes : ascii "%4a%4A%4" = [37,52,97,37,52,65,37,52] := by decide
  have result : ascii "JJ%4" = [UInt8.ofNat (16 * 4 + 10),UInt8.ofNat (16 * 4 + 10),37,52] := by decide
  rw [bytes,result]
  have four : Digit 52 4 := .inl (by decide)
  refine urlDecoding.1 _ _ (by decide) (.hex four (.inl (by decide)) (.hex four (.inr (by decide))
    (.literal (fun _ a b rest h l same => ?_) (.literal (fun other => absurd other (by decide)) .nil))))
  cases same

example : ((strDecode ⟨0,0⟩ ⟨0,0⟩ 6 ⟨fun _ => ascii "%4%41" ++ [0],[]⟩).map fun r => r.2.memory 0) =
    some (ascii "%4A" ++ [0,49,0]) := by decide +kernel

end

end IttyBittyServer.Decoding
