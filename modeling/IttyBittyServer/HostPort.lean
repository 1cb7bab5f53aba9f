import IttyBittyServer.FieldMemory
import IttyBittyServer.Rewrite

/-! chopPortNum and getPortNumber on the string that the Host field holds: the host's name
without the port, and the port that the proxy connects to. -/
namespace IttyBittyServer.HostPort
open Text Memory
open Rewrite (HostLine hostField)

def strrchr (b : List UInt8) (p : Int) (c : UInt8) : Option (Option Int) := do
  let s ← text b p
  some ((Text.strrchr s c).map fun found => p + (s.length - found.length))

/- `eos` goes down over the string. A loop that leaves the object has no result before its
steps run out. -/
def chopLoop (server : List UInt8) (eos : Int) : Nat → Option Int
  | 0 => none
  | left + 1 => do
    let ch ← load server eos
    if isdigit ch ∨ ch = 32 ∨ ch = 58 then
      if ch = 58 then some (eos - 1) else chopLoop server (eos - 1) left
    else some eos

def eos (server : List UInt8) : Option Int := do
  let length ← strlen server 0
  chopLoop server (length - 1) server.length

def chopPortNum (server : List UInt8) : Option (Option (List UInt8)) := do
  let eos ← eos server
  match calloc (eos + 2) with
  | none => some none
  | some retVal => do
    let retVal ← strncpy retVal 0 server 0 (eos + 1)
    some (some retVal)

def getPortNumber (server : List UInt8) : Option Int := do
  match ← strrchr server 0 58 with
  | none => some 80
  | some colon =>
    if (← load server (colon - 1)) ≠ 112 then
      let colon := colon + 1
      let num := List.replicate 100 0
      let num ← strncpy num 0 server colon (← strlen server colon)
      some (atoi (← text num 0))
    else some 80

/- The port of the address that handleClient connects to: htons takes a uint16_t. -/
def sinPort (fullServer : List UInt8) : Option UInt16 := (getPortNumber fullServer).map UInt16.ofInt

def hostByte (c : UInt8) : Bool :=
  isdigit c || (65 ≤ c && c ≤ 90) || (97 ≤ c && c ≤ 122) || c == 45 || c == 46

structure Host (h : List UInt8) : Prop where
  nonempty : h ≠ []
  bytes : ∀ c ∈ h, hostByte c = true

theorem Host.without {h : List UInt8} {c : UInt8} (host : Host h) (other : hostByte c = false) : c ∉ h :=
  fun mem => absurd (host.bytes c mem) (by simp [other])

theorem digitsWithout {p : List UInt8} {c : UInt8} (digits : ∀ c ∈ p, isdigit c = true)
    (other : isdigit c = false) : c ∉ p :=
  fun mem => absurd (digits c mem) (by simp [other])

theorem chopLoopExact (s rest : List UInt8) {i left : Nat} (inside : i ≤ s.length) (enough : i < left) :
    chopLoop (s ++ rest) (i - 1) left =
      (Rewrite.chopLoop (s.take i).reverse).map fun back => (back.length : Int) - 1 := by
  induction i generalizing left with
  | zero =>
    obtain ⟨left,rfl⟩ := Nat.exists_eq_succ_of_ne_zero (Nat.ne_of_gt enough)
    simp [chopLoop,load,Rewrite.chopLoop]
  | succ i ih =>
    obtain ⟨left,rfl⟩ := Nat.exists_eq_succ_of_ne_zero (Nat.ne_of_gt (Nat.lt_of_le_of_lt (Nat.zero_le _) enough))
    have here : load (s ++ rest) (i : Int) = some s[i] := loadFront rest (show i < s.length by omega)
    have back : (s.take (i + 1)).reverse = s[i]::(s.take i).reverse := by
      rw [List.take_succ_eq_append_getElem (show i < s.length by omega)]
      simp
    have index : ((i + 1 : Nat) : Int) - 1 = i := by omega
    have size : ((s.take i).reverse.length : Int) = i := by simp; omega
    rw [index,chopLoop,here,back,Rewrite.chopLoop]
    simp only [bind,Option.bind_some]
    by_cases skipped : isdigit s[i] = true ∨ s[i] = 32 ∨ s[i] = 58
    · rw [if_pos skipped,if_pos skipped]
      by_cases colon : s[i] = 58
      · rw [if_pos colon,if_pos colon,Option.map_some,size]
      · rw [if_neg colon,if_neg colon]
        exact ih (by omega) (by omega)
    · rw [if_neg skipped,if_neg skipped,Option.map_some,List.length_cons]
      congr 1
      push_cast
      omega

theorem chopSuffix {s back : List UInt8} (h : Rewrite.chopLoop s = some back) : back <:+ s := by
  induction s with
  | nil => cases h
  | cons c s ih =>
    rw [Rewrite.chopLoop] at h
    split at h
    · split at h
      · cases Option.some.inj h
        exact List.suffix_cons _ _
      · exact (ih h).trans (List.suffix_cons _ _)
    · cases Option.some.inj h
      exact List.suffix_refl _

theorem eosExact {s : List UInt8} (noNul : 0 ∉ s) (rest : List UInt8) : eos (s ++ 0::rest) =
    (Rewrite.chopPortNum s).map fun h => (h.length : Int) - 1 := by
  have length := strlenHere noNul rest (Nat.zero_le _)
  have scanned := chopLoopExact s (0::rest) (Nat.le_refl _) (show s.length < (s ++ 0::rest).length by simp)
  rw [List.take_length] at scanned
  simp only [Nat.cast_zero,Int.sub_zero] at length
  rw [eos,length]
  simp only [bind,Option.bind_some,scanned,Rewrite.chopPortNum,Option.map_map]
  congr 1
  funext back
  simp

theorem chopPortNumExact {s : List UInt8} (noNul : 0 ∉ s) (rest : List UInt8) :
    chopPortNum (s ++ 0::rest) = (Rewrite.chopPortNum s).map fun h =>
      if h.length < 2 ^ 63 - 1 then some (h ++ [0]) else none := by
  rw [chopPortNum,eosExact noNul]
  cases chopped : Rewrite.chopPortNum s with
  | none => rfl
  | some h =>
    obtain ⟨back,scanned,rfl⟩ := Option.map_eq_some_iff.mp chopped
    have isPrefix : back.reverse <+: s := by
      rw [← List.reverse_reverse s]
      exact List.reverse_prefix.mpr (chopSuffix scanned)
    generalize back.reverse = h at isPrefix
    obtain ⟨tail,rfl⟩ := isPrefix
    have plain : 0 ∉ h := fun mem => noNul (List.mem_append_left _ mem)
    have copied := @strncpyFresh (h ++ tail ++ 0::rest) 0 h.length (.inl (by simp))
    have taken : ((h ++ tail ++ 0::rest).drop 0).take h.length = h := by simp
    rw [taken,cstringExact plain,Nat.sub_self] at copied
    simp only [Option.map_some,bind,Option.bind_some]
    by_cases room : h.length < 2 ^ 63 - 1
    · have fresh : calloc ((h.length : Int) - 1 + 2) = some (List.replicate (h.length + 1) 0) := by
        unfold calloc
        rw [if_pos (by omega)]
        congr 2
        omega
      have count : (h.length : Int) - 1 + 1 = h.length := by omega
      rw [fresh,if_pos room,count]
      simp only [Nat.cast_zero] at copied
      simp only [copied,Option.bind_some]
      rfl
    · have none_ : calloc ((h.length : Int) - 1 + 2) = none := by
        unfold calloc
        rw [if_neg (by omega)]
      rw [none_,if_neg room]

theorem hostKept {h : List UInt8} (host : Host h) :
    Rewrite.chopPortNum h = some h ↔ ∀ c ∈ h.getLast?, isdigit c = false := by
  obtain ⟨front,last,rfl⟩ : ∃ front last, h = front ++ [last] :=
    ⟨_,_,(List.dropLast_concat_getLast host.nonempty).symm⟩
  have notBlank : last ≠ 32 := fun same => host.without (by decide) (show (32 : UInt8) ∈ _ by simp [← same])
  have notColon : last ≠ 58 := fun same => host.without (by decide) (show (58 : UInt8) ∈ _ by simp [← same])
  simp only [Rewrite.chopPortNum,List.reverse_append,List.reverse_singleton,List.singleton_append,
    List.getLast?_append,List.getLast?_singleton,Option.some_or,Option.mem_some_iff,forall_eq']
  cases digit : isdigit last with
  | false => simp [Rewrite.chopLoop,digit,notBlank,notColon]
  | true =>
    simp only [Rewrite.chopLoop,digit,notColon,true_or,if_true,if_false]
    refine iff_of_false (fun whole => ?_) (by simp)
    obtain ⟨back,scanned,same⟩ := Option.map_eq_some_iff.mp whole
    have shorter := (chopSuffix scanned).length_le
    have size := congrArg List.length same
    simp at shorter size
    omega

structure Chopped (h p rest : List UInt8) : Prop where
  whole : chopPortNum (h ++ 0::rest) = some (some (h ++ [0]))
  port : chopPortNum (h ++ 58::p ++ 0::rest) = some (some (h ++ [0]))
  inside : ∃ i, eos (h ++ 0::rest) = some i ∧ 0 ≤ i
  insidePort : ∃ i, eos (h ++ 58::p ++ 0::rest) = some i ∧ 0 ≤ i

/-- A host whose last byte is a digit loses it where no port follows, and an object holds
no more bytes than ptrdiff_t counts. -/
theorem chopExact {h p : List UInt8} (host : Host h) (digits : p ≠ [] ∧ ∀ c ∈ p, isdigit c = true)
    (rest : List UInt8) :
    Chopped h p rest ↔ (∀ c ∈ h.getLast?, isdigit c = false) ∧ h.length < 2 ^ 63 - 1 := by
  have noNul : 0 ∉ h := host.without (by decide)
  have noNulPort : 0 ∉ h ++ 58::p := by
    simp [noNul,digitsWithout digits.2 (show isdigit 0 = false by decide)]
  have whole := chopPortNumExact noNul rest
  have port := chopPortNumExact noNulPort rest
  have some_ := List.length_pos_iff.mpr host.nonempty
  rw [Rewrite.chopDigits digits.2,Option.map_some] at port
  constructor
  · intro chopped
    have room : h.length < 2 ^ 63 - 1 := by
      by_contra far
      rw [if_neg far] at port
      cases port.symm.trans chopped.port
    refine ⟨(hostKept host).mp ?_,room⟩
    rw [chopped.whole] at whole
    obtain ⟨h',kept,same⟩ := Option.map_eq_some_iff.mp whole.symm
    split at same
    · rw [kept,List.append_cancel_right (Option.some.inj same)]
    · cases same
  · rintro ⟨last,room⟩
    have kept := (hostKept host).mpr last
    rw [kept,Option.map_some,if_pos room] at whole
    rw [if_pos room] at port
    refine ⟨whole,port,⟨h.length - 1,?_,?_⟩,⟨h.length - 1,?_,?_⟩⟩
    · rw [eosExact noNul,kept]
      rfl
    · omega
    · rw [eosExact noNulPort,Rewrite.chopDigits digits.2]
      rfl
    · omega

theorem chopNamed : Chopped (ascii "www.x.org") (ascii "8080") [] :=
  (chopExact ⟨by decide,by decide +kernel⟩ ⟨by decide,by decide +kernel⟩ []).mpr ⟨by decide +kernel,by decide⟩

theorem addressChopped : ¬ ∀ h p rest : List UInt8, Host h → p ≠ [] ∧ (∀ c ∈ p, isdigit c = true) →
    Chopped h p rest := by
  intro chops
  have chopped := chops (ascii "127.0.0.1") (ascii "80") [] ⟨by decide,by decide +kernel⟩
    ⟨by decide,by decide +kernel⟩
  have cut : chopPortNum (ascii "127.0.0.1" ++ [0]) = some (some (ascii "127.0.0." ++ [0])) := by decide +kernel
  have other := cut.symm.trans chopped.whole
  exact absurd other (by decide)

theorem numberCopied {p : List UInt8} (front rest : List UInt8) {n : Nat} (noNul : 0 ∉ p) (fits : p.length < n) :
    ∃ rest', strncpy (List.replicate n 0) 0 (front ++ p ++ 0::rest) front.length p.length =
      some (p ++ 0::rest') := by
  obtain ⟨left,rfl⟩ : ∃ left, n = p.length + (left + 1) := ⟨n - p.length - 1,by omega⟩
  have taken : ((front ++ p ++ 0::rest).drop front.length).take p.length = p := by simp
  have written := writeAfter [] (List.replicate (left + 1) 0)
    (show p.length = (List.replicate p.length (0 : UInt8)).length by simp)
  refine ⟨List.replicate left 0,?_⟩
  unfold strncpy
  rw [if_pos ⟨by omega,by omega,.inl (by simp)⟩]
  simp only [Int.toNat_natCast,taken,cstringExact noNul,Nat.sub_self,List.replicate_zero,List.append_nil]
  rw [List.replicate_append_replicate,List.replicate_succ] at written
  exact written

theorem strrchrNone {h : List UInt8} (noNul : 0 ∉ h) {c : UInt8} (away : c ∉ h) (rest : List UInt8) :
    strrchr (h ++ 0::rest) 0 c = some none := by
  have held := textHere noNul rest (Nat.zero_le _)
  simp only [Nat.cast_zero,List.drop_zero] at held
  simp only [strrchr,held,bind,Option.bind_some,Text.strrchr,if_neg away,Option.map_none]

theorem strrchrLast {h p : List UInt8} {c : UInt8} (noNul : 0 ∉ h ++ c::p) (away : c ∉ p) (rest : List UInt8) :
    strrchr (h ++ c::p ++ 0::rest) 0 c = some (some (h.length : Int)) := by
  have held := textHere noNul rest (Nat.zero_le _)
  have last : Text.strrchr (h ++ c::p) c = some (c::p) := by
    have reversed : (h ++ c::p).reverse = p.reverse ++ c::h.reverse := by simp
    have until_ : (p.reverse ++ c::h.reverse).takeWhile (· ≠ c) = p.reverse :=
      (wordEnds _ _ c).trans (wordExact (by simpa using away))
    rw [Text.strrchr,if_pos (by simp),reversed,until_,List.reverse_reverse]
  simp only [Nat.cast_zero,List.drop_zero] at held
  simp only [strrchr,held,bind,Option.bind_some,last,Option.map_some]
  congr 2
  simp

theorem lastLoaded {front : List UInt8} {c : UInt8} (rest : List UInt8) :
    load (front ++ [c] ++ rest) ((front ++ [c]).length - 1) = some c := by
  have index : ((front ++ [c]).length : Int) - 1 = front.length := by simp
  rw [index,List.append_assoc]
  exact loadAfter front c rest

theorem portExact {h p : List UInt8} (host : Host h) (digits : ∀ c ∈ p, isdigit c = true)
    (short : p.length < 100) (rest : List UInt8) : getPortNumber (h ++ 58::p ++ 0::rest) =
      some (if h.getLast? = some 112 then 80 else atoi p) := by
  have noNulNumber : 0 ∉ p := digitsWithout digits (by decide)
  have noNul : 0 ∉ h ++ 58::p := by simp [host.without (show hostByte 0 = false by decide),noNulNumber]
  obtain ⟨front,last,rfl⟩ : ∃ front last, h = front ++ [last] :=
    ⟨_,_,(List.dropLast_concat_getLast host.nonempty).symm⟩
  have before := @lastLoaded front last (58::p ++ 0::rest)
  have size : (front ++ [last] ++ 58::p).length = (front ++ [last]).length + (p.length + 1) := by
    rw [List.length_append,List.length_cons]
  have length := @strlenHere (front ++ [last] ++ 58::p) noNul rest ((front ++ [last]).length + 1) (by omega)
  obtain ⟨rest',copied⟩ := @numberCopied p (front ++ [last] ++ [58]) rest 100 noNulNumber short
  have behind : (((front ++ [last]).length + 1 : Nat) : Int) = (front ++ [last]).length + 1 := rfl
  have count : ((front ++ [last] ++ 58::p).length : Int) - ((front ++ [last]).length + 1) = p.length := by
    rw [size]
    omega
  have start : ((front ++ [last] ++ [58]).length : Int) = (front ++ [last]).length + 1 := by
    rw [@List.length_append _ _ [58]]
    rfl
  have whole : front ++ [last] ++ [58] ++ p ++ 0::rest = front ++ [last] ++ 58::p ++ 0::rest := by simp
  have object : front ++ [last] ++ (58::p ++ 0::rest) = front ++ [last] ++ 58::p ++ 0::rest := by simp
  rw [object] at before
  rw [behind,count] at length
  rw [start,whole] at copied
  simp only [getPortNumber,strrchrLast noNul (digitsWithout digits (show isdigit 58 = false by decide)) rest,
    bind,Option.bind_some,before,length,copied,textFront,cstringExact noNulNumber,List.getLast?_append,
    List.getLast?_singleton,Option.some_or,Option.some.injEq]
  by_cases same : last = 112
  · rw [if_neg (not_not.mpr same),if_pos same]
  · rw [if_pos same,if_neg same]

theorem portDefault {h : List UInt8} (host : Host h) (rest : List UInt8) :
    getPortNumber (h ++ 0::rest) = some 80 := by
  simp only [getPortNumber,strrchrNone (host.without (show hostByte 0 = false by decide))
    (host.without (show hostByte 58 = false by decide)) rest,bind,Option.bind_some]

structure Ported (h : List UInt8) (p : Nat) (rest : List UInt8) : Prop where
  default : getPortNumber (h ++ 0::rest) = some 80
  number : getPortNumber (h ++ 58::decimal p ++ 0::rest) = some (p : Int)
  defaultAddress : sinPort (h ++ 0::rest) = some 80
  address : ∃ sin_port, sinPort (h ++ 58::decimal p ++ 0::rest) = some sin_port ∧ sin_port.toNat = p

theorem decimalShort {p : Nat} (high : p ≤ 65535) : (decimal p).length < 100 := by
  have size : (Nat.toDigits 10 p).length ≤ 5 :=
    (Nat.length_toDigits_le_iff (by decide) (by decide)).mpr (by omega)
  change ((Nat.toDigits 10 p).map Char.toUInt8).length < 100
  rw [List.length_map]
  omega

/-- The port that follows a host ending in 'p' is taken for 80. -/
theorem portedExact {h : List UInt8} {p : Nat} (host : Host h) (range : 1 ≤ p ∧ p ≤ 65535) (rest : List UInt8) :
    Ported h p rest ↔ h.getLast? ≠ some 112 ∨ p = 80 := by
  have number := portExact host (decimalDigits p) (decimalShort range.2) rest
  have default := portDefault host rest
  have value := @atoiDecimal p (by omega) [] (by simp)
  rw [List.append_nil] at value
  rw [value] at number
  constructor
  · intro ported
    rw [ported.number] at number
    by_cases ends : h.getLast? = some 112
    · rw [if_pos ends] at number
      exact .inr (by exact_mod_cast Option.some.inj number)
    · exact .inl ends
  · intro ends
    have right : (if h.getLast? = some 112 then (80 : Int) else p) = p := by
      rcases ends with ends | rfl
      · rw [if_neg ends]
      · exact ite_self _
    rw [right] at number
    have wire : (UInt16.ofInt (p : Int)).toNat = p := by
      rw [UInt16.ofInt,UInt16.toNat_ofNat']
      omega
    refine ⟨default,number,?_,_,?_,wire⟩
    · rw [sinPort,default]
      rfl
    · rw [sinPort,number]
      rfl

theorem portedNamed : Ported (ascii "www.x.org") 8080 [] :=
  (portedExact ⟨by decide,by decide +kernel⟩ ⟨by decide,by decide⟩ []).mpr (.inl (by decide))

theorem shopPort : ¬ ∀ (h : List UInt8) (p : Nat) (rest : List UInt8), Host h → 1 ≤ p ∧ p ≤ 65535 →
    Ported h p rest := by
  intro ports
  have ported := ports (ascii "shop") 8080 [] ⟨by decide,by decide +kernel⟩ ⟨by decide,by decide⟩
  have number : getPortNumber (ascii "shop" ++ 58::decimal 8080 ++ [0]) = some 80 := by decide +kernel
  cases number.symm.trans ported.number

end IttyBittyServer.HostPort
