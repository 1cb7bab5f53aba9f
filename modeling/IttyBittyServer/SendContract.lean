import IttyBittyServer.Sockets

/-! sendAll's calls of send, each with the place and the size that it asks for and the
result that it gets, and what *len holds at the return. -/
namespace IttyBittyServer.SendContract
open Sockets (int)

/- A call that has not been answered has no result. -/
structure Call where
  start : Int
  size : Int
  result : Option Int
  deriving DecidableEq, Repr

structure Outcome where
  calls : List Call
  returned : Option Int
  len : Int
  deriving DecidableEq, Repr

/- `bytesleft` is an int that send takes as a size_t, and its result is given to an int. -/
def sendLoop (len total bytesleft : Int) : List Int → Outcome
  | [] => if total < len then ⟨[⟨total,bytesleft % 2 ^ 64,none⟩],none,len⟩ else ⟨[],some 0,total⟩
  | result::results =>
    if total < len then
      let call := ⟨total,bytesleft % 2 ^ 64,some result⟩
      let i := int result
      if i < 0 then ⟨[call],some i,len⟩
      else
        let rest := sendLoop len (total + i) (int (bytesleft - i)) results
        {rest with calls := call::rest.calls}
    else ⟨[],some 0,total⟩

def sendAll (len : Int) (results : List Int) : Outcome := sendLoop len 0 (int len) results

def Call.took (c : Call) : Nat := (c.result.getD 0).toNat

def accepted (calls : List Call) : Nat := (calls.map Call.took).sum

def bytes (buf : List UInt8) (calls : List Call) : List UInt8 :=
  calls.flatMap fun c => (buf.drop c.start.toNat).take c.took

def Possible (calls : List Call) : Prop :=
  ∀ c ∈ calls, ∀ i ∈ c.result, i < 0 ∨ 1 ≤ i ∧ i ≤ c.size

instance (calls : List Call) : Decidable (Possible calls) :=
  inferInstanceAs (Decidable (∀ c ∈ calls, ∀ i ∈ c.result, _))

structure Keeps (buf : List UInt8) (len : Int) (total : Nat) (o : Outcome) : Prop where
  asked : ∀ front c back, o.calls = front ++ c::back →
    c.start = (total : Int) + accepted front ∧ c.size = len - (total + accepted front)
  order : bytes buf o.calls = (buf.drop total).take (accepted o.calls)
  returned : o.returned = some 0 ↔ (total : Int) + accepted o.calls = len
  counted : o.returned ≠ none → o.len = (total : Int) + accepted o.calls

def Accepting (left : Int) : List Int → Prop
  | [] => True
  | i::results => 0 < left → 1 ≤ i ∧ Accepting (left - i) results ∨ i < 0 ∧ int i = 0 ∧ Accepting left results

section
variable {buf : List UInt8} {len : Int} {total : Nat}

theorem intExact {n : Int} (low : 0 ≤ n) (high : n < 2 ^ 31) : int n = n := Sockets.intExact (by omega) high

theorem callsFirst (len bytesleft : Int) {total : Int} (results : List Int) (more : total < len) :
    ∃ c rest, (sendLoop len total bytesleft results).calls = c::rest ∧
      c.start = total ∧ c.size = bytesleft % 2 ^ 64 := by
  cases results with
  | nil =>
    rw [sendLoop,if_pos more]
    exact ⟨_,_,rfl,rfl,rfl⟩
  | cons result results =>
    simp only [sendLoop,if_pos more]
    split
    · exact ⟨_,_,rfl,rfl,rfl⟩
    · exact ⟨_,_,rfl,rfl,rfl⟩

theorem keepsNext {o : Outcome} {result : Option Int} {n : Nat} (took : (result.getD 0).toNat = n) :
    Keeps buf len total {o with calls := ⟨total,len - total,result⟩::o.calls} ↔ Keeps buf len (total + n) o := by
  have count : ∀ calls, accepted (⟨total,len - total,result⟩::calls) = n + accepted calls := fun calls => by
    rw [accepted,List.map_cons,List.sum_cons,Call.took,took]
    rfl
  have all : bytes buf (⟨total,len - total,result⟩::o.calls) = (buf.drop total).take n ++ bytes buf o.calls := by
    rw [bytes,List.flatMap_cons,Call.took,took]
    rfl
  have split : (buf.drop total).take (n + accepted o.calls) =
      (buf.drop total).take n ++ (buf.drop (total + n)).take (accepted o.calls) := by
    rw [List.take_add,List.drop_drop]
  constructor
  · rintro ⟨asked,order,returned,counted⟩
    rw [count] at order returned counted
    rw [all,split] at order
    refine ⟨fun front c back eq => ?_,List.append_cancel_left order,?_,fun some_ => ?_⟩
    · have here := asked (⟨total,len - total,result⟩::front) c back (by rw [eq]; rfl)
      rw [count] at here
      omega
    · rw [returned]
      omega
    · have here := counted some_
      simp only at here
      omega
  · rintro ⟨asked,order,returned,counted⟩
    refine ⟨fun front c back eq => ?_,?_,?_,fun some_ => ?_⟩
    · cases front with
      | nil =>
        cases eq
        exact ⟨by simp [accepted],by simp [accepted]⟩
      | cons first front =>
        obtain ⟨rfl,behind⟩ := List.cons.inj eq
        have here := asked front c back behind
        rw [count]
        omega
    · rw [count,all,split,order]
    · rw [count,returned]
      omega
    · have here := counted some_
      rw [count]
      simp only
      omega

theorem keepsDone : Keeps buf total total ⟨[],some 0,total⟩ :=
  ⟨fun front c back eq => by simp at eq,by simp [bytes,accepted],by simp [accepted],fun _ => by simp [accepted]⟩

theorem keepsPending (more : (total : Int) < len) : Keeps buf len total ⟨[⟨total,len - total,none⟩],none,len⟩ := by
  refine (@keepsNext buf len total ⟨[],none,len⟩ none 0 rfl).mpr ⟨fun front c back eq => ?_,?_,?_,fun some_ => ?_⟩
  · simp at eq
  · simp [bytes,accepted]
  · simp only [accepted,List.map_nil,List.sum_nil]
    exact iff_of_false (by simp) (by omega)
  · exact absurd rfl some_

theorem possibleRest {c : Call} {calls : List Call} (possible : Possible (c::calls)) : Possible calls :=
  fun d mem => possible d (List.mem_cons_of_mem _ mem)

theorem phantom {left i : Int} {results : List Int} (counted : 0 < i) (within : (total : Int) < len) :
    ¬ Keeps buf len total (sendLoop len (total + i) left results) := by
  intro keeps
  by_cases more : total + i < len
  · obtain ⟨c,rest,calls,start,_⟩ := callsFirst len left results more
    have asked := (keeps.asked [] c rest calls).1
    simp only [accepted,List.map_nil,List.sum_nil] at asked
    omega
  · have ends : sendLoop len (total + i) left results = ⟨[],some 0,total + i⟩ := by
      cases results <;> rw [sendLoop,if_neg more]
    rw [ends] at keeps
    have returned := keeps.returned.mp rfl
    simp only [accepted,List.map_nil,List.sum_nil] at returned
    omega

theorem keepsFailed {i r : Int} (negative : i < 0) (more : (total : Int) < len) :
    ¬ Keeps buf len total ⟨[⟨total,len - total,some i⟩],some r,len⟩ := by
  intro keeps
  have counted := keeps.counted (by simp)
  simp only [accepted,Call.took,List.map_cons,List.map_nil,List.sum_cons,List.sum_nil,Option.getD_some] at counted
  omega

/- An error of which the int keeps something else than a sign counts bytes, unless it keeps 0. -/
theorem keepsNegative {i : Int} (negative : i < 0) (taken : ¬ int i < 0) (within : (total : Int) < len)
    (short : len < 2 ^ 31) (results : List Int) : Keeps buf len total
      {sendLoop len (total + int i) (int (len - total - int i)) results with
        calls := ⟨total,len - total,some i⟩::
          (sendLoop len (total + int i) (int (len - total - int i)) results).calls} ↔
      int i = 0 ∧ Keeps buf len total (sendLoop len total (len - total) results) := by
  have nothing : ((some i).getD 0).toNat = 0 := by simp only [Option.getD_some]; omega
  have next := @keepsNext buf len total (sendLoop len (total + int i) (int (len - total - int i)) results)
    (some i) 0 nothing
  rw [Nat.add_zero] at next
  refine next.trans ?_
  by_cases zero : int i = 0
  · rw [zero,Int.add_zero,Int.sub_zero,intExact (by omega) (by omega),eq_self,true_and]
  · exact iff_of_false (phantom (by omega) within) fun both => zero both.1

theorem keepsTaken {n : Nat} (fits : (n : Int) ≤ len - total) (short : len < 2 ^ 31) (results : List Int) :
    Keeps buf len total
      {sendLoop len (total + n) (int (len - total - n)) results with
        calls := ⟨total,len - total,some n⟩::(sendLoop len (total + n) (int (len - total - n)) results).calls} ↔
      Keeps buf len (total + n) (sendLoop len (total + n : Nat) (len - (total + n : Nat)) results) := by
  have left : int (len - total - n) = len - (total + n : Nat) := by
    rw [intExact (by omega) (by omega)]
    omega
  have next := @keepsNext buf len total (sendLoop len (total + n) (int (len - total - n)) results) (some n) n rfl
  rw [left] at next ⊢
  exact next

theorem keepsExact {results : List Int} (within : (total : Int) ≤ len) (short : len < 2 ^ 31)
    (possible : Possible (sendLoop len total (len - total) results).calls) :
    Keeps buf len total (sendLoop len total (len - total) results) ↔ Accepting (len - total) results := by
  have size : (len - total) % 2 ^ 64 = len - total := Int.emod_eq_of_lt (by omega) (by omega)
  induction results generalizing total with
  | nil =>
    rw [sendLoop,size]
    by_cases more : (total : Int) < len
    · rw [if_pos more]
      exact iff_of_true (keepsPending more) trivial
    · obtain rfl : len = total := by omega
      rw [if_neg more]
      exact iff_of_true keepsDone trivial
  | cons i results ih =>
    by_cases more : (total : Int) < len
    · simp only [sendLoop,if_pos more,size] at possible ⊢
      have left : 0 < len - total := by omega
      rw [Accepting,forall_prop_of_true left]
      by_cases failed : int i < 0
      · rw [if_pos failed] at possible ⊢
        have negative : i < 0 := by
          rcases possible _ List.mem_cons_self i rfl with low | ⟨low,high⟩
          · exact low
          · rw [intExact (by omega) (by simp only at high; omega)] at failed
            exact failed
        exact iff_of_false (keepsFailed negative more) (by omega)
      · rw [if_neg failed] at possible ⊢
        have answer := possible _ List.mem_cons_self i rfl
        have later := possibleRest possible
        simp only at answer
        rcases answer with negative | ⟨low,high⟩
        · refine (keepsNegative negative failed more short results).trans ?_
          have same : int i = 0 → (Keeps buf len total (sendLoop len total (len - total) results) ↔
              Accepting (len - total) results) := fun zero => by
            rw [zero,Int.add_zero,Int.sub_zero,intExact (by omega) (by omega)] at later
            exact ih within later size
          exact ⟨fun both => .inr ⟨negative,both.1,(same both.1).mp both.2⟩,fun h => h.elim
            (fun h => by omega) fun h => ⟨h.2.1,(same h.2.1).mpr h.2.2⟩⟩
        · have exact_ : int i = i := intExact (by omega) (by omega)
          obtain ⟨n,rfl⟩ := Int.eq_ofNat_of_zero_le (show 0 ≤ i by omega)
          rw [exact_] at later ⊢
          have left' : int (len - total - n) = len - (total + n : Nat) := by
            rw [intExact (by omega) (by omega)]
            omega
          have total' : (total : Int) + n = (total + n : Nat) := rfl
          rw [left',total'] at later
          refine ((keepsTaken high short results).trans (ih (by omega) later ?_)).trans ?_
          · exact Int.emod_eq_of_lt (by omega) (by omega)
          · have same : len - total - n = len - (total + n : Nat) := by omega
            rw [same]
            exact ⟨fun rest => .inl ⟨low,rest⟩,fun h => h.elim (fun h => h.2) fun h => by omega⟩
    · obtain rfl : len = total := by omega
      rw [sendLoop,if_neg more,Accepting]
      exact iff_of_true keepsDone fun left => by omega

theorem hugeAsks (results : List Int) (huge : 2 ^ 31 ≤ len) (high : len < 2 ^ 63) :
    ¬ Keeps buf len 0 (sendAll len results) := by
  intro keeps
  obtain ⟨c,rest,calls,_,size⟩ := callsFirst len (int len) results (show 0 < len by omega)
  have asked := (keeps.asked [] c rest calls).2
  simp only [accepted,List.map_nil,List.sum_nil] at asked
  have range : -2 ^ 31 ≤ int len ∧ int len < 2 ^ 31 := by
    simp only [int,Int.bmod]
    split <;> omega
  omega

/-- The contract holds where the int holds the length and no result is an error. -/
theorem sendAllContract {results : List Int} (low : 0 ≤ len) (high : len < 2 ^ 63)
    (possible : Possible (sendAll len results).calls) :
    Keeps buf len 0 (sendAll len results) ↔ len < 2 ^ 31 ∧ Accepting len results := by
  by_cases short : len < 2 ^ 31
  · have exact_ := @keepsExact buf len 0 results low short
    rw [Nat.cast_zero,Int.sub_zero] at exact_
    rw [sendAll,intExact low short] at possible ⊢
    exact (exact_ possible).trans (and_iff_right short).symm
  · exact iff_of_false (hugeAsks results (by omega) high) fun h => short h.1

theorem callsEnd (buf sent : List UInt8) {left : Int} (all : ¬ (total : Int) < len) :
    ∃ results o, sendLoop len total left results = o ∧ Possible o.calls ∧
      o.returned = some 0 ∧ o.len = total ∧ sent = sent ++ bytes buf o.calls :=
  ⟨[],⟨[],some 0,total⟩,by rw [sendLoop,if_neg all],(fun c mem => by cases mem),rfl,rfl,by simp [bytes]⟩

theorem loopCalls {sent : List UInt8} {answers : List Sockets.Answer} {r : Sockets.Sent}
    (short : buf.length < 2 ^ 31) (within : total ≤ buf.length)
    (h : Sockets.sendLoop buf buf.length total (buf.length - total) sent answers = some r) :
    ∃ results o, sendLoop buf.length total (buf.length - total) results = o ∧ Possible o.calls ∧
      o.returned = some r.returned ∧ o.len = r.len ∧ r.socket.sent = sent ++ bytes buf o.calls := by
  induction answers generalizing total sent with
  | nil =>
    by_cases more : total < buf.length
    · rw [Sockets.sendLoopMore short more] at h
      cases h
    · rw [Sockets.sendLoopEnd more] at h
      cases Option.some.inj h
      exact callsEnd buf sent (by omega)
  | cons a answers ih =>
    by_cases more : total < buf.length
    · have more' : (total : Int) < buf.length := by exact_mod_cast more
      have size : ((buf.length : Int) - total) % 2 ^ 64 = buf.length - total :=
        Int.emod_eq_of_lt (by omega) (by omega)
      rw [Sockets.sendLoopMore short more] at h
      cases a with
      | error =>
        cases Option.some.inj h
        have minus : int (-1) = -1 := Sockets.intExact (by decide) (by decide)
        refine ⟨[-1],_,by rw [sendLoop,if_pos more',minus],fun c mem => ?_,rfl,rfl,?_⟩
        · cases List.mem_singleton.mp mem
          exact fun i here => .inl (by cases here; decide)
        · simp [bytes,Call.took]
      | upTo k =>
        have some_ : ((buf.drop total).take (k + 1)).length = min (k + 1) (buf.length - total) := by simp
        have isPrefix : (buf.drop total).take (k + 1) = (buf.drop total).take ((buf.drop total).take (k + 1)).length :=
          List.prefix_iff_eq_take.mp (List.take_prefix _ _)
        simp only at h
        generalize ((buf.drop total).take (k + 1)).length = n at h some_ isPrefix
        have exact_ : int (n : Int) = n := intExact (by omega) (by omega)
        have left : int ((buf.length : Int) - total - n) = buf.length - (total + n : Nat) := by
          rw [intExact (by omega) (by omega)]
          omega
        obtain ⟨results,o,ran,possible,returned,len,out⟩ := ih (by omega) h
        refine ⟨n::results,{o with calls := ⟨total,buf.length - total,some n⟩::o.calls},?_,fun c mem => ?_,
          returned,len,?_⟩
        · simp only [sendLoop,if_pos more',exact_,size,left]
          rw [if_neg (by omega),← ran]
          rfl
        · rcases List.mem_cons.mp mem with rfl | later
          · exact fun i here => .inr (by cases here; simp only; omega)
          · exact possible c later
        · rw [out,isPrefix]
          simp [bytes,Call.took]
    · rw [Sockets.sendLoopEnd more] at h
      cases Option.some.inj h
      exact callsEnd buf sent (by omega)

theorem sendAllCalls {socket : Sockets.Sender} {r : Sockets.Sent} (short : buf.length < 2 ^ 31)
    (h : Sockets.sendAll socket buf buf.length = some r) : ∃ results o, sendAll buf.length results = o ∧
      Possible o.calls ∧ o.returned = some r.returned ∧ o.len = r.len ∧
      r.socket.sent = socket.sent ++ bytes buf o.calls := by
  have exact_ : int buf.length = buf.length := intExact (by omega) (by omega)
  have calls := @loopCalls buf 0 socket.sent socket.answers r short (Nat.zero_le _)
  rw [Nat.cast_zero,Int.sub_zero] at calls
  rw [Sockets.sendAll,exact_] at h
  obtain ⟨results,o,ran,rest⟩ := calls h
  exact ⟨results,o,by rw [sendAll,exact_]; exact ran,rest⟩

theorem twoPieces : Keeps [7,8,9] 3 0 (sendAll 3 [2,1]) :=
  (sendAllContract (by decide) (by decide) (by decide)).mpr
    ⟨by decide,fun _ => .inl ⟨by decide,fun _ => .inl ⟨by decide,trivial⟩⟩⟩

theorem errorUncounted : ¬ ∀ (buf : List UInt8) (len : Int) (results : List Int), 0 ≤ len → len < 2 ^ 63 →
    Possible (sendAll len results).calls → Keeps buf len 0 (sendAll len results) := by
  intro keeps
  have counted := (keeps [7,8,9] 3 [2,-1] (by decide) (by decide) (by decide)).counted (by decide)
  exact absurd counted (by decide)

end

end IttyBittyServer.SendContract
