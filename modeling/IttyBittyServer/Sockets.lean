import Mathlib.Tactic.Common
import Mathlib.Algebra.Ring.Int.Defs
import Mathlib.Algebra.Ring.Nat

/-! Both ends of a socket, and sendAll. The network decides by its answers how many
bytes each call moves; a call that is never answered has no result. -/
namespace IttyBittyServer.Sockets

/- `upTo k` moves at most k + 1 bytes, and at least one if there is one. -/
inductive Answer where
  | error | upTo (k : Nat)
  deriving DecidableEq, Repr

def Answer.bytes (data : List UInt8) : Answer → Option (List UInt8)
  | .error => none
  | .upTo k => some (data.take (k + 1))

structure Sender where
  sent : List UInt8
  answers : List Answer
  deriving DecidableEq, Repr

structure Receiver where
  stream : List UInt8
  answers : List Answer
  deriving DecidableEq, Repr

def int (n : Int) : Int := n.bmod (2 ^ 32)

def difference (a b : Int) : Option Int :=
  if -2 ^ 31 ≤ a - b ∧ a - b < 2 ^ 31 then some (a - b) else none

structure Sent where
  returned : Int
  len : Int
  socket : Sender
  deriving DecidableEq, Repr

/- send takes `bytesleft` as a size_t, and cannot read beyond the buffer. -/
def sendLoop (buf : List UInt8) (len : Int) (total : Nat) (bytesleft : Int) (sent : List UInt8)
    (answers : List Answer) : Option Sent :=
  if total < len then
    let size := (bytesleft % 2 ^ 64).toNat
    if (buf.drop total).length < size then none
    else match answers with
      | [] => none
      | a::rest => match a.bytes ((buf.drop total).take size) with
        | none => some ⟨-1,len,⟨sent,rest⟩⟩
        | some took =>
          sendLoop buf len (total + took.length) (int (bytesleft - took.length)) (sent ++ took) rest
  else some ⟨0,total,⟨sent,answers⟩⟩

def sendAll (socket : Sender) (buf : List UInt8) (len : Int) : Option Sent :=
  sendLoop buf len 0 (int len) socket.sent socket.answers

def NoError (answers : List Answer) : Prop := .error ∉ answers

theorem intRange (n : Int) : -2 ^ 31 ≤ int n ∧ int n < 2 ^ 31 ∧ int n % 2 ^ 32 = n % 2 ^ 32 := by
  have low := @Int.le_bmod n (2 ^ 32) (by decide)
  have high := @Int.bmod_lt n (2 ^ 32) (by decide)
  have same : int n % (2 ^ 32 : Nat) = n % (2 ^ 32 : Nat) := Int.bmod_emod
  unfold int at same ⊢
  omega

theorem differenceExact {a b : Int} (low : -2 ^ 31 ≤ a - b) (high : a - b < 2 ^ 31) :
    difference a b = some (a - b) := if_pos ⟨low,high⟩

theorem intExact {n : Int} (low : -2 ^ 31 ≤ n) (high : n < 2 ^ 31) : int n = n := by
  unfold int
  rw [Int.bmod_eq_of_le] <;> omega

theorem noErrorCons {a : Answer} {rest : List Answer} (h : NoError (a::rest)) :
    (∃ k, a = .upTo k) ∧ NoError rest := by
  obtain ⟨head,tail⟩ := not_or.mp (mt List.mem_cons.mpr h)
  cases a with
  | error => exact absurd rfl head
  | upTo k => exact ⟨⟨k,rfl⟩,tail⟩

theorem noErrorSuffix {xs ys : List Answer} (h : NoError ys) (suffix : xs <:+ ys) : NoError xs :=
  fun mem => h (suffix.subset mem)

structure Delivered (buf sent : List UInt8) (total : Nat) (answers : List Answer) (r : Sent) : Prop where
  len : r.len = buf.length
  used : r.socket.answers <:+ answers
  outcome : r.returned = 0 ∧ r.socket.sent = sent ++ buf ∨ r.returned = -1 ∧ .error ∈ answers ∧
    ∃ n, total ≤ n ∧ n < buf.length ∧ r.socket.sent = sent ++ buf.take n

theorem sendLoopEnd {buf sent : List UInt8} {total : Nat} {left : Int} {answers : List Answer}
    (all : ¬ total < buf.length) :
    sendLoop buf buf.length total left sent answers = some ⟨0,total,⟨sent,answers⟩⟩ := by
  rw [sendLoop.eq_def,if_neg (by omega)]

theorem sendLoopMore {buf sent : List UInt8} {total : Nat} {answers : List Answer}
    (short : buf.length < 2 ^ 31) (more : total < buf.length) :
    sendLoop buf buf.length total (buf.length - total) sent answers = match answers with
      | [] => none
      | .error::rest => some ⟨-1,buf.length,⟨sent,rest⟩⟩
      | .upTo k::rest =>
        let took := (buf.drop total).take (k + 1)
        sendLoop buf buf.length (total + took.length) (buf.length - (total + took.length : Nat))
          (sent ++ took) rest := by
  have size : (((buf.length : Int) - total) % 2 ^ 64).toNat = (buf.drop total).length := by
    rw [Int.emod_eq_of_lt (by omega) (by omega),List.length_drop]; omega
  rw [sendLoop.eq_def,if_pos (by exact_mod_cast more)]
  simp only [size,Nat.lt_irrefl,if_false,List.take_length]
  cases answers with
  | nil => rfl
  | cons a rest =>
    cases a with
    | error => rfl
    | upTo k =>
      have bound : ((buf.drop total).take (k + 1)).length ≤ buf.length - total := by
        rw [List.length_take,List.length_drop]; exact Nat.min_le_right _ _
      simp only [Answer.bytes]
      rw [intExact (by omega) (by omega)]
      congr 1
      omega

theorem sendLoopDelivered {buf sent : List UInt8} {total : Nat} {left : Int} {answers : List Answer}
    {r : Sent} (within : total ≤ buf.length)
    (h : sendLoop buf buf.length total left (sent ++ buf.take total) answers = some r) :
    Delivered buf sent total answers r := by
  induction answers generalizing total left with
  | nil =>
    by_cases more : total < buf.length
    · rw [sendLoop.eq_def,if_pos (by exact_mod_cast more)] at h
      dsimp only at h
      split at h <;> contradiction
    · rw [sendLoopEnd more] at h
      cases Option.some.inj h
      have whole : total = buf.length := by omega
      exact ⟨by simp [whole],List.suffix_refl _,Or.inl ⟨rfl,by simp [whole]⟩⟩
  | cons a rest ih =>
    by_cases more : total < buf.length
    · rw [sendLoop.eq_def,if_pos (by exact_mod_cast more)] at h
      dsimp only at h
      split at h <;> try contradiction
      cases a with
      | error =>
        cases Option.some.inj h
        exact ⟨rfl,List.suffix_cons _ _,Or.inr ⟨rfl,List.mem_cons_self,total,Nat.le_refl _,more,rfl⟩⟩
      | upTo k =>
        simp only [Answer.bytes,List.take_take,List.append_assoc] at h
        generalize took : (buf.drop total).take (min (k + 1) (left % 2 ^ 64).toNat) = part at h
        have isPrefix : part <+: buf.drop total := by rw [← took]; exact List.take_prefix _ _
        have next : buf.take total ++ part = buf.take (total + part.length) := by
          rw [List.take_add,← List.prefix_iff_eq_take.mp isPrefix]
        have bound : part.length ≤ buf.length - total := by simpa using isPrefix.length_le
        rw [next] at h
        obtain ⟨len,used,outcome⟩ := ih (by omega) h
        refine ⟨len,used.trans (List.suffix_cons _ _),outcome.imp_right ?_⟩
        exact fun ⟨failed,err,n,least,hn⟩ => ⟨failed,List.mem_cons_of_mem _ err,n,by omega,hn⟩
    · rw [sendLoopEnd more] at h
      cases Option.some.inj h
      have whole : total = buf.length := by omega
      exact ⟨by simp [whole],List.suffix_refl _,Or.inl ⟨rfl,by simp [whole]⟩⟩

theorem sendAllDelivered {socket : Sender} {buf : List UInt8} {r : Sent}
    (h : sendAll socket buf buf.length = some r) : Delivered buf socket.sent 0 socket.answers r :=
  sendLoopDelivered (Nat.zero_le _) (by simpa [sendAll] using h)

theorem bufferSent {socket : Sender} {buf : List UInt8} {r : Sent} (accepted : NoError socket.answers)
    (h : sendAll socket buf buf.length = some r) :
    r.returned = 0 ∧ r.len = buf.length ∧ r.socket.sent = socket.sent ++ buf ∧ NoError r.socket.answers := by
  obtain ⟨len,used,ok | ⟨_,err,_⟩⟩ := sendAllDelivered h
  · exact ⟨ok.1,len,ok.2,noErrorSuffix accepted used⟩
  · exact absurd err accepted

theorem sendAllStarts {socket : Sender} {buf : List UInt8} {r : Sent} (short : buf.length < 2 ^ 31)
    (nonempty : buf ≠ []) (h : sendAll socket buf buf.length = some r) :
    r.socket.sent = socket.sent ↔ socket.answers.head? = some .error := by
  have more : 0 < buf.length := List.length_pos_iff.mpr nonempty
  unfold sendAll at h
  rw [intExact (by omega) (by exact_mod_cast short)] at h
  have h := (sendLoopMore short more).symm.trans (by simpa using h)
  cases found : socket.answers with
  | nil => rw [found] at h; contradiction
  | cons a rest =>
    rw [found] at h
    cases a with
    | error => cases Option.some.inj h; simp
    | upTo k =>
      dsimp only at h
      have taken : 0 < (buf.take (k + 1)).length ∧ (buf.take (k + 1)).length ≤ buf.length := by
        simp; omega
      have first : (buf.take (k + 1)) = buf.take (buf.take (k + 1)).length :=
        List.prefix_iff_eq_take.mp (List.take_prefix _ _)
      rw [List.drop_zero,Nat.zero_add] at h
      generalize (buf.take (k + 1)).length = n at h taken first
      rw [first] at h
      obtain ⟨_,_,⟨_,sent⟩ | ⟨_,_,m,least,_,sent⟩⟩ := sendLoopDelivered taken.2 h
      · simp [sent,nonempty]
      · have : m ≠ 0 := by omega
        simp [sent,nonempty,this]

theorem sendAllRefused {socket : Sender} {buf : List UInt8} (short : buf.length < 2 ^ 31) (nonempty : buf ≠ [])
    (refused : socket.answers.head? = some .error) :
    sendAll socket buf buf.length = some ⟨-1,buf.length,⟨socket.sent,socket.answers.tail⟩⟩ := by
  have more : 0 < buf.length := List.length_pos_iff.mpr nonempty
  have first := @sendLoopMore buf socket.sent 0 socket.answers short more
  rw [Nat.cast_zero,Int.sub_zero] at first
  rw [sendAll,intExact (by omega) (by exact_mod_cast short),first]
  obtain ⟨rest,whole⟩ := List.head?_eq_some_iff.mp refused
  rw [whole]
  rfl

theorem sendAllFailed {socket : Sender} {buf : List UInt8} {len : Int} {r : Sent}
    (h : sendAll socket buf len = some r) (failed : r.returned < 0) :
    ∃ used, socket.answers = used ++ .error::r.socket.answers := by
  have loop : ∀ total left sent answers, sendLoop buf len total left sent answers = some r →
      ∃ used, answers = used ++ .error::r.socket.answers := by
    intro total left sent answers ran
    induction answers generalizing total left sent with
    | nil =>
      rw [sendLoop.eq_def] at ran
      dsimp only at ran
      split at ran
      · split at ran <;> cases ran
      · cases Option.some.inj ran
        cases failed
    | cons a rest ih =>
      rw [sendLoop.eq_def] at ran
      dsimp only at ran
      split at ran
      · split at ran
        · cases ran
        · cases a with
          | error =>
            cases Option.some.inj ran
            exact ⟨[],rfl⟩
          | upTo k =>
            obtain ⟨used,whole⟩ := ih _ _ _ ran
            exact ⟨.upTo k::used,by rw [whole]; rfl⟩
      · cases Option.some.inj ran
        cases failed
  exact loop _ _ _ _ h

theorem sendLoopReturns {buf : List UInt8} (sent : List UInt8) (total : Nat) {answers : List Answer}
    (short : buf.length < 2 ^ 31) (within : total ≤ buf.length)
    (enough : buf.length - total ≤ answers.length) :
    ∃ r, sendLoop buf buf.length total (buf.length - total) sent answers = some r ∧
      answers.length ≤ r.socket.answers.length + (buf.length - total) := by
  induction answers generalizing total sent with
  | nil =>
    rw [List.length_nil] at enough
    exact ⟨_,sendLoopEnd (by omega),by simp⟩
  | cons a rest ih =>
    by_cases more : total < buf.length
    · rw [sendLoopMore short more]
      cases a with
      | error => exact ⟨_,rfl,by simp; omega⟩
      | upTo k =>
        have some : ((buf.drop total).take (k + 1)).length = min (k + 1) (buf.length - total) := by simp
        simp only [List.length_cons,some] at enough ⊢
        obtain ⟨r,hr,used⟩ := ih (sent ++ (buf.drop total).take (k + 1))
          (total + min (k + 1) (buf.length - total)) (by omega) (by omega)
        exact ⟨r,hr,by omega⟩
    · exact ⟨_,sendLoopEnd more,by simp⟩

theorem sendAllReturns (socket : Sender) {buf : List UInt8} (short : buf.length < 2 ^ 31)
    (enough : buf.length ≤ socket.answers.length) :
    ∃ r, sendAll socket buf buf.length = some r ∧
      socket.answers.length ≤ r.socket.answers.length + buf.length := by
  rw [sendAll,intExact (by omega) (by exact_mod_cast short)]
  simpa using sendLoopReturns socket.sent 0 short (Nat.zero_le _) (by simpa using enough)

end IttyBittyServer.Sockets
