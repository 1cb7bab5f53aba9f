import Mathlib.Tactic.Common
import Mathlib.Algebra.Ring.Nat
import Mathlib.Logic.Function.Basic

/-! Runs of a labelled transition function. A label fixes everything one step
leaves open: who moves, and what the outside world answers. A guarded run is one
whose every step meets a condition on the state before it. -/
namespace IttyBittyServer.Run

variable {σ α : Type} {step : σ → α → Option σ} {guard : σ → α → Prop} {inv good : σ → Prop}

def run (step : σ → α → Option σ) : σ → List α → Option σ
  | s,[] => some s
  | s,a::rest => do
    let t ← step s a
    run step t rest

def Along (step : σ → α → Option σ) (guard : σ → α → Prop) : σ → List α → Prop
  | _,[] => True
  | s,a::rest => guard s a ∧ ∀ t, step s a = some t → Along step guard t rest

instance alongDecidable [∀ s a, Decidable (guard s a)] : ∀ s as, Decidable (Along step guard s as)
  | _,[] => .isTrue trivial
  | s,a::rest => match next : step s a with
    | none => decidable_of_iff (guard s a)
        ⟨fun held => ⟨held,fun _ there => by rw [next] at there; cases there⟩,And.left⟩
    | some t =>
      have := alongDecidable t rest
      decidable_of_iff (guard s a ∧ Along step guard t rest)
        ⟨fun held => ⟨held.1,fun u there => by rw [next] at there; cases there; exact held.2⟩,
          fun held => ⟨held.1,held.2 t next⟩⟩

def Throughout (step : σ → α → Option σ) (good : σ → Prop) : σ → List α → Prop
  | s,[] => good s
  | s,a::rest => good s ∧ ∀ t, step s a = some t → Throughout step good t rest

theorem runCons {s a rest t} (h : run step s (a::rest) = some t) :
    ∃ u, step s a = some u ∧ run step u rest = some t := by
  simpa only [run,bind,Option.bind_eq_some_iff] using h

theorem runAppend {s xs ys t} :
    run step s (xs ++ ys) = some t ↔ ∃ u, run step s xs = some u ∧ run step u ys = some t := by
  induction xs generalizing s with
  | nil => simp [run]
  | cons a rest ih =>
    simp only [List.cons_append,run,bind,Option.bind_eq_some_iff,ih]
    constructor
    · rintro ⟨v,hv,u,hu,ht⟩; exact ⟨u,⟨v,hv,hu⟩,ht⟩
    · rintro ⟨u,⟨v,hv,hu⟩,ht⟩; exact ⟨v,hv,u,hu,ht⟩

theorem everyRun {s as t} (start : inv s)
    (keeps : ∀ s a t, inv s → step s a = some t → inv t)
    (ran : run step s as = some t) : inv t := by
  induction as generalizing s with
  | nil => cases Option.some.inj ran; exact start
  | cons a rest ih =>
    obtain ⟨u,hu,hr⟩ := runCons ran
    exact ih (keeps s a u start hu) hr

theorem throughoutHead {s as} (h : Throughout step good s as) : good s := by
  cases as with
  | nil => exact h
  | cons a rest => exact h.1

theorem throughoutLast {s as t} (ran : run step s as = some t) (h : Throughout step good s as) : good t := by
  induction as generalizing s with
  | nil => cases Option.some.inj ran; exact h
  | cons a rest ih =>
    obtain ⟨u,hu,hr⟩ := runCons ran
    exact ih hr (h.2 u hu)

/- The guard is exact for `good`: it keeps an invariant that implies `good`, and
the first step that breaks the guard reaches a state that is not good. -/
theorem throughoutExact {s as t} (start : inv s)
    (keeps : ∀ s a t, inv s → guard s a → step s a = some t → inv t)
    (safe : ∀ s, inv s → good s)
    (breaks : ∀ s a t, inv s → ¬ guard s a → step s a = some t → ¬ good t)
    (ran : run step s as = some t) :
    Throughout step good s as ↔ Along step guard s as := by
  induction as generalizing s with
  | nil => simp [Throughout,Along,safe s start]
  | cons a rest ih =>
    obtain ⟨u,hu,hr⟩ := runCons ran
    simp only [Throughout,Along,hu,Option.some.injEq,forall_eq']
    constructor
    · rintro ⟨_,later⟩
      have held : guard s a := by
        by_contra broken
        exact breaks s a u start broken hu (throughoutHead later)
      exact ⟨held,(ih (keeps s a u start held hu) hr).mp later⟩
    · rintro ⟨held,later⟩
      exact ⟨safe s start,(ih (keeps s a u start held hu) hr).mpr later⟩

theorem throughoutKept {s as} (start : inv s)
    (keeps : ∀ s a t, inv s → guard s a → step s a = some t → inv t)
    (safe : ∀ s, inv s → good s) (along : Along step guard s as) : Throughout step good s as := by
  induction as generalizing s with
  | nil => exact safe s start
  | cons a rest ih =>
    exact ⟨safe s start,fun t next => ih (keeps s a t start along.1 next) (along.2 t next)⟩

theorem alongKept {s as} {other : σ → α → Prop} (start : inv s)
    (keeps : ∀ s a t, inv s → guard s a → step s a = some t → inv t)
    (safe : ∀ s a, inv s → other s a) (along : Along step guard s as) :
    Along step other s as := by
  induction as generalizing s with
  | nil => trivial
  | cons a rest ih =>
    exact ⟨safe s a start,fun t next => ih (keeps s a t start along.1 next) (along.2 t next)⟩

theorem alongBoth {s as} {other : σ → α → Prop} (here : Along step guard s as)
    (there : Along step other s as) : Along step (fun s a => guard s a ∧ other s a) s as := by
  induction as generalizing s with
  | nil => trivial
  | cons a rest ih =>
    exact ⟨⟨here.1,there.1⟩,fun t next => ih (here.2 t next) (there.2 t next)⟩

structure Execution (step : σ → α → Option σ) (states : Nat → σ) (labels : Nat → α) : Prop where
  next : ∀ n, step (states n) (labels n) = some (states (n + 1))

def Fair {τ : Type} (step : σ → α → Option σ) (mover : α → Option τ) (states : Nat → σ)
    (labels : Nat → α) : Prop :=
  ∀ t, (∀ n, ∃ m ≥ n, ∃ a, mover a = some t ∧ (step (states m) a).isSome) →
    ∀ n, ∃ m ≥ n, mover (labels m) = some t

theorem executionKept {states : Nat → σ} {labels : Nat → α} (exec : Execution step states labels)
    (start : inv (states 0)) (keeps : ∀ s a t, inv s → step s a = some t → inv t) (n : Nat) :
    inv (states n) := by
  induction n with
  | zero => exact start
  | succ n ih => exact keeps _ _ _ ih (exec.next n)

/- What a rank allows only finitely often stops for good. -/
theorem restsAtLast {rank : Nat → Nat} {moves : Nat → Prop} {start : Nat}
    (falls : ∀ n ≥ start, rank (n + 1) ≤ rank n ∧ (moves n → rank (n + 1) < rank n)) :
    ∃ n ≥ start, ∀ m ≥ n, ¬ moves m := by
  induction hr : rank start using Nat.strongRecOn generalizing start with
  | ind r ih =>
    by_cases rests : ∀ m ≥ start, ¬ moves m
    · exact ⟨start,Nat.le_refl _,rests⟩
    · push Not at rests
      obtain ⟨m,later,moved⟩ := rests
      have down : ∀ k ≥ start, rank k ≤ rank start := by
        intro k hk
        induction hk with
        | refl => exact Nat.le_refl _
        | step hk ih => exact Nat.le_trans (falls _ hk).1 ih
      have less : rank (m + 1) < r := by
        have := (falls m later).2 moved
        have := down m later
        omega
      obtain ⟨n,after,rests⟩ := ih _ less (fun k hk => falls k (by omega)) rfl
      exact ⟨n,by omega,rests⟩

/- A good end is one the guard was met for all the way: where it is broken, something
is lost that no later step brings back. -/
theorem endExact {s as t} {lost : σ → Prop} (start : inv s)
    (keeps : ∀ s a t, inv s → guard s a → step s a = some t → inv t)
    (breaks : ∀ s a t, inv s → ¬ guard s a → step s a = some t → lost t)
    (stays : ∀ s a t, lost s → step s a = some t → lost t)
    (safe : ∀ s, inv s → good s) (bad : ∀ s, lost s → ¬ good s)
    (ran : run step s as = some t) : good t ↔ Along step guard s as := by
  induction as generalizing s with
  | nil =>
    cases Option.some.inj ran
    simp [Along,safe t start]
  | cons a rest ih =>
    obtain ⟨u,hu,hr⟩ := runCons ran
    simp only [Along,hu,Option.some.injEq,forall_eq']
    constructor
    · intro final
      have held : guard s a := by
        by_contra broken
        exact bad t (everyRun (breaks s a u start broken hu) stays hr) final
      exact ⟨held,(ih (keeps s a u start held hu) hr).mp final⟩
    · exact fun ⟨held,later⟩ => (ih (keeps s a u start held hu) hr).mpr later

def tally (step : σ → α → Option σ) (worth : σ → α → Nat) : σ → List α → Nat
  | _,[] => 0
  | s,a::rest => worth s a + (step s a).elim 0 fun t => tally step worth t rest

theorem tallySum {s as t} (worth : α → Nat) (ran : run step s as = some t) :
    tally step (fun _ => worth) s as = (as.map worth).sum := by
  induction as generalizing s with
  | nil => rfl
  | cons a rest ih =>
    obtain ⟨u,hu,hr⟩ := runCons ran
    simp only [tally,hu,Option.elim_some,ih hr,List.map_cons,List.sum_cons]

theorem tallyLength {s as t} (ran : run step s as = some t) : tally step (fun _ _ => 1) s as = as.length := by
  induction as generalizing s with
  | nil => rfl
  | cons a rest ih =>
    obtain ⟨u,hu,hr⟩ := runCons ran
    simp only [tally,hu,Option.elim_some,ih hr,List.length_cons]
    omega

theorem paidAlong {s as t n} {has : σ → Nat → Prop} {cost gain : σ → α → Nat} (start : has s n)
    (pays : ∀ s a t n, has s n → step s a = some t → ∃ m, has t m ∧ m + cost s a ≤ n + gain s a)
    (ran : run step s as = some t) :
    ∃ m, has t m ∧ m + tally step cost s as ≤ n + tally step gain s as := by
  induction as generalizing s n with
  | nil => cases Option.some.inj ran; exact ⟨n,start,Nat.le_refl _⟩
  | cons a rest ih =>
    obtain ⟨u,hu,hr⟩ := runCons ran
    obtain ⟨k,here,first⟩ := pays s a u n start hu
    obtain ⟨m,there,later⟩ := ih here hr
    refine ⟨m,there,?_⟩
    simp only [tally,hu,Option.elim_some]
    omega

theorem balancedAlong {s as t n} {has : σ → Nat → Prop} {cost gain : σ → α → Nat} (start : has s n)
    (pays : ∀ s a t n, has s n → step s a = some t → ∃ m, has t m ∧ m + cost s a = n + gain s a)
    (ran : run step s as = some t) :
    ∃ m, has t m ∧ m + tally step cost s as = n + tally step gain s as := by
  induction as generalizing s n with
  | nil => cases Option.some.inj ran; exact ⟨n,start,rfl⟩
  | cons a rest ih =>
    obtain ⟨u,hu,hr⟩ := runCons ran
    obtain ⟨k,here,first⟩ := pays s a u n start hu
    obtain ⟨m,there,later⟩ := ih here hr
    refine ⟨m,there,?_⟩
    simp only [tally,hu,Option.elim_some]
    omega

/- Where each step of one system is a run of another, so is each of its runs. -/
theorem simulated {τ β : Type} {served : τ → β → Option τ} {rel : σ → τ → Prop} {s as t u} (start : rel s u)
    (each : ∀ s a t u, rel s u → step s a = some t → ∃ bs v, run served u bs = some v ∧ rel t v)
    (ran : run step s as = some t) : ∃ bs v, run served u bs = some v ∧ rel t v := by
  induction as generalizing s u with
  | nil => cases Option.some.inj ran; exact ⟨[],u,rfl,start⟩
  | cons a rest ih =>
    obtain ⟨x,hx,hr⟩ := runCons ran
    obtain ⟨bs,v,first,here⟩ := each s a x u start hx
    obtain ⟨cs,w,later,there⟩ := ih here hr
    exact ⟨bs ++ cs,w,runAppend.mpr ⟨v,first,later⟩,there⟩

section
variable {τ : Type} [DecidableEq τ]

def beside (step : σ → α → Option σ) (states : τ → σ) (label : τ × α) : Option (τ → σ) :=
  (step (states label.1) label.2).map (Function.update states label.1)

def mine (t : τ) (labels : List (τ × α)) : List α := (labels.filter (·.1 = t)).map Prod.snd

theorem mineHere (t : τ) (a : α) (labels : List (τ × α)) : mine t ((t,a)::labels) = a::mine t labels := by
  simp [mine]

theorem mineOther {t u : τ} (other : u ≠ t) (a : α) (labels : List (τ × α)) :
    mine t ((u,a)::labels) = mine t labels := by
  simp [mine,other]

theorem mineAppend (t : τ) (xs ys : List (τ × α)) : mine t (xs ++ ys) = mine t xs ++ mine t ys := by
  simp [mine]

theorem mineMap (t u : τ) (as : List α) : mine t (as.map (Prod.mk u)) = if u = t then as else [] := by
  by_cases same : u = t <;> simp [mine,List.filter_map,Function.comp_def,same]

theorem besideExact {states ends : τ → σ} {labels : List (τ × α)} :
    run (beside step) states labels = some ends ↔ ∀ t, run step (states t) (mine t labels) = some (ends t) := by
  induction labels generalizing states with
  | nil => simp [run,mine,funext_iff]
  | cons label rest ih =>
    obtain ⟨u,a⟩ := label
    cases moved : step (states u) a with
    | none =>
      have stuck : beside step states (u,a) = none := by rw [beside,moved]; rfl
      refine iff_of_false (fun ran => ?_) fun each => ?_
      · obtain ⟨_,next,_⟩ := runCons ran
        rw [stuck] at next
        cases next
      · have mineFirst := each u
        rw [mineHere] at mineFirst
        obtain ⟨_,next,_⟩ := runCons mineFirst
        rw [moved] at next
        cases next
    | some s =>
      have first : beside step states (u,a) = some (Function.update states u s) := by rw [beside,moved]; rfl
      have whole : run (beside step) states ((u,a)::rest) = run (beside step) (Function.update states u s) rest := by
        rw [run,first]
        rfl
      rw [whole,ih]
      refine forall_congr' fun t => ?_
      by_cases same : u = t
      · subst same
        rw [mineHere,Function.update_self,run,moved]
        rfl
      · rw [mineOther same,Function.update_of_ne (Ne.symm same)]

end

end IttyBittyServer.Run
