import Mathlib.Data.Finset.Basic
import Mathlib.Data.Finset.Lattice.Lemmas
import IttyBittyServer.Run

/-! What a program acquires, uses and releases, one action after the other. To use or release
what is not held, or to acquire what is, has no result. -/
namespace IttyBittyServer.Ledger
open Run

inductive Act (ρ : Type) where
  | acquire (r : ρ)
  | use (r : ρ)
  | release (r : ρ)
  deriving DecidableEq, Repr

variable {ρ : Type} [DecidableEq ρ] {held before between after : Finset ρ} {acts : List (Act ρ)} {r : ρ}

def perform (held : Finset ρ) : Act ρ → Option (Finset ρ)
  | .acquire r => if r ∈ held then none else some (insert r held)
  | .use r => if r ∈ held then some held else none
  | .release r => if r ∈ held then some (held.erase r) else none

def Settles (before : Finset ρ) (acts : List (Act ρ)) (after : Finset ρ) : Prop := run perform before acts = some after

instance : Decidable (Settles before acts after) := inferInstanceAs (Decidable (_ = _))

theorem settlesAppend {more : List (Act ρ)} (first : Settles before acts between) (later : Settles between more after) :
    Settles before (acts ++ more) after :=
  runAppend.mpr ⟨between,first,later⟩

theorem settlesNil : Settles held [] held := rfl

theorem settlesAcquire (free : r ∉ held) (later : Settles (insert r held) acts after) :
    Settles held (.acquire r::acts) after := by
  simpa only [Settles,run,perform,if_neg free,bind,Option.bind_some] using later

theorem settlesUse (mem : r ∈ held) (later : Settles held acts after) : Settles held (.use r::acts) after := by
  simpa only [Settles,run,perform,if_pos mem,bind,Option.bind_some] using later

theorem settlesRelease (mem : r ∈ held) (later : Settles (held.erase r) acts after) :
    Settles held (.release r::acts) after := by
  simpa only [Settles,run,perform,if_pos mem,bind,Option.bind_some] using later

theorem settlesWith (free : r ∉ held) (inside : Settles (insert r held) acts (insert r after)) (gone : r ∉ after) :
    Settles held (.acquire r::(acts ++ [.release r])) after := by
  refine settlesAcquire free (settlesAppend inside (settlesRelease (Finset.mem_insert_self r after) ?_))
  rw [Finset.erase_insert gone]
  exact settlesNil

theorem settlesRounds {rounds : List (List (Act ρ))} (each : ∀ acts ∈ rounds, Settles held acts held) :
    Settles held rounds.flatten held := by
  induction rounds with
  | nil => exact settlesNil
  | cons acts rounds ih =>
    exact settlesAppend (each acts List.mem_cons_self) (ih fun other mem => each other (List.mem_cons_of_mem _ mem))

theorem settlesAcquireAll {rs : List ρ} (distinct : rs.Nodup) (free : ∀ r ∈ rs, r ∉ held) :
    Settles held (rs.map .acquire) (held ∪ rs.toFinset) := by
  induction rs generalizing held with
  | nil => rw [List.toFinset_nil,Finset.union_empty]; exact settlesNil
  | cons r rs ih =>
    obtain ⟨away,distinct⟩ := List.nodup_cons.mp distinct
    refine settlesAcquire (free r List.mem_cons_self) ?_
    have rest := @ih (insert r held) distinct fun x mem inside => by
      rcases Finset.mem_insert.mp inside with rfl | inside
      · exact away mem
      · exact free x (List.mem_cons_of_mem r mem) inside
    rwa [Finset.insert_union,← Finset.union_insert,← List.toFinset_cons] at rest

theorem settlesDrain {ι : Type} {own : ι → ρ} {turn : ι → List (Act ρ)} {is : List ι}
    (each : ∀ i rest, i::rest <:+ is → Settles (insert (own i) (held ∪ (rest.map own).toFinset)) (turn i)
      (held ∪ (rest.map own).toFinset)) :
    Settles (held ∪ (is.map own).toFinset) (is.flatMap turn) held := by
  induction is with
  | nil => rw [List.map_nil,List.toFinset_nil,Finset.union_empty]; exact settlesNil
  | cons i is ih =>
    rw [List.map_cons,List.toFinset_cons,Finset.union_insert]
    refine settlesAppend (each i is List.suffix_rfl) (ih fun x rest suffix => each x rest ?_)
    exact suffix.trans (List.suffix_cons i is)

/-- However the actions of several owners are mixed, each keeps what it keeps alone. -/
theorem settlesBeside {τ : Type} [DecidableEq τ] {held after : τ → Finset ρ} {labels : List (τ × Act ρ)}
    (each : ∀ t, Settles (held t) (mine t labels) (after t)) : run (beside perform) held labels = some after :=
  besideExact.mpr each

end IttyBittyServer.Ledger
