import Hazard.Markov.ProcessChecker
import Mathlib.Data.Nat.Find
import Mathlib.Logic.Relation
import Mathlib.Tactic.Choose
/-!
# Memoryless schedulers

A scheduler fixes one choice for every state. Where each state of a region has some choice that may
bring it closer to a target, one scheduler does so from all of them at once: it takes, in every
state, a choice that starts a shortest way.
-/

namespace Hazard

open Relation

/-- The states on a path from one state to another all satisfy a condition, the last one apart. -/
def Through (inner : Nat → Prop) (step : Nat → Nat → Prop) : Nat → Nat → Prop :=
  ReflTransGen fun before after => inner before ∧ step before after

theorem Through.imp {inner inner' : Nat → Prop} {step step' : Nat → Nat → Prop} {first last : Nat}
    (himp : ∀ before after, inner before → step before after →
      inner' before ∧ step' before after)
    (hpath : Through inner step first last) : Through inner' step' first last :=
  ReflTransGen.mono (fun before after h => himp before after h.1 h.2) first last hpath

variable {α : Type} [Scalar α]

theorem Weighted.mem_support {entries : Weighted α} {state : Nat} :
    state ∈ entries.support ↔ ∃ weight, (state, weight) ∈ entries ∧ 0 < weight := by
  simp [Weighted.support]

namespace DecisionProcess

variable {process : DecisionProcess α}

/-- Every state has a choice, and every choice stays among the states and makes some move. -/
structure Proper (process : DecisionProcess α) : Prop where
  offers : ∀ state < process.stateCount, process.choicesOf state ≠ []
  inside : ∀ state < process.stateCount, ∀ entries ∈ process.choicesOf state,
    ∀ entry ∈ entries, entry.1 < process.stateCount
  moves : ∀ state < process.stateCount, ∀ entries ∈ process.choicesOf state,
    ∃ entry ∈ entries, 0 < entry.2

def Step (process : DecisionProcess α) (state next : Nat) : Prop :=
  ∃ entries ∈ process.choicesOf state, next ∈ entries.support

structure Scheduler (process : DecisionProcess α) where
  choice : Nat → Weighted α
  offered : ∀ state < process.stateCount, choice state ∈ process.choicesOf state

def Scheduler.Step (scheduler : process.Scheduler) (state next : Nat) : Prop :=
  next ∈ (scheduler.choice state).support

theorem Proper.lt_of_support (hproper : process.Proper) {state next : Nat} {entries : Weighted α}
    (hstate : state < process.stateCount) (hentries : entries ∈ process.choicesOf state)
    (hnext : next ∈ entries.support) : next < process.stateCount := by
  obtain ⟨weight, hentry, -⟩ := Weighted.mem_support.1 hnext
  exact hproper.inside state hstate entries hentries _ hentry

/-- What a scheduler can reach can be reached by some choices, and lies among the states. -/
theorem Proper.through_step (hproper : process.Proper) (scheduler : process.Scheduler)
    {inner : Nat → Prop} {first last : Nat} (hfirst : first < process.stateCount)
    (hpath : Through inner scheduler.Step first last) :
    last < process.stateCount ∧ Through inner process.Step first last := by
  induction hpath with
  | refl => exact ⟨hfirst, .refl⟩
  | @tail before after _ hstep ih =>
      have hoffered := scheduler.offered before ih.1
      exact ⟨hproper.lt_of_support ih.1 hoffered hstep.2,
        ih.2.tail ⟨hstep.1, scheduler.choice before, hoffered, hstep.2⟩⟩

theorem Proper.exists_scheduler (hproper : process.Proper) (prefers : Nat → Weighted α) :
    ∃ scheduler : process.Scheduler, ∀ state, prefers state ∈ process.choicesOf state →
      scheduler.choice state = prefers state := by
  classical
  have hchoice : ∀ state, ∃ entries, (state < process.stateCount →
      entries ∈ process.choicesOf state) ∧
      (prefers state ∈ process.choicesOf state → entries = prefers state) := by
    intro state
    by_cases hoffered : prefers state ∈ process.choicesOf state
    · exact ⟨prefers state, fun _ => hoffered, fun _ => rfl⟩
    · by_cases hstate : state < process.stateCount
      · obtain ⟨entries, hentries⟩ := List.exists_mem_of_ne_nil _ (hproper.offers state hstate)
        exact ⟨entries, fun _ => hentries, fun h => absurd h hoffered⟩
      · exact ⟨[], fun h => absurd h hstate, fun h => absurd h hoffered⟩
  choose choice hoffered hprefers using hchoice
  exact ⟨⟨choice, hoffered⟩, hprefers⟩

/-! ## Shortest ways -/

variable {admits : Nat → Weighted α → Prop} {target : Nat → Prop}

/-- A state from which admitted choices may lead to a target in so many steps. -/
def Within (admits : Nat → Weighted α → Prop) (target : Nat → Prop) : Nat → Nat → Prop
  | 0, state => target state
  | steps + 1, state => ∃ entries, admits state entries ∧
      ∃ next ∈ entries.support, Within admits target steps next

theorem exists_closer {state : Nat} (hwithin : ∃ steps, Within admits target steps state)
    (htarget : ¬ target state) :
    ∃ entries, admits state entries ∧ ∃ next ∈ entries.support, ∃ steps,
      Within admits target steps next ∧ ∀ more, Within admits target more state → steps < more := by
  classical
  have hleast := Nat.find_spec hwithin
  have hmin : ∀ more, Within admits target more state → Nat.find hwithin ≤ more :=
    fun more hmore => Nat.find_min' hwithin hmore
  generalize Nat.find hwithin = least at hleast hmin
  cases least with
  | zero => exact absurd hleast htarget
  | succ steps =>
      obtain ⟨entries, hadmits, next, hnext, hrest⟩ := hleast
      exact ⟨entries, hadmits, next, hnext, steps, hrest, hmin⟩

/-- One choice for every state is enough to come to a target from wherever that can be. -/
theorem exists_leading_choice (admits : Nat → Weighted α → Prop) (target : Nat → Prop) :
    ∃ choice : Nat → Weighted α, ∀ steps state, Within admits target steps state →
      (¬ target state → admits state (choice state)) ∧
      ∃ last, target last ∧
        Through (fun state => ¬ target state ∧ admits state (choice state))
          (fun state next => next ∈ (choice state).support) state last := by
  have hchoice : ∀ state, ∃ entries, (∃ steps, Within admits target steps state) →
      ¬ target state → admits state entries ∧ ∃ next ∈ entries.support, ∃ steps,
        Within admits target steps next ∧
          ∀ more, Within admits target more state → steps < more := by
    intro state
    by_cases hwithin : ∃ steps, Within admits target steps state
    · by_cases htarget : target state
      · exact ⟨[], fun _ h => absurd htarget h⟩
      · obtain ⟨entries, hentries⟩ := exists_closer hwithin htarget
        exact ⟨entries, fun _ _ => hentries⟩
    · exact ⟨[], fun h => absurd h hwithin⟩
  choose choice hchoice using hchoice
  -- the choice was made for the least number of steps, so it is closer whatever number is given
  refine ⟨choice, fun steps => ?_⟩
  induction steps using Nat.strongRecOn with
  | ind steps ih =>
      intro state hstate
      refine ⟨fun htarget => (hchoice state ⟨steps, hstate⟩ htarget).1, ?_⟩
      by_cases htarget : target state
      · exact ⟨state, htarget, .refl⟩
      · obtain ⟨hadmits, next, hnext, fewer, hfewer, hless⟩ :=
          hchoice state ⟨steps, hstate⟩ htarget
        obtain ⟨-, last, hlast, hpath⟩ := ih fewer (hless steps hstate) next hfewer
        exact ⟨last, hlast, .head ⟨⟨htarget, hadmits⟩, hnext⟩ hpath⟩

end DecisionProcess

end Hazard
