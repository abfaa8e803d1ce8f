import Hazard.Markov.ProcessChecker
import Hazard.Proofs.Ancestors
/-!
# Growing a set until no state passes the test

The searches on decision processes add states one by one and read the set while it grows. Whatever
is added passed the test on a set of earlier members, and the loop ends only when nothing outside
the set passes it. Neither fact needs a monotone test.
-/

namespace Hazard.DecisionProcess

open Predecessors (missing missing_adjoin missing_le)

variable {states state : Nat} {test : StateSet → Nat → Bool} {set current : StateSet}

/-- `Grown states test set result`: from `set` one comes to `result` by adding new states, each of
which passes the test on what is there already. -/
inductive Grown (states : Nat) (test : StateSet → Nat → Bool) (set : StateSet) : StateSet → Prop
  | refl : Grown states test set set
  | adjoin {current : StateSet} {state : Nat} (hgrown : Grown states test set current)
      (hlt : state < states) (hnew : current.contains state = false)
      (htest : test current state = true) : Grown states test set (current.adjoin state)

namespace Grown

theorem fits (hset : set.Fits states) (hgrown : Grown states test set current) :
    current.Fits states := by
  induction hgrown with
  | refl => exact hset
  | adjoin _ hlt _ _ ih => exact ih.adjoin hlt

theorem contains (hset : set.Fits states) (hgrown : Grown states test set current)
    (hstate : set.contains state = true) : current.contains state = true := by
  induction hgrown with
  | refl => exact hstate
  | adjoin hgrown hlt _ _ ih => exact ((hgrown.fits hset).contains_adjoin hlt).2 (.inr ih)

/-- What holds of the first members, and of a state that passes the test on members of which it
holds, holds of all members. -/
theorem members {member : Nat → Prop} (hset : set.Fits states)
    (hstart : ∀ state, set.contains state = true → member state)
    (hnext : ∀ current state, (∀ other, current.contains other = true → member other) →
      state < states → test current state = true → member state)
    (hgrown : Grown states test set current) (hstate : current.contains state = true) :
    member state := by
  induction hgrown generalizing state with
  | refl => exact hstart state hstate
  | adjoin hgrown hlt _ htest ih =>
      rcases ((hgrown.fits hset).contains_adjoin hlt).1 hstate with rfl | hold
      · exact hnext _ _ (fun other hother => ih hother) hlt htest
      · exact ih hold

end Grown

/-! ## The loop -/

def absorbState (test : StateSet → Nat → Bool) (current : StateSet) (state : Nat) : StateSet :=
  if !current.contains state && test current state then current.adjoin state else current

theorem absorbPass_eq (states : Nat) (test : StateSet → Nat → Bool) (set : StateSet) :
    absorbPass states test set = (List.range states).foldl (absorbState test) set := rfl

theorem grown_foldl {todo : List Nat} (htodo : ∀ state ∈ todo, state < states)
    (hgrown : Grown states test set current) :
    Grown states test set (todo.foldl (absorbState test) current) := by
  induction todo generalizing current with
  | nil => exact hgrown
  | cons state todo ih =>
      rw [List.foldl_cons]
      apply ih (fun other hother => htodo other (by simp [hother]))
      unfold absorbState
      split
      · next hadd =>
        simp only [Bool.and_eq_true, Bool.not_eq_true'] at hadd
        exact hgrown.adjoin (htodo state (by simp)) hadd.1 hadd.2
      · exact hgrown

theorem foldl_absorbState_cases {todo : List Nat} (htodo : ∀ state ∈ todo, state < states)
    (hfits : current.Fits states) :
    missing states (todo.foldl (absorbState test) current) < missing states current ∨
      todo.foldl (absorbState test) current = current ∧
        ∀ state ∈ todo, test current state = true → current.contains state = true := by
  induction todo generalizing current with
  | nil => exact .inr ⟨rfl, by simp⟩
  | cons state todo ih =>
      have hrest : ∀ other ∈ todo, other < states :=
        fun other hother => htodo other (by simp [hother])
      rw [List.foldl_cons]
      unfold absorbState
      split
      · next hadd =>
        simp only [Bool.and_eq_true, Bool.not_eq_true'] at hadd
        have hlt : state < states := htodo state (by simp)
        have hmissing := missing_adjoin hfits hlt hadd.1
        -- the rest of the pass cannot undo what this state has filled in
        left
        rcases ih hrest (hfits.adjoin hlt) with hless | ⟨hsame, -⟩
        · change missing states (todo.foldl (absorbState test) _) < _
          omega
        · change missing states (todo.foldl (absorbState test) _) < _
          rw [hsame]
          omega
      · next hkeep =>
        rcases ih hrest hfits with hless | ⟨hsame, hclosed⟩
        · exact .inl hless
        · refine .inr ⟨hsame, fun other hother htest => ?_⟩
          rcases List.mem_cons.1 hother with rfl | hother
          · simpa [htest] using hkeep
          · exact hclosed other hother htest

theorem absorbPass_cases (test : StateSet → Nat → Bool) (hfits : current.Fits states) :
    missing states (absorbPass states test current) < missing states current ∨
      absorbPass states test current = current ∧
        ∀ state < states, test current state = true → current.contains state = true := by
  rw [absorbPass_eq]
  simpa only [List.mem_range] using
    foldl_absorbState_cases (fun state hstate => List.mem_range.1 hstate) hfits

theorem grown_absorbPass (hgrown : Grown states test set current) :
    Grown states test set (absorbPass states test current) := by
  rw [absorbPass_eq]
  exact grown_foldl (fun state hstate => List.mem_range.1 hstate) hgrown

theorem grown_absorbWithin (fuel : Nat) (hgrown : Grown states test set current) :
    Grown states test set (absorbWithin states test fuel current) := by
  induction fuel generalizing current with
  | zero => exact hgrown
  | succ fuel ih =>
      unfold absorbWithin
      dsimp only
      split
      · exact hgrown
      · exact ih (grown_absorbPass hgrown)

/-- Every round but the last lowers the number of states that are missing. -/
theorem closed_absorbWithin {fuel : Nat} (hfits : current.Fits states)
    (hfuel : missing states current < fuel) (hlt : state < states)
    (htest : test (absorbWithin states test fuel current) state = true) :
    (absorbWithin states test fuel current).contains state = true := by
  induction fuel generalizing current with
  | zero => omega
  | succ fuel ih =>
      have hcases := absorbPass_cases test hfits
      unfold absorbWithin at htest ⊢
      dsimp only at htest ⊢
      split at htest
      · next hsame =>
        rw [if_pos hsame]
        rcases hcases with hless | ⟨-, hclosed⟩
        · rw [hsame] at hless
          omega
        · exact hclosed state hlt htest
      · next hdiff =>
        rw [if_neg hdiff]
        rcases hcases with hless | ⟨hsame, -⟩
        · exact ih ((grown_absorbPass .refl).fits hfits) (by omega) htest
        · exact absurd hsame hdiff

theorem grown_absorb (states : Nat) (test : StateSet → Nat → Bool) (set : StateSet) :
    Grown states test set (absorb states test set) :=
  grown_absorbWithin (states + 1) .refl

theorem closed_absorb (hset : set.Fits states) (hlt : state < states)
    (htest : test (absorb states test set) state = true) :
    (absorb states test set).contains state = true := by
  apply closed_absorbWithin hset _ hlt htest
  have := missing_le states set
  omega

end Hazard.DecisionProcess
