import Mathlib.Data.Nat.Cast.Order.Field
import Hazard.Proofs.BoundedReach
/-!
# Certainty on the graph and in the limit

The states that the checker classifies by the graph alone have the probabilities it gives them: the
bounded probabilities are zero, or come arbitrarily close to one. For the latter, a bounded number
of steps brings every state of the class to the goal with some probability that does not depend on
the state, and the rest stays in the class, so what is missing to one shrinks geometrically.
-/

namespace Hazard

open Relation

def Objective.opponent : Objective → Objective
  | .minimize => .maximize
  | .maximize => .minimize

/-- Two opponents who both secure something cannot keep each other from it. -/
theorem Objective.Secures.meets {β : Type} {objective : Objective} {items : List β}
    {wanted wanted' : β → Prop} (h : objective.Secures items wanted)
    (h' : objective.opponent.Secures items wanted') :
    ∃ item ∈ items, wanted item ∧ wanted' item := by
  cases objective with
  | maximize =>
      obtain ⟨item, hitem, hwanted⟩ := h
      exact ⟨item, hitem, hwanted, h' item hitem⟩
  | minimize =>
      obtain ⟨item, hitem, hwanted⟩ := h'
      exact ⟨item, hitem, h item hitem, hwanted⟩

namespace DecisionProcess

variable {process : DecisionProcess ℚ} {objective : Objective} {sets : UntilSets}
  {state next steps : Nat}

/-- The states that the checker gives probability 0. -/
def never (process : DecisionProcess ℚ) (objective : Objective) (sets : UntilSets) : StateSet :=
  (process.extremes objective sets.goal sets.excluded).1

/-- The states that the checker gives probability 1. -/
def surely (process : DecisionProcess ℚ) (objective : Objective) (sets : UntilSets) : StateSet :=
  (process.extremes objective sets.goal sets.excluded).2

namespace Stochastic

variable (hprocess : process.Stochastic) (hsets : sets.Separate process.stateCount)
include hprocess hsets

/-! ## Probability zero -/

theorem fits_never (objective : Objective) :
    (process.never objective sets).Fits process.stateCount := by
  cases objective with
  | maximize =>
      exact (hprocess.proper.comprises_ancestors sets.excluded hsets.goal_fits).complement.toFits
  | minimize => exact fits_avoidableStates hsets.goal_fits

theorem goal_not_never (hstate : (process.never objective sets).contains state = true) :
    sets.goal.contains state = false := by
  rw [← Bool.not_eq_true]
  intro hgoal
  cases objective with
  | maximize =>
      have hancestors := hprocess.proper.comprises_ancestors sets.excluded hsets.goal_fits
      exact ((hancestors.complement.contains_iff state).1 hstate).2 ⟨state, hgoal, .refl⟩
  | minimize => exact goal_not_avoidable hsets.goal_fits hgoal hstate

/-- Against the objective one can stay in the class. -/
theorem never_closed (hstate : (process.never objective sets).contains state = true)
    (hopen : sets.excluded.contains state = false) :
    objective.opponent.Secures (process.choicesOf state) fun entries =>
      ∀ next ∈ entries.support, (process.never objective sets).contains next = true := by
  cases objective with
  | maximize =>
      have hnever := (hprocess.proper.comprises_ancestors sets.excluded
        hsets.goal_fits).complement.contains_iff
      obtain ⟨hlt, hnone⟩ := (hnever state).1 hstate
      intro entries hentries next hnext
      refine (hnever next).2 ⟨hprocess.lt_of_support hlt hentries hnext, ?_⟩
      rintro ⟨last, hlast, hpath⟩
      exact hnone ⟨last, hlast, .head ⟨hopen, entries, hentries, hnext⟩ hpath⟩
  | minimize => exact hprocess.proper.exists_avoiding hsets.goal_fits hstate hopen

theorem reach_never (hstate : (process.never objective sets).contains state = true) :
    process.reach objective sets steps state = 0 := by
  have hlt := (hprocess.fits_never hsets objective).lt_of_contains hstate
  have hgoal := hprocess.goal_not_never hsets hstate
  induction steps generalizing state with
  | zero => simp [reach_zero hlt, hgoal]
  | succ steps ih =>
      rcases decided_cases sets.goal sets.excluded state with h | ⟨-, hexcluded⟩ | hundecided
      · simp [hgoal] at h
      · exact reach_excluded hlt hgoal hexcluded
      · obtain ⟨entries, hentries, hbound, hstays⟩ :=
          (hprocess.secures_reach objective steps hlt hundecided).meets
            (hprocess.never_closed hsets hstate hundecided.2)
        refine le_antisymm (hbound.trans ?_) (hprocess.reach_nonneg hlt)
        apply (hprocess.distributed state hlt entries hentries).mean_le
        intro next hnext
        exact (ih (hstays next hnext) (hprocess.lt_of_support hlt hentries hnext)
          (hprocess.goal_not_never hsets (hstays next hnext))).le

theorem excluded_mem_never (hstate : sets.excluded.contains state = true) :
    (process.never objective sets).contains state = true := by
  have hlt := hsets.excluded_fits.lt_of_contains hstate
  have hgoal : sets.goal.contains state = false := by
    rw [← Bool.not_eq_true]
    intro hgoal
    simp [hsets.disjoint state hgoal] at hstate
  cases objective with
  | maximize =>
      have hancestors := hprocess.proper.comprises_ancestors sets.excluded hsets.goal_fits
      refine (hancestors.complement.contains_iff state).2 ⟨hlt, ?_⟩
      rintro ⟨last, hlast, hpath⟩
      rcases ReflTransGen.cases_head hpath with rfl | ⟨next, hstep, -⟩
      · simp [hgoal] at hlast
      · simp [hstate] at hstep
  | minimize =>
      obtain ⟨scheduler, -⟩ := hprocess.proper.exists_scheduler fun _ => []
      exact (hprocess.proper.avoidable_iff hsets.goal_fits).2
        ⟨hlt, scheduler, not_canReach_of_excluded hstate hgoal⟩

/-! ## Probability one -/

theorem fits_surely (objective : Objective) :
    (process.surely objective sets).Fits process.stateCount := by
  cases objective with
  | maximize => exact fits_attainableStates hsets.goal_fits
  | minimize => exact (hprocess.proper.comprises_surely hsets.goal_fits hsets.excluded_fits).toFits

theorem goal_mem_surely (hgoal : sets.goal.contains state = true) :
    (process.surely objective sets).contains state = true := by
  cases objective with
  | maximize =>
      have hfixed : process.approach sets.goal sets.excluded (process.surely .maximize sets) =
          process.surely .maximize sets := approach_attainableStates hsets.goal_fits
      rw [← hfixed]
      exact goal_mem_approach hsets.goal_fits hgoal
  | minimize =>
      refine ((hprocess.proper.comprises_surely hsets.goal_fits
        hsets.excluded_fits).contains_iff state).2 ⟨hsets.goal_fits.lt_of_contains hgoal, ?_⟩
      rintro ⟨last, hlast, hpath⟩
      rcases ReflTransGen.cases_head hpath with rfl | ⟨next, hstep, -⟩
      · exact goal_not_avoidable hsets.goal_fits hgoal hlast
      · simp [hstep.1.1] at hgoal

end Stochastic

/-- The objective can secure a way to the goal of so many steps at most that has some probability,
while all else stays in the region. -/
def Nearing (process : DecisionProcess ℚ) (objective : Objective) (sets : UntilSets)
    (region : StateSet) : Nat → Nat → Prop
  | 0, state => sets.goal.contains state = true
  | steps + 1, state => sets.goal.contains state = true ∨
      Undecided sets.goal sets.excluded state ∧
        objective.Secures (process.choicesOf state) fun entries =>
          (∀ next ∈ entries.support, region.contains next = true) ∧
            ∃ next ∈ entries.support, process.Nearing objective sets region steps next

section

variable {region : StateSet} {fewer more : Nat}

theorem Nearing.succ (hnearing : process.Nearing objective sets region steps state) :
    process.Nearing objective sets region (steps + 1) state := by
  induction steps generalizing state with
  | zero => exact .inl hnearing
  | succ steps ih =>
      rcases hnearing with hgoal | ⟨hundecided, hsecures⟩
      · exact .inl hgoal
      · refine .inr ⟨hundecided, hsecures.imp ?_⟩
        rintro entries - ⟨hstays, next, hnext, hnear⟩
        exact ⟨hstays, next, hnext, ih hnear⟩

theorem Nearing.mono (hle : fewer ≤ more)
    (hnearing : process.Nearing objective sets region fewer state) :
    process.Nearing objective sets region more state := by
  induction hle with
  | refl => exact hnearing
  | step _ ih => exact ih.succ

theorem nearing_of_within
    (hwithin : Within (process.Keeps sets.excluded region) (sets.goal.contains · = true) steps
      state) :
    process.Nearing .maximize sets region steps state := by
  induction steps generalizing state with
  | zero => exact hwithin
  | succ steps ih =>
      obtain ⟨entries, ⟨hopen, -, hentries, hstays⟩, next, hnext, hrest⟩ := hwithin
      rcases hgoal : sets.goal.contains state with _ | _
      · exact .inr ⟨⟨hgoal, hopen⟩, entries, hentries, hstays, next, hnext, ih hrest⟩
      · exact .inl hgoal

theorem nearing_of_forced (hgoal : sets.goal.Fits process.stateCount)
    (hclosed : ∀ state, region.contains state = true → Undecided sets.goal sets.excluded state →
      ∀ entries ∈ process.choicesOf state, ∀ next ∈ entries.support, region.contains next = true)
    (hforced : (process.forced sets.goal sets.excluded).contains state = true) :
    region.contains state = true →
      ∃ steps, process.Nearing .minimize sets region steps state := by
  apply (grown_absorb _ _ sets.goal).members hgoal _ _ hforced
  · exact fun state hat _ => ⟨0, hat⟩
  · intro current state hcurrent hlt htest hregion
    simp only [forces, Bool.and_eq_true, Bool.not_eq_true', List.all_eq_true,
      List.any_eq_true] at htest
    obtain ⟨hopen, hforces⟩ := htest
    rcases hat : sets.goal.contains state with _ | _
    · have hstays := hclosed state hregion ⟨hat, hopen⟩
      have hnear : ∀ entries ∈ process.choicesOf state, ∃ steps, ∃ next ∈ entries.support,
          process.Nearing .minimize sets region steps next := by
        intro entries hentries
        obtain ⟨next, hnext, hin⟩ := hforces entries hentries
        obtain ⟨steps, hnear⟩ := hcurrent next hin (hstays entries hentries next hnext)
        exact ⟨steps, next, hnext, hnear⟩
      obtain ⟨steps, hsteps⟩ := exists_common (process.choicesOf state) _ (by
        rintro entries - fewer more hle ⟨next, hnext, hnear⟩
        exact ⟨next, hnext, hnear.mono hle⟩) hnear
      exact ⟨steps + 1, .inr ⟨⟨hat, hopen⟩, fun entries hentries =>
        ⟨hstays entries hentries, hsteps entries hentries⟩⟩⟩
    · exact ⟨0, hat⟩

end

/-- Positive weights have a positive lower bound that is common to the whole process. -/
theorem exists_least_weight (process : DecisionProcess ℚ) : ∃ least : ℚ, 0 < least ∧ least ≤ 1 ∧
    ∀ state < process.stateCount, ∀ entries ∈ process.choicesOf state, ∀ entry ∈ entries,
      0 < entry.2 → least ≤ entry.2 := by
  have hsmall (entry : Nat × ℚ) :
      ∃ number : Nat, 0 < entry.2 → 1 / ((number : ℚ) + 1) ≤ entry.2 := by
    by_cases hpos : 0 < entry.2
    · obtain ⟨number, hnumber⟩ := exists_nat_one_div_lt hpos
      exact ⟨number, fun _ => hnumber.le⟩
    · exact ⟨0, fun h => absurd h hpos⟩
  obtain ⟨number, hnumber⟩ := exists_common
    ((List.range process.stateCount).flatMap fun state => (process.choicesOf state).flatten)
    (fun number entry => 0 < entry.2 → 1 / ((number : ℚ) + 1) ≤ entry.2)
    (fun entry _ fewer more hle hfewer hpos => (Nat.one_div_le_one_div hle).trans (hfewer hpos))
    (fun entry _ => hsmall entry)
  refine ⟨1 / ((number : ℚ) + 1), by positivity, ?_, ?_⟩
  · rw [div_le_one (by positivity)]
    linarith [Nat.cast_nonneg (α := ℚ) number]
  · intro state hstate entries hentries entry hentry
    apply hnumber
    simp only [List.mem_flatMap, List.mem_range, List.mem_flatten]
    exact ⟨state, hstate, entries, hentries, hentry⟩

namespace Stochastic

variable (hprocess : process.Stochastic)
include hprocess

section

variable {region : StateSet} {least floor : ℚ} {already : Nat}
  (hleast : ∀ state < process.stateCount, ∀ entries ∈ process.choicesOf state, ∀ entry ∈ entries,
    0 < entry.2 → least ≤ entry.2)
include hleast

/-- Whatever the region is sure of already, so many steps more win a part of what is missing. -/
theorem lift_le_reach (hpos : 0 < least) (hle : least ≤ 1) (hfloor : floor ≤ 1)
    (hregion : ∀ state, region.contains state = true → state < process.stateCount ∧
      floor ≤ process.reach objective sets already state)
    (hstate : region.contains state = true)
    (hnearing : process.Nearing objective sets region steps state) :
    floor + least ^ steps * (1 - floor) ≤
      process.reach objective sets (already + steps) state := by
  have hgain (steps : Nat) : floor + least ^ steps * (1 - floor) ≤ 1 := by
    have hpow : least ^ steps ≤ 1 := pow_le_one₀ hpos.le hle
    nlinarith
  induction steps generalizing state with
  | zero => rw [reach_goal (hregion state hstate).1 hnearing, pow_zero, one_mul, add_sub_cancel]
  | succ steps ih =>
      have hlt := (hregion state hstate).1
      rcases hnearing with hgoal | ⟨hundecided, hsecures⟩
      · rw [reach_goal hlt hgoal]
        exact hgain (steps + 1)
      · rw [← Nat.add_assoc, hprocess.le_reach_succ_iff hlt hundecided]
        apply hsecures.imp
        rintro entries hentries ⟨hstays, next, hnext, hnear⟩
        obtain ⟨weight, hentry, hweight⟩ := Weighted.mem_support.1 hnext
        have hlift := (hprocess.distributed state hlt entries hentries).lift_le_mean
          (process.reach objective sets (already + steps)) (fun other hother =>
            (hregion other (hstays other hother)).2.trans (hprocess.reach_mono objective sets
              (hregion other (hstays other hother)).1 (Nat.le_add_right already steps))) hentry
        have hstep : least ^ steps * (1 - floor) ≤
            process.reach objective sets (already + steps) next - floor := by
          linarith [ih (hstays next hnext) hnear]
        have hrest : 0 ≤ least ^ steps * (1 - floor) :=
          mul_nonneg (pow_nonneg hpos.le steps) (by linarith)
        calc floor + least ^ (steps + 1) * (1 - floor)
            = floor + least * (least ^ steps * (1 - floor)) := by ring
          _ ≤ floor + weight * (process.reach objective sets (already + steps) next - floor) := by
              gcongr
              exact hleast state hlt entries hentries _ hentry hweight
          _ ≤ _ := hlift

end

theorem approached_one {region : StateSet} (hfits : region.Fits process.stateCount)
    (hnearing : ∀ state, region.contains state = true →
      ∃ steps, process.Nearing objective sets region steps state)
    (hstate : region.contains state = true) : process.Approached objective sets state 1 := by
  obtain ⟨least, hpos, hle, hleast⟩ := exists_least_weight process
  obtain ⟨round, hround⟩ := exists_common region.toList
    (fun steps state => process.Nearing objective sets region steps state)
    (fun _ _ _ _ hle hfewer => hfewer.mono hle)
    (fun state hstate => hnearing state (StateSet.mem_toList.1 hstate))
  have hpow : 0 < least ^ round := pow_pos hpos round
  have hpow' : least ^ round ≤ 1 := pow_le_one₀ hpos.le hle
  -- each round of steps leaves at most this part of what was missing
  have hrounds (rounds : Nat) (state : Nat) (hstate : region.contains state = true) :
      1 - (1 - least ^ round) ^ rounds ≤
        process.reach objective sets (rounds * round) state := by
    induction rounds generalizing state with
    | zero => simpa using hprocess.reach_nonneg (hfits.lt_of_contains hstate)
    | succ rounds ih =>
        have hfloor : 1 - (1 - least ^ round) ^ rounds ≤ 1 := by
          linarith [pow_nonneg (sub_nonneg.2 hpow') rounds]
        have hlift := hprocess.lift_le_reach hleast hpos hle hfloor
          (fun state hstate => ⟨hfits.lt_of_contains hstate, ih state hstate⟩) hstate
          (hround state (StateSet.mem_toList.2 hstate))
        rw [Nat.succ_mul]
        refine le_trans (le_of_eq ?_) hlift
        ring
  intro slack hslack
  obtain ⟨rounds, hsmall⟩ := exists_pow_lt_of_lt_one hslack (by linarith : 1 - least ^ round < 1)
  exact ⟨rounds * round, by linarith [hrounds rounds state hstate]⟩

variable (hsets : sets.Separate process.stateCount)
include hsets

theorem forced_of_surely (hstate : (process.surely .minimize sets).contains state = true) :
    (process.forced sets.goal sets.excluded).contains state = true := by
  obtain ⟨hlt, hnone⟩ := ((hprocess.proper.comprises_surely hsets.goal_fits
    hsets.excluded_fits).contains_iff state).1 hstate
  by_contra hfree
  exact hnone ⟨state, (contains_avoidableStates hsets.goal_fits).2 ⟨hlt, hfree⟩, .refl⟩

theorem surely_of_step (hstate : (process.surely .minimize sets).contains state = true)
    (hundecided : Undecided sets.goal sets.excluded state) {next : Nat}
    (hstep : process.Step state next) :
    (process.surely .minimize sets).contains next = true := by
  have hsurely := (hprocess.proper.comprises_surely hsets.goal_fits
    hsets.excluded_fits).contains_iff
  obtain ⟨hlt, hnone⟩ := (hsurely state).1 hstate
  obtain ⟨entries, hentries, hnext⟩ := hstep
  refine (hsurely next).2 ⟨hprocess.lt_of_support hlt hentries hnext, ?_⟩
  rintro ⟨last, hlast, hpath⟩
  exact hnone ⟨last, hlast, .head ⟨hundecided, entries, hentries, hnext⟩ hpath⟩

theorem nearing_of_surely (hstate : (process.surely objective sets).contains state = true) :
    ∃ steps, process.Nearing objective sets (process.surely objective sets) steps state := by
  cases objective with
  | maximize =>
      have hfixed : process.approach sets.goal sets.excluded (process.surely .maximize sets) =
          process.surely .maximize sets := approach_attainableStates hsets.goal_fits
      rw [← hfixed] at hstate
      obtain ⟨steps, hwithin⟩ := within_of_mem_approach hsets.goal_fits hstate
      exact ⟨steps, nearing_of_within hwithin⟩
  | minimize =>
      apply nearing_of_forced hsets.goal_fits _ (hprocess.forced_of_surely hsets hstate) hstate
      intro state hstate hundecided entries hentries next hnext
      exact hprocess.surely_of_step hsets hstate hundecided ⟨entries, hentries, hnext⟩

theorem approached_surely (hstate : (process.surely objective sets).contains state = true) :
    process.Approached objective sets state 1 :=
  hprocess.approached_one (hprocess.fits_surely hsets objective)
    (fun _ => hprocess.nearing_of_surely hsets) hstate

/-! ## Both in the limit -/

theorem supremum_never (hstate : (process.never objective sets).contains state = true) :
    process.supremum objective sets state = 0 := by
  simp [supremum, hprocess.reach_never hsets hstate]

theorem supremum_surely (hstate : (process.surely objective sets).contains state = true) :
    process.supremum objective sets state = 1 := by
  have hlt := (hprocess.fits_surely hsets objective).lt_of_contains hstate
  apply le_antisymm
  · apply (hprocess.isLUB_supremum objective sets hlt).2
    rintro _ ⟨steps, rfl⟩
    dsimp only
    exact_mod_cast hprocess.reach_le_one hlt
  · exact_mod_cast (hprocess.approached_iff hlt).1 (hprocess.approached_surely hsets hstate)

theorem undecided_of_remaining (hnever : (process.never objective sets).contains state = false)
    (hsurely : (process.surely objective sets).contains state = false) :
    Undecided sets.goal sets.excluded state := by
  rcases decided_cases sets.goal sets.excluded state with hgoal | ⟨-, hexcluded⟩ | hundecided
  · simp [hprocess.goal_mem_surely hsets hgoal] at hsurely
  · simp [hprocess.excluded_mem_never hsets hexcluded] at hnever
  · exact hundecided

/-! ## Only these -/

omit hsets in
theorem exists_reach_pos (hstate : state < process.stateCount) {last : Nat}
    (hlast : sets.goal.contains last = true)
    (hpath : Through (fun state => sets.excluded.contains state = false) process.Step state last) :
    ∃ steps, 0 < process.reach .maximize sets steps state := by
  induction hpath using ReflTransGen.head_induction_on with
  | refl => exact ⟨0, by rw [reach_goal hstate hlast]; norm_num⟩
  | @head before after hstep _ ih =>
      obtain ⟨hopen, entries, hentries, hnext⟩ := hstep
      rcases hgoal : sets.goal.contains before with _ | _
      · obtain ⟨steps, hpos⟩ := ih (hprocess.lt_of_support hstate hentries hnext)
        obtain ⟨weight, hentry, hweight⟩ := Weighted.mem_support.1 hnext
        refine ⟨steps + 1, (mul_pos hweight hpos).trans_le ?_⟩
        rw [hprocess.le_reach_succ_iff hstate ⟨hgoal, hopen⟩]
        refine ⟨entries, hentries, ?_⟩
        exact Weighted.weight_mul_le_mean _
          (hprocess.distributed before hstate entries hentries).nonneg
          (fun other hother => hprocess.reach_nonneg
            (hprocess.lt_of_support hstate hentries hother)) hentry
      · exact ⟨0, by rw [reach_goal hstate hgoal]; norm_num⟩

theorem exists_reach_le (hstate : state < process.stateCount) {last : Nat}
    (hlast : (process.never .minimize sets).contains last = true)
    (hpath : Through (Undecided sets.goal sets.excluded) process.Step state last) :
    ∃ gap : ℚ, 0 < gap ∧ ∀ steps, process.reach .minimize sets steps state ≤ 1 - gap := by
  induction hpath using ReflTransGen.head_induction_on with
  | refl => exact ⟨1, one_pos, fun steps => by rw [hprocess.reach_never hsets hlast, sub_self]⟩
  | @head before after hstep _ ih =>
      obtain ⟨hundecided, entries, hentries, hnext⟩ := hstep
      obtain ⟨gap, hgap, hle⟩ := ih (hprocess.lt_of_support hstate hentries hnext)
      obtain ⟨weight, hentry, hweight⟩ := Weighted.mem_support.1 hnext
      have hdistribution := hprocess.distributed before hstate entries hentries
      refine ⟨weight * gap, mul_pos hweight hgap, fun steps => ?_⟩
      have hsucc : process.reach .minimize sets (steps + 1) before ≤ 1 - weight * gap := by
        refine (hprocess.secures_reach .minimize steps hstate hundecided entries hentries).trans ?_
        refine (hdistribution.mean_le_drop _ (fun other hother =>
          hprocess.reach_le_one (hprocess.lt_of_support hstate hentries hother)) hentry).trans ?_
        gcongr
        linarith [hle steps]
      exact (hprocess.reach_le_succ hstate).trans hsucc

theorem never_maximize_iff :
    (process.never .maximize sets).contains state = true ↔
      state < process.stateCount ∧ ∀ steps, process.reach .maximize sets steps state = 0 := by
  constructor
  · intro hstate
    exact ⟨(hprocess.fits_never hsets _).lt_of_contains hstate,
      fun steps => hprocess.reach_never hsets hstate⟩
  · rintro ⟨hlt, hzero⟩
    refine ((hprocess.proper.comprises_ancestors sets.excluded
      hsets.goal_fits).complement.contains_iff state).2 ⟨hlt, ?_⟩
    rintro ⟨last, hlast, hpath⟩
    obtain ⟨steps, hpos⟩ := hprocess.exists_reach_pos hlt hlast hpath
    exact hpos.ne' (hzero steps)

theorem surely_minimize_iff :
    (process.surely .minimize sets).contains state = true ↔
      state < process.stateCount ∧ process.supremum .minimize sets state = 1 := by
  constructor
  · intro hstate
    exact ⟨(hprocess.fits_surely hsets _).lt_of_contains hstate,
      hprocess.supremum_surely hsets hstate⟩
  · rintro ⟨hlt, hone⟩
    refine ((hprocess.proper.comprises_surely hsets.goal_fits
      hsets.excluded_fits).contains_iff state).2 ⟨hlt, ?_⟩
    rintro ⟨last, hlast, hpath⟩
    obtain ⟨gap, hgap, hle⟩ := hprocess.exists_reach_le hsets hlt hlast hpath
    obtain ⟨steps, hsteps⟩ :=
      (hprocess.approached_iff hlt).2 (by rw [hone, Rat.cast_one]) (gap / 2) (half_pos hgap)
    linarith [hle steps]

/-! ## One objective against the other -/

theorem never_minimize_of_maximize (hstate : (process.never .maximize sets).contains state = true) :
    (process.never .minimize sets).contains state = true := by
  obtain ⟨hlt, hnone⟩ := ((hprocess.proper.comprises_ancestors sets.excluded
    hsets.goal_fits).complement.contains_iff state).1 hstate
  obtain ⟨scheduler, -⟩ := hprocess.proper.exists_scheduler fun _ => []
  refine (hprocess.proper.avoidable_iff hsets.goal_fits).2 ⟨hlt, scheduler, ?_⟩
  rintro ⟨last, hlast, hpath⟩
  refine hnone ⟨last, hlast, (hprocess.proper.through_step scheduler hlt hpath).2.imp ?_⟩
  exact fun _ _ hundecided hstep => ⟨hundecided.2, hstep⟩

/-- A state from which no choice loses the way to the goal is one, or is undecided and every choice
keeps such states. -/
theorem surely_minimize_cases (hstate : (process.surely .minimize sets).contains state = true) :
    sets.goal.contains state = true ∨
      Undecided sets.goal sets.excluded state ∧
        (process.forced sets.goal sets.excluded).contains state = true ∧
        ∀ next, process.Step state next →
          (process.surely .minimize sets).contains next = true := by
  rcases decided_cases sets.goal sets.excluded state with hgoal | ⟨-, hexcluded⟩ | hopen
  · exact .inl hgoal
  · obtain ⟨-, hnone⟩ := ((hprocess.proper.comprises_surely hsets.goal_fits
      hsets.excluded_fits).contains_iff state).1 hstate
    have hnever : (process.never .minimize sets).contains state = true :=
      hprocess.excluded_mem_never hsets hexcluded
    exact absurd ⟨state, hnever, .refl⟩ hnone
  · exact .inr ⟨hopen, hprocess.forced_of_surely hsets hstate,
      fun _ => hprocess.surely_of_step hsets hstate hopen⟩

theorem surely_maximize_of_minimize
    (hstate : (process.surely .minimize sets).contains state = true) :
    (process.surely .maximize sets).contains state = true := by
  have hlt := (hprocess.fits_surely hsets .minimize).lt_of_contains hstate
  obtain ⟨scheduler, -⟩ := hprocess.proper.exists_scheduler fun _ => []
  have hattains : scheduler.Attains sets.goal sets.excluded state := by
    intro visited hvisits
    have hkept : (process.surely .minimize sets).contains visited = true := by
      induction hvisits with
      | refl => exact hstate
      | @tail before after hbefore hstep ih =>
          have hbeforeLt := (hprocess.proper.through_step scheduler hlt hbefore).1
          rcases hprocess.surely_minimize_cases hsets ih with hgoal | ⟨-, -, hkeeps⟩
          · simp [hstep.1] at hgoal
          · exact hkeeps after ⟨_, scheduler.offered before hbeforeLt, hstep.2⟩
    rcases hprocess.surely_minimize_cases hsets hkept with hgoal | ⟨hopen, hforced, -⟩
    · exact .inl hgoal
    · exact .inr ⟨hopen.2, canReach_of_forced hsets.goal_fits scheduler hforced⟩
  exact hprocess.proper.mem_attainable hsets.goal_fits hlt hattains

end Stochastic

end DecisionProcess

end Hazard
