import Hazard.Proofs.Absorption
import Hazard.Proofs.Schedulers
/-!
# States of extreme probability

Which states reach a goal with probability zero or one under the best or the worst choices is a
matter of the moves alone. The sets that the checker computes are described by schedulers: what
some scheduler can bring about, and what none can prevent.
-/

namespace Hazard.DecisionProcess

open Relation

variable {α : Type} [Scalar α] {process : DecisionProcess α} {goal excluded targets : StateSet}
  {state next : Nat}

/-- A state where a query is still open: neither a goal nor excluded. -/
def Undecided (goal excluded : StateSet) (state : Nat) : Prop :=
  goal.contains state = false ∧ excluded.contains state = false

def Scheduler.CanReach (scheduler : process.Scheduler) (goal excluded : StateSet) (state : Nat) :
    Prop :=
  ∃ last, goal.contains last = true ∧
    Through (Undecided goal excluded) scheduler.Step state last

theorem Scheduler.CanReach.head {scheduler : process.Scheduler}
    (hundecided : Undecided goal excluded state) (hstep : scheduler.Step state next)
    (hnext : scheduler.CanReach goal excluded next) : scheduler.CanReach goal excluded state := by
  obtain ⟨last, hlast, hpath⟩ := hnext
  exact ⟨last, hlast, .head ⟨hundecided, hstep⟩ hpath⟩

/-! ## Backward search under any choice -/

theorem mem_predecessors :
    state ∈ process.predecessors.of next ↔
      next < process.stateCount ∧ state < process.stateCount ∧ process.Step state next := by
  rw [predecessors, Predecessors.mem_of_ofEdges]
  apply and_congr_right
  intro _
  simp only [arcs, List.mem_flatMap, List.mem_range, List.mem_map, Prod.mk.injEq, Step]
  constructor
  · rintro ⟨_, hlt, entries, hentries, _, hnext, rfl, rfl⟩
    exact ⟨hlt, entries, hentries, hnext⟩
  · rintro ⟨hlt, entries, hentries, hnext⟩
    exact ⟨state, hlt, entries, hentries, next, hnext, rfl, rfl⟩

theorem Proper.ancestor_iff (hproper : process.Proper) {ignore : StateSet}
    (hstate : state < process.stateCount) :
    process.predecessors.Ancestor targets ignore state ↔
      ∃ last, targets.contains last = true ∧
        Through (fun state => ignore.contains state = false) process.Step state last := by
  constructor
  · rintro ⟨last, hpath, hlast⟩
    refine ⟨last, hlast, Through.imp ?_ hpath⟩
    intro before after hopen hleads
    exact ⟨hopen, (mem_predecessors.1 hleads).2.2⟩
  · rintro ⟨last, hlast, hpath⟩
    refine ⟨last, ?_, hlast⟩
    induction hpath using ReflTransGen.head_induction_on with
    | refl => exact .refl
    | head hstep _ ih =>
        obtain ⟨entries, hentries, hnext⟩ := hstep.2
        have hlt := hproper.lt_of_support hstate hentries hnext
        exact .head ⟨hstep.1, mem_predecessors.2 ⟨hlt, hstate, hstep.2⟩⟩ (ih hlt)

theorem Proper.comprises_ancestors (hproper : process.Proper) (ignore : StateSet)
    (htargets : targets.Fits process.stateCount) :
    (process.predecessors.ancestors targets ignore).Comprises process.stateCount fun state =>
      ∃ last, targets.contains last = true ∧
        Through (fun state => ignore.contains state = false) process.Step state last := by
  have hsources : ∀ target, ∀ source ∈ process.predecessors.of target,
      source < process.stateCount := fun target source h => (mem_predecessors.1 h).2.1
  apply (Predecessors.comprises_ancestors hsources htargets).congr
  intro state hstate
  exact hproper.ancestor_iff hstate

/-! ## What can be attained -/

section

variable {outer : StateSet}

theorem fits_approach (hgoal : goal.Fits process.stateCount) :
    (process.approach goal excluded outer).Fits process.stateCount :=
  (grown_absorb _ _ goal).fits hgoal

theorem goal_mem_approach (hgoal : goal.Fits process.stateCount)
    (hstate : goal.contains state = true) :
    (process.approach goal excluded outer).contains state = true :=
  (grown_absorb _ _ goal).contains hgoal hstate

/-- The choices that stay inside the region, in states that the query has not excluded. -/
def Keeps (process : DecisionProcess α) (excluded outer : StateSet) (state : Nat)
    (entries : Weighted α) : Prop :=
  excluded.contains state = false ∧ outer.contains state = true ∧
    entries ∈ process.choicesOf state ∧ ∀ next ∈ entries.support, outer.contains next = true

theorem leads_iff {inner : StateSet} :
    (!excluded.contains state && outer.contains state && process.leads outer inner state) = true ↔
      ∃ entries, process.Keeps excluded outer state entries ∧
        ∃ next ∈ entries.support, inner.contains next = true := by
  simp only [Keeps, leads, Bool.and_eq_true, Bool.not_eq_true', List.any_eq_true, List.all_eq_true]
  constructor
  · rintro ⟨⟨hopen, houter⟩, entries, hentries, hstays, hleads⟩
    exact ⟨entries, ⟨hopen, houter, hentries, hstays⟩, hleads⟩
  · rintro ⟨entries, ⟨hopen, houter, hentries, hstays⟩, hleads⟩
    exact ⟨⟨hopen, houter⟩, entries, hentries, hstays, hleads⟩

theorem within_of_mem_approach (hgoal : goal.Fits process.stateCount)
    (hstate : (process.approach goal excluded outer).contains state = true) :
    ∃ steps, Within (process.Keeps excluded outer) (goal.contains · = true) steps state := by
  apply (grown_absorb _ _ goal).members hgoal _ _ hstate
  · intro state hstate
    exact ⟨0, hstate⟩
  · intro current state hcurrent _ htest
    obtain ⟨entries, hkeeps, next, hnext, hin⟩ := leads_iff.1 htest
    obtain ⟨steps, hsteps⟩ := hcurrent next hin
    exact ⟨steps + 1, entries, hkeeps, next, hnext, hsteps⟩

theorem approach_sub (hgoal : goal.Fits process.stateCount)
    (hsub : ∀ state, goal.contains state = true → outer.contains state = true)
    (hstate : (process.approach goal excluded outer).contains state = true) :
    outer.contains state = true := by
  obtain ⟨steps, hsteps⟩ := within_of_mem_approach hgoal hstate
  cases steps with
  | zero => exact hsub state hsteps
  | succ steps =>
      obtain ⟨entries, hkeeps, -⟩ := hsteps
      exact hkeeps.2.1

/-- Rounds narrow the region down to one that its own states approach the goal in. -/
theorem attainableWithin_fixed (hgoal : goal.Fits process.stateCount) {fuel : Nat}
    (houter : outer.Fits process.stateCount)
    (hsub : ∀ state, goal.contains state = true → outer.contains state = true)
    (hfuel : process.stateCount < Predecessors.missing process.stateCount outer + fuel) :
    process.approach goal excluded (process.attainableWithin goal excluded fuel outer) =
      process.attainableWithin goal excluded fuel outer := by
  induction fuel generalizing outer with
  | zero =>
      have := Predecessors.missing_le process.stateCount outer
      omega
  | succ fuel ih =>
      unfold attainableWithin
      dsimp only
      split
      · next hsame => rw [hsame, hsame]
      · next hdiff =>
        have hinner : (process.approach goal excluded outer).Fits process.stateCount :=
          fits_approach hgoal
        have hless := Predecessors.missing_lt hinner houter
          (fun state => approach_sub hgoal hsub) hdiff
        exact ih hinner (fun state => goal_mem_approach hgoal) (by omega)

theorem mem_attainableWithin {region : Nat → Prop} {fuel : Nat}
    (hkept : ∀ outer : StateSet, (∀ state, region state → outer.contains state = true) →
      ∀ state, region state → (process.approach goal excluded outer).contains state = true)
    (houter : ∀ state, region state → outer.contains state = true) (hstate : region state) :
    (process.attainableWithin goal excluded fuel outer).contains state = true := by
  induction fuel generalizing outer with
  | zero => exact houter state hstate
  | succ fuel ih =>
      unfold attainableWithin
      dsimp only
      split
      · exact hkept outer houter state hstate
      · exact ih (hkept outer houter)

end

theorem approach_attainableStates (hgoal : goal.Fits process.stateCount) :
    process.approach goal excluded (process.attainableStates goal excluded) =
      process.attainableStates goal excluded := by
  have hfull := StateSet.comprises_full process.stateCount
  apply attainableWithin_fixed hgoal hfull.toFits
  · intro state hstate
    exact (hfull.contains_iff state).2 ⟨hgoal.lt_of_contains hstate, trivial⟩
  · omega

/-- The states that a scheduler goes through before the goal, with the goals it meets. -/
def Scheduler.Visits (scheduler : process.Scheduler) (goal : StateSet) : Nat → Nat → Prop :=
  Through (fun state => goal.contains state = false) scheduler.Step

def Scheduler.Attains (scheduler : process.Scheduler) (goal excluded : StateSet) (state : Nat) :
    Prop :=
  ∀ visited, scheduler.Visits goal state visited → goal.contains visited = true ∨
    excluded.contains visited = false ∧ scheduler.CanReach goal excluded visited

theorem Proper.exists_attaining (hproper : process.Proper) (hgoal : goal.Fits process.stateCount)
    (hstate : (process.attainableStates goal excluded).contains state = true) :
    ∃ scheduler : process.Scheduler, scheduler.Attains goal excluded state := by
  generalize hregion : process.attainableStates goal excluded = region at hstate
  have hfixed : process.approach goal excluded region = region :=
    hregion ▸ approach_attainableStates hgoal
  obtain ⟨choice, hchoice⟩ :=
    exists_leading_choice (process.Keeps excluded region) (goal.contains · = true)
  obtain ⟨scheduler, hscheduler⟩ := hproper.exists_scheduler choice
  have hwithin (state : Nat) (hin : region.contains state = true) :
      ∃ steps, Within (process.Keeps excluded region) (goal.contains · = true) steps state :=
    within_of_mem_approach hgoal (hfixed.symm ▸ hin)
  have hstays (visited : Nat) (hvisits : scheduler.Visits goal state visited) :
      region.contains visited = true := by
    induction hvisits with
    | refl => exact hstate
    | @tail before after _ hstep ih =>
        obtain ⟨steps, hsteps⟩ := hwithin before ih
        obtain ⟨-, -, hoffered, hinside⟩ := (hchoice steps before hsteps).1 (by simp [hstep.1])
        apply hinside
        rw [← hscheduler before hoffered]
        exact hstep.2
  refine ⟨scheduler, fun visited hvisits => ?_⟩
  obtain ⟨steps, hsteps⟩ := hwithin visited (hstays visited hvisits)
  obtain ⟨hkeeps, last, hlast, hpath⟩ := hchoice steps visited hsteps
  by_cases hat : goal.contains visited = true
  · exact .inl hat
  · refine .inr ⟨(hkeeps hat).1, last, hlast, hpath.imp ?_⟩
    rintro before after ⟨hgo, hopen, -, hoffered, -⟩ hstep
    refine ⟨⟨by simpa using hgo, hopen⟩, ?_⟩
    rw [Scheduler.Step, hscheduler before hoffered]
    exact hstep

theorem Proper.mem_attainable (hproper : process.Proper) (hgoal : goal.Fits process.stateCount)
    (hlt : state < process.stateCount) {scheduler : process.Scheduler}
    (hattains : scheduler.Attains goal excluded state) :
    (process.attainableStates goal excluded).contains state = true := by
  have hinside (visited : Nat) (hvisits : scheduler.Visits goal state visited) :
      visited < process.stateCount := (hproper.through_step scheduler hlt hvisits).1
  have hkept (outer : StateSet)
      (houter : ∀ visited, scheduler.Visits goal state visited → outer.contains visited = true)
      (visited : Nat) (hvisits : scheduler.Visits goal state visited) :
      (process.approach goal excluded outer).contains visited = true := by
    have happroach (last : Nat) (hlast : goal.contains last = true)
        (hpath : Through (Undecided goal excluded) scheduler.Step visited last) :
        (process.approach goal excluded outer).contains visited = true := by
      induction hpath using ReflTransGen.head_induction_on with
      | refl => exact goal_mem_approach hgoal hlast
      | @head before after hstep _ ih =>
          have hnext (next : Nat) (h : scheduler.Step before next) :
              scheduler.Visits goal state next := hvisits.tail ⟨hstep.1.1, h⟩
          have hbefore := hinside before hvisits
          apply closed_absorb hgoal hbefore
          rw [leads_iff]
          refine ⟨scheduler.choice before, ⟨hstep.1.2, houter before hvisits,
            scheduler.offered before hbefore, fun next h => houter next (hnext next h)⟩,
            after, hstep.2, ih (hnext after hstep.2)⟩
    rcases hattains visited hvisits with hat | ⟨-, last, hlast, hpath⟩
    · exact goal_mem_approach hgoal hat
    · exact happroach last hlast hpath
  apply mem_attainableWithin hkept _ .refl
  intro visited hvisits
  exact ((StateSet.comprises_full _).contains_iff visited).2 ⟨hinside visited hvisits, trivial⟩

theorem fits_attainableStates (hgoal : goal.Fits process.stateCount) :
    (process.attainableStates goal excluded).Fits process.stateCount := by
  rw [← approach_attainableStates hgoal]
  exact fits_approach hgoal

/-- The set of probability 0 under all choices holds the states without a way to the goal, and the
set of probability 1 under the best ones those from which some scheduler never loses the way. -/
theorem maximal_extremes_exact (process : DecisionProcess α) (hproper : process.Proper)
    (goal excluded : StateSet) (hgoal : goal.Fits process.stateCount) (state : Nat) :
    ((process.neverStates goal excluded).contains state = true ↔
      state < process.stateCount ∧ ¬ ∃ last, goal.contains last = true ∧
        Through (fun state => excluded.contains state = false) process.Step state last) ∧
    ((process.attainableStates goal excluded).contains state = true ↔
      state < process.stateCount ∧ ∃ scheduler : process.Scheduler, ∀ visited,
        Through (fun state => goal.contains state = false) scheduler.Step state visited →
          goal.contains visited = true ∨
            excluded.contains visited = false ∧ scheduler.CanReach goal excluded visited) := by
  constructor
  · exact (hproper.comprises_ancestors excluded hgoal).complement.contains_iff state
  · constructor
    · intro hstate
      exact ⟨(fits_attainableStates hgoal).lt_of_contains hstate,
        hproper.exists_attaining hgoal hstate⟩
    · rintro ⟨hlt, scheduler, hattains⟩
      exact hproper.mem_attainable hgoal hlt hattains

/-- State 0 walks to the goal, state 1, or tosses a coin that may lead to the dead end, state 3.
State 2 waits or goes on to state 0, and state 4 tries to get to the goal until it succeeds. -/
def coinOrWalk : DecisionProcess Rat where
  choices := #[[[(1, 1 / 2), (3, 1 / 2)], [(1, 1)]], [[(1, 1)]], [[(2, 1)], [(0, 1)]], [[(3, 1)]],
    [[(1, 1 / 2), (4, 1 / 2)]]]
  labels := #[.empty, .singleton ⟨0, by decide⟩, .empty, .empty, .empty]
  initial := [[(0, 1)]]
  propositions := ["there"]

def there : StateSet := .ofTest 5 (· == 1)

def deadEnd : StateSet := .ofTest 5 (· == 3)

theorem proper_coinOrWalk : coinOrWalk.Proper where
  offers := by decide
  inside := by decide
  moves := by decide +kernel

theorem maximal_extremes_exact_coinOrWalk :
    coinOrWalk.Proper ∧ there.Fits coinOrWalk.stateCount ∧
      (¬ ∃ last, there.contains last = true ∧
        Through (fun state => deadEnd.contains state = false) coinOrWalk.Step 3 last) ∧
      ∃ scheduler : coinOrWalk.Scheduler, ∀ visited,
        Through (fun state => there.contains state = false) scheduler.Step 2 visited →
          there.contains visited = true ∨
            deadEnd.contains visited = false ∧ scheduler.CanReach there deadEnd visited := by
  have hgoal : there.Fits coinOrWalk.stateCount := (StateSet.comprises_ofTest 5 _).toFits
  have hexact := maximal_extremes_exact coinOrWalk proper_coinOrWalk there deadEnd hgoal
  exact ⟨proper_coinOrWalk, hgoal, ((hexact 3).1.1 (by decide +kernel)).2,
    ((hexact 2).2.1 (by decide +kernel)).2⟩

/-! ## What can be avoided -/

def forced (process : DecisionProcess α) (goal excluded : StateSet) : StateSet :=
  absorb process.stateCount
    (fun set state => !excluded.contains state && process.forces set state) goal

theorem contains_avoidableStates (hgoal : goal.Fits process.stateCount) :
    (process.avoidableStates goal excluded).contains state = true ↔
      state < process.stateCount ∧ ¬ (process.forced goal excluded).contains state = true :=
  ((grown_absorb _ _ goal).fits hgoal).contains_complement

theorem fits_avoidableStates (hgoal : goal.Fits process.stateCount) :
    (process.avoidableStates goal excluded).Fits process.stateCount :=
  ((grown_absorb _ _ goal).fits hgoal).complement

theorem goal_not_avoidable (hgoal : goal.Fits process.stateCount)
    (hstate : goal.contains state = true) :
    ¬ (process.avoidableStates goal excluded).contains state = true := by
  rw [contains_avoidableStates hgoal]
  intro havoidable
  exact havoidable.2 ((grown_absorb _ _ goal).contains hgoal hstate)

theorem canReach_of_forced (hgoal : goal.Fits process.stateCount)
    (scheduler : process.Scheduler)
    (hstate : (process.forced goal excluded).contains state = true) :
    scheduler.CanReach goal excluded state := by
  apply (grown_absorb _ _ goal).members hgoal _ _ hstate
  · intro state hstate
    exact ⟨state, hstate, .refl⟩
  · intro current state hcurrent hlt htest
    by_cases hat : goal.contains state = true
    · exact ⟨state, hat, .refl⟩
    · simp only [forces, Bool.and_eq_true, Bool.not_eq_true', List.all_eq_true,
        List.any_eq_true] at htest
      obtain ⟨hopen, hforces⟩ := htest
      obtain ⟨next, hnext, hin⟩ := hforces _ (scheduler.offered state hlt)
      apply (hcurrent next hin).head ⟨by simpa using hat, hopen⟩ hnext

theorem Proper.exists_avoiding (hproper : process.Proper) (hgoal : goal.Fits process.stateCount)
    (hstate : (process.avoidableStates goal excluded).contains state = true)
    (hopen : excluded.contains state = false) :
    ∃ entries ∈ process.choicesOf state, ∀ next ∈ entries.support,
      (process.avoidableStates goal excluded).contains next = true := by
  obtain ⟨hlt, hfree⟩ := (contains_avoidableStates hgoal).1 hstate
  have htest : ¬ (!excluded.contains state &&
      process.forces (process.forced goal excluded) state) = true :=
    fun htest => hfree (closed_absorb hgoal hlt htest)
  simp only [hopen, forces, Bool.not_false, Bool.true_and, List.all_eq_true, List.any_eq_true,
    not_forall, not_exists, not_and] at htest
  obtain ⟨entries, hentries, hnone⟩ := htest
  refine ⟨entries, hentries, fun next hnext => ?_⟩
  rw [contains_avoidableStates hgoal]
  exact ⟨hproper.lt_of_support hlt hentries hnext, hnone next hnext⟩

theorem not_canReach_of_avoidable (hgoal : goal.Fits process.stateCount)
    {scheduler : process.Scheduler}
    (hstays : ∀ state, (process.avoidableStates goal excluded).contains state = true →
      excluded.contains state = false → ∀ next ∈ (scheduler.choice state).support,
        (process.avoidableStates goal excluded).contains next = true)
    (hstate : (process.avoidableStates goal excluded).contains state = true) :
    ¬ scheduler.CanReach goal excluded state := by
  rintro ⟨last, hlast, hpath⟩
  have havoidable : (process.avoidableStates goal excluded).contains last = true := by
    clear hlast
    induction hpath with
    | refl => exact hstate
    | tail _ hstep ih => exact hstays _ ih hstep.1.2 _ hstep.2
  exact goal_not_avoidable hgoal hlast havoidable

/-- Where `otherwise` is a choice it may be followed outside the states that avoid the goal. -/
theorem Proper.exists_avoiding_scheduler (hproper : process.Proper)
    (hgoal : goal.Fits process.stateCount) (excluded : StateSet) (otherwise : Nat → Weighted α) :
    ∃ scheduler : process.Scheduler,
      (∀ state, (process.avoidableStates goal excluded).contains state = true →
        ¬ scheduler.CanReach goal excluded state) ∧
      ∀ state, (process.avoidableStates goal excluded).contains state = false →
        otherwise state ∈ process.choicesOf state →
          scheduler.choice state = otherwise state := by
  have hprefers : ∀ state, ∃ entries,
      ((process.avoidableStates goal excluded).contains state = true →
        excluded.contains state = false → entries ∈ process.choicesOf state ∧
          ∀ next ∈ entries.support,
            (process.avoidableStates goal excluded).contains next = true) ∧
      ((process.avoidableStates goal excluded).contains state = false →
        entries = otherwise state) := by
    intro state
    by_cases hstate : (process.avoidableStates goal excluded).contains state = true
    · by_cases hopen : excluded.contains state = false
      · obtain ⟨entries, hentries, hnext⟩ := hproper.exists_avoiding hgoal hstate hopen
        exact ⟨entries, fun _ _ => ⟨hentries, hnext⟩, fun h => by simp [hstate] at h⟩
      · exact ⟨[], fun _ h => absurd h hopen, fun h => by simp [hstate] at h⟩
    · exact ⟨otherwise state, fun h => absurd h hstate, fun _ => rfl⟩
  choose prefers havoids hfollows using hprefers
  obtain ⟨scheduler, hscheduler⟩ := hproper.exists_scheduler prefers
  refine ⟨scheduler, fun state => not_canReach_of_avoidable hgoal ?_, ?_⟩
  · intro state hstate hopen
    obtain ⟨hoffered, hnext⟩ := havoids state hstate hopen
    rwa [hscheduler state hoffered]
  · intro state hstate hoffered
    have hprefers := hfollows state hstate
    rw [hscheduler state (hprefers ▸ hoffered), hprefers]

theorem Proper.avoidable_iff (hproper : process.Proper) (hgoal : goal.Fits process.stateCount) :
    (process.avoidableStates goal excluded).contains state = true ↔
      state < process.stateCount ∧
        ∃ scheduler : process.Scheduler, ¬ scheduler.CanReach goal excluded state := by
  constructor
  · intro hstate
    obtain ⟨scheduler, havoids, -⟩ :=
      hproper.exists_avoiding_scheduler hgoal excluded fun _ => []
    exact ⟨(fits_avoidableStates hgoal).lt_of_contains hstate, scheduler, havoids state hstate⟩
  · rintro ⟨hlt, scheduler, havoids⟩
    rw [contains_avoidableStates hgoal]
    exact ⟨hlt, fun hforced => havoids (canReach_of_forced hgoal scheduler hforced)⟩

theorem not_canReach_of_excluded {scheduler : process.Scheduler}
    (hstate : excluded.contains state = true) (hopen : goal.contains state = false) :
    ¬ scheduler.CanReach goal excluded state := by
  rintro ⟨last, hlast, hpath⟩
  rcases ReflTransGen.cases_head hpath with rfl | ⟨next, hstep, -⟩
  · simp [hopen] at hlast
  · simp [hstep.1.2] at hstate

/-! ## What cannot be prevented -/

def Continues (process : DecisionProcess α) (goal excluded : StateSet) (state : Nat)
    (entries : Weighted α) : Prop :=
  Undecided goal excluded state ∧ entries ∈ process.choicesOf state

/-- A way along any choices into the avoidable states, taken by a scheduler that then avoids the
goal. The way is a shortest one, so that it needs one choice for each of its states. -/
theorem Proper.exists_spoiling_scheduler (hproper : process.Proper)
    (hgoal : goal.Fits process.stateCount) {last : Nat}
    (hlast : (process.avoidableStates goal excluded).contains last = true)
    (hpath : Through (Undecided goal excluded) process.Step state last) :
    ∃ (scheduler : process.Scheduler) (spoiled : Nat),
      Through (Undecided goal excluded) scheduler.Step state spoiled ∧
        goal.contains spoiled = false ∧ ¬ scheduler.CanReach goal excluded spoiled := by
  have hwithin : ∃ steps, Within (process.Continues goal excluded)
      ((process.avoidableStates goal excluded).contains · = true) steps state := by
    induction hpath using ReflTransGen.head_induction_on with
    | refl => exact ⟨0, hlast⟩
    | head hstep _ ih =>
        obtain ⟨steps, hsteps⟩ := ih
        obtain ⟨hundecided, entries, hentries, hnext⟩ := hstep
        exact ⟨steps + 1, entries, ⟨hundecided, hentries⟩, _, hnext, hsteps⟩
  obtain ⟨steps, hsteps⟩ := hwithin
  obtain ⟨choice, hchoice⟩ := exists_leading_choice (process.Continues goal excluded)
    ((process.avoidableStates goal excluded).contains · = true)
  obtain ⟨-, spoiled, hspoiled, hway⟩ := hchoice steps state hsteps
  -- the way lies outside the avoidable states until it ends, so the two schedulers do not clash
  obtain ⟨scheduler, havoids, hfollows⟩ :=
    hproper.exists_avoiding_scheduler hgoal excluded choice
  refine ⟨scheduler, spoiled, ?_, ?_, havoids spoiled hspoiled⟩
  · apply hway.imp
    rintro before after ⟨htarget, hundecided, hoffered⟩ hstep
    refine ⟨hundecided, ?_⟩
    rw [Scheduler.Step, hfollows before (by simpa using htarget) hoffered]
    exact hstep
  · by_contra hat
    exact goal_not_avoidable hgoal (by simpa using hat) hspoiled

theorem Proper.comprises_surely (hproper : process.Proper) (hgoal : goal.Fits process.stateCount)
    (hexcluded : excluded.Fits process.stateCount) :
    (process.extremes .minimize goal excluded).2.Comprises process.stateCount fun state =>
      ¬ ∃ last, (process.avoidableStates goal excluded).contains last = true ∧
        Through (Undecided goal excluded) process.Step state last := by
  have hundecided (state : Nat) : (excluded.union goal).contains state = false ↔
      Undecided goal excluded state := by
    rw [← Bool.not_eq_true, StateSet.contains_union hexcluded hgoal]
    simp [Undecided, and_comm]
  have havoidable : (process.avoidableStates goal excluded).Fits process.stateCount :=
    fits_avoidableStates hgoal
  have hset := (hproper.comprises_ancestors (excluded.union goal) havoidable).complement
  simp only [hundecided] at hset
  exact hset

/-- The set of probability 0 under the worst choices holds the states that some scheduler keeps from
every way to the goal, and the set of probability 1 those from which no scheduler can leave all
ways to it. -/
theorem minimal_extremes_exact (process : DecisionProcess α) (hproper : process.Proper)
    (goal excluded : StateSet) (hgoal : goal.Fits process.stateCount)
    (hexcluded : excluded.Fits process.stateCount)
    (hdisjoint : ∀ state, goal.contains state = true → excluded.contains state = false)
    (state : Nat) :
    ((process.avoidableStates goal excluded).contains state = true ↔
      state < process.stateCount ∧
        ∃ scheduler : process.Scheduler, ¬ scheduler.CanReach goal excluded state) ∧
    (excluded.contains state = true →
      (process.avoidableStates goal excluded).contains state = true) ∧
    ((process.extremes .minimize goal excluded).2.contains state = true ↔
      state < process.stateCount ∧ ∀ (scheduler : process.Scheduler) (visited : Nat),
        Through (Undecided goal excluded) scheduler.Step state visited →
          goal.contains visited = true ∨
            excluded.contains visited = false ∧ scheduler.CanReach goal excluded visited) := by
  refine ⟨hproper.avoidable_iff hgoal, ?_, ?_⟩
  · intro hstate
    have hopen : goal.contains state = false := by
      by_contra hat
      simp [hdisjoint state (by simpa using hat)] at hstate
    obtain ⟨scheduler, -⟩ := hproper.exists_scheduler fun _ => []
    exact (hproper.avoidable_iff hgoal).2 ⟨hexcluded.lt_of_contains hstate, scheduler,
      not_canReach_of_excluded hstate hopen⟩
  · rw [(hproper.comprises_surely hgoal hexcluded).contains_iff]
    apply and_congr_right
    intro hlt
    constructor
    · intro hnone scheduler visited hpath
      obtain ⟨hvisited, hway⟩ := hproper.through_step scheduler hlt hpath
      by_contra hlost
      rw [not_or, not_and] at hlost
      apply hnone
      refine ⟨visited, (hproper.avoidable_iff hgoal).2 ⟨hvisited, scheduler, ?_⟩, hway⟩
      by_cases hexcl : excluded.contains visited = true
      · exact not_canReach_of_excluded hexcl (by simpa using hlost.1)
      · exact hlost.2 (by simpa using hexcl)
    · rintro hall ⟨last, hlast, hpath⟩
      obtain ⟨scheduler, spoiled, hway, hopen, hlost⟩ :=
        hproper.exists_spoiling_scheduler hgoal hlast hpath
      rcases hall scheduler spoiled hway with hat | ⟨-, hreach⟩
      · simp [hopen] at hat
      · exact hlost hreach

theorem minimal_extremes_exact_coinOrWalk :
    coinOrWalk.Proper ∧ there.Fits coinOrWalk.stateCount ∧ deadEnd.Fits coinOrWalk.stateCount ∧
      (∀ state, there.contains state = true → deadEnd.contains state = false) ∧
      (∃ scheduler : coinOrWalk.Scheduler, ¬ scheduler.CanReach there deadEnd 2) ∧
      ∀ (scheduler : coinOrWalk.Scheduler) (visited : Nat),
        Through (Undecided there deadEnd) scheduler.Step 4 visited →
          there.contains visited = true ∨
            deadEnd.contains visited = false ∧ scheduler.CanReach there deadEnd visited := by
  have hgoal : there.Comprises coinOrWalk.stateCount _ := StateSet.comprises_ofTest 5 (· == 1)
  have hexcluded : deadEnd.Comprises coinOrWalk.stateCount _ :=
    StateSet.comprises_ofTest 5 (· == 3)
  have hdisjoint (state : Nat) (hstate : there.contains state = true) :
      deadEnd.contains state = false := by
    rw [hgoal.contains_iff] at hstate
    rw [← Bool.not_eq_true, hexcluded.contains_iff]
    simp only [beq_iff_eq] at hstate ⊢
    omega
  have hexact := minimal_extremes_exact coinOrWalk proper_coinOrWalk there deadEnd hgoal.toFits
    hexcluded.toFits hdisjoint
  exact ⟨proper_coinOrWalk, hgoal.toFits, hexcluded.toFits, hdisjoint,
    ((hexact 2).1.1 (by decide +kernel)).2, ((hexact 4).2.2.1 (by decide +kernel)).2⟩

end Hazard.DecisionProcess
