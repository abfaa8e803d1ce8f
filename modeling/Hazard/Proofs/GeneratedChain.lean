import Mathlib.Algebra.Order.Field.Rat
import Hazard.Generate
import Hazard.Proofs.ChainIteration
import Hazard.Proofs.GeneratedGraph
import Hazard.Proofs.LabelSequences
/-!
# Generated chains

A generated chain has the merged batches of an exploration for its rows. The probability that a
bounded query has on it can be read off the batches themselves, with labels on transitions: neither
merging nor numbering shows.
-/

namespace Hazard

open Traversal

/-! ## Bounded queries on batches -/

/-- The probability of reaching the goal within so many steps, from a target that was entered with a
label, through labels that satisfy `hold`. -/
def reachWithin (lists : Origin → List (Transition ℚ)) (hold goal : Predicate) :
    (steps : Nat) → (pair : Nat × Label) → ℚ
  | 0, pair => if goal.evaluate pair.2 then 1 else 0
  | steps + 1, pair =>
    if goal.evaluate pair.2 then 1
    else if hold.evaluate pair.2 then
      ((lists (some pair.1)).map fun transition =>
        transition.probability * reachWithin lists hold goal steps transition.pair).sum
    else 0

def reachInitially (lists : Origin → List (Transition ℚ)) (hold goal : Predicate) (steps : Nat) :
    ℚ :=
  ((lists none).map fun transition =>
    transition.probability * reachWithin lists hold goal steps transition.pair).sum

theorem sum_merged (merging : Merging) (stream : List (Origin × List (Transition ℚ)))
    (origin : Origin) (value : Nat × Label → ℚ) :
    ((merged merging stream origin).map fun transition =>
        transition.probability * value transition.pair).sum =
      ((batchOf stream origin).map fun transition =>
        transition.probability * value transition.pair).sum := by
  simpa [merged] using merging.sum_foldl_join value [] (batchOf stream origin)

theorem reachWithin_merged (merging : Merging) (stream : List (Origin × List (Transition ℚ)))
    (hold goal : Predicate) (steps : Nat) (pair : Nat × Label) :
    reachWithin (merged merging stream) hold goal steps pair =
      reachWithin (batchOf stream) hold goal steps pair := by
  induction steps generalizing pair with
  | zero => rfl
  | succ steps ih =>
      rw [reachWithin, reachWithin, ← sum_merged merging]
      simp only [ih]

/-! ## Bounded queries on chains -/

/-- The sets of a query, tested on labels: the goal, and what satisfies neither side. -/
structure UntilSets.Test (sets : UntilSets) (labels : Array Label) (hold goal : Predicate) :
    Prop where
  goal_eq : ∀ state < labels.size,
    sets.goal.contains state = goal.evaluate (labels.getD state .empty)
  excluded_iff : ∀ state < labels.size, (sets.excluded.contains state = true ↔
    ¬(hold.evaluate (labels.getD state .empty) = true ∨
      goal.evaluate (labels.getD state .empty) = true))

theorem UntilQuery.exists_sets {query : UntilQuery} {propositions : List String}
    {hold goal : Predicate} (hhold : Predicate.compile query.hold propositions = .ok hold)
    (hgoal : Predicate.compile query.goal propositions = .ok goal) (labels : Array Label) :
    ∃ sets, query.sets propositions labels = .ok sets ∧ sets.bound = query.bound ∧
      sets.Test labels hold goal := by
  have hstates (predicate : Predicate) := StateSet.comprises_ofTest labels.size fun state =>
    predicate.evaluate (labels.getD state .empty)
  have hexcluded := ((hstates hold).union (hstates goal)).complement
  refine ⟨_, bind_eq_ok.2 ⟨hold, hhold, bind_eq_ok.2 ⟨goal, hgoal, rfl⟩⟩, rfl, ?_, ?_⟩
  · intro state hstate
    rw [Bool.eq_iff_iff]
    exact ((hstates goal).contains_iff state).trans (and_iff_right hstate)
  · intro state hstate
    exact (hexcluded.contains_iff state).trans (and_iff_right hstate)

namespace MarkovChain

variable {chain : MarkovChain ℚ} {sets : UntilSets} {state steps : Nat}

theorem reach_zero (hstate : state < chain.stateCount) :
    chain.reach sets 0 state = if sets.goal.contains state then 1 else 0 := by
  rw [← reach_asProcess .minimize]
  exact DecisionProcess.reach_zero hstate

theorem reach_goal (hstate : state < chain.stateCount)
    (hgoal : sets.goal.contains state = true) : chain.reach sets steps state = 1 := by
  rw [← reach_asProcess .minimize]
  exact DecisionProcess.reach_goal hstate hgoal

theorem reach_excluded (hstate : state < chain.stateCount)
    (hgoal : sets.goal.contains state = false) (hexcluded : sets.excluded.contains state = true) :
    chain.reach sets steps state = 0 := by
  rw [← reach_asProcess .minimize]
  exact DecisionProcess.reach_excluded hstate hgoal hexcluded

theorem stateProbabilities_bounded (config : CheckerConfig ℚ) {formula : Formula}
    (hresolve : UntilQuery.resolve formula chain.propositions chain.labels = .ok sets)
    (hbound : sets.bound = some steps) :
    chain.stateProbabilities config formula =
      .ok (chain.bounded sets.goal sets.excluded steps) := by
  rw [stateProbabilities, hresolve]
  simp only [bind, Except.bind, hbound]
  rfl

end MarkovChain

/-! ## Generation -/

structure Tabulates (scenario : Scenario ℚ) (vectors : Array Bytes)
    (stream : List (Origin × List (Transition ℚ))) (pairs : List (Nat × Label))
    (chain : MarkovChain ℚ) : Prop where
  batches : ∀ origin : Origin, (∀ index ∈ origin, index < vectors.size) →
    scenario.IsBatch vectors origin (batchOf stream origin)
  mem_pairs : ∀ pair, pair ∈ pairs ↔ ReachablePair (merged .acrossChoices stream) pair
  chain_eq : chain = .ofPairs pairs (merged .acrossChoices stream) scenario.model.propositions

theorem ChainArena.appendAll_proceeds {merging : Merging} {origin : Origin}
    {batch : List (Transition ℚ)} {arena next : ChainArena ℚ} {verdict : Verdict}
    (h : arena.appendAll merging origin batch = (next, .ok verdict)) : verdict = .proceed := by
  induction batch generalizing arena with
  | nil =>
      cases h
      rfl
  | cons transition rest ih =>
      rw [appendAll] at h
      cases happend : arena.append merging origin transition with
      | error error =>
          rw [happend] at h
          cases h
      | ok larger =>
          rw [happend] at h
          exact ih h

theorem Merging.neverStops_observer (merging : Merging) :
    (merging.observer (α := ℚ)).NeverStops := by
  intro arena origin batch next verdict hshown
  exact ChainArena.appendAll_proceeds (observe_eq_ok hshown).2

/-- An exploration that is done has one batch for every source. -/
theorem covers_of_explored {σ : Type} {plan : Plan ℚ σ} {watcher : σ} {steps : Nat}
    {stream : List (Origin × List (Transition ℚ))} {done : Exploration σ}
    (h : Explored plan watcher steps stream done) (hall : steps = done.storage.size) :
    Covers stream steps where
  initial := by
    rw [h.origins, List.count_cons_self, List.count_eq_zero.2 (by simp)]
  once := by
    intro state hstate
    have hsome : ((List.range steps).map some).Nodup :=
      List.nodup_range.map (Option.some_injective Nat)
    rw [h.origins, List.count_cons_of_ne (by simp)]
    exact List.count_eq_one_of_mem hsome (List.mem_map_of_mem (List.mem_range.2 hstate))
  inside := by
    intro entry hentry transition htransition
    rw [hall, h.sound.size_eq]
    exact (h.batches entry hentry).target_lt htransition

theorem exists_tabulates {model : Model ℚ} {config : TraversalConfig} {options : GenerateOptions}
    {chain : MarkovChain ℚ}
    (h : Setup.generateMarkovChain (.ok model) config options = .ok chain) :
    ∃ parts activations vectors stream pairs, model.traversalOptions options = .ok parts ∧
      model.activateAll (parts.activations.getD []) = .ok activations ∧
      Tabulates ⟨model, activations, parts.modifiers⟩ vectors stream pairs chain := by
  obtain ⟨chains, hchains, hchain⟩ := bind_eq_ok.1 h
  obtain ⟨_, ⟨⟩, hrest⟩ := bind_eq_ok.1 hchains
  obtain ⟨parts, hparts, hrest⟩ := bind_eq_ok.1 hrest
  obtain ⟨⟨space, arena⟩, htraverse, hfinish⟩ := bind_eq_ok.1 hrest
  cases hfinish
  have hgoes := traverse_goes (Merging.neverStops_observer .acrossChoices) htraverse
  obtain ⟨activations, done, stream, hactivations, hexplored, rfl, rfl, hrunning⟩ :=
    exists_explored htraverse hgoes
  have hlists := (Merging.records_observer .acrossChoices).lists (hexplored.passes hrunning)
    (covers_of_explored hexplored rfl) model.propositions
  obtain ⟨pairs, -, hpairs, hmade⟩ := hlists.toMarkovChain_eq
  cases hmade.symm.trans (Setup.orMisuse_eq_ok.1 hchain)
  refine ⟨parts, activations, done.storage.vectors, stream, pairs, hparts, hactivations, ?_, hpairs,
    rfl⟩
  intro origin horigin
  rw [← hexplored.sound.size_eq] at horigin
  exact hexplored.batches _ (mem_stream_of_mem_map (hexplored.origin_mem horigin))

namespace Tabulates

variable {scenario : Scenario ℚ} {vectors : Array Bytes}
  {stream : List (Origin × List (Transition ℚ))} {pairs : List (Nat × Label)}
  {chain : MarkovChain ℚ} {query : UntilQuery} {hold goal : Predicate} {steps : Nat}

section

variable (h : Tabulates scenario vectors stream pairs chain) {pair : Nat × Label}
  (hpair : pair ∈ pairs)
include h hpair

theorem idxOf_lt : pairs.idxOf pair < chain.stateCount := by
  rw [h.chain_eq, MarkovChain.stateCount_ofPairs]
  exact List.idxOf_lt_length_iff.2 hpair

theorem label_idxOf : chain.labels.getD (pairs.idxOf pair) .empty = pair.2 := by
  rw [h.chain_eq]
  exact MarkovChain.label_ofPairs hpair

theorem row_idxOf : chain.matrix.row (pairs.idxOf pair) =
    numbered pairs ((merged .acrossChoices stream (some pair.1)).map Transition.entry) := by
  rw [h.chain_eq]
  exact MarkovChain.row_ofPairs hpair

/-- The state of a pair reaches the goal with the probability that the merged batches give. -/
theorem reach_eq {sets : UntilSets} (hsets : sets.Test chain.labels hold goal) :
    chain.reach sets steps (pairs.idxOf pair) =
      reachWithin (merged .acrossChoices stream) hold goal steps pair := by
  induction steps generalizing pair with
  | zero =>
      rw [MarkovChain.reach_zero (h.idxOf_lt hpair), hsets.goal_eq _ (h.idxOf_lt hpair),
        h.label_idxOf hpair]
      rfl
  | succ steps ih =>
      have hlt := h.idxOf_lt hpair
      have hgoal := hsets.goal_eq _ hlt
      have hexcluded := hsets.excluded_iff _ hlt
      rw [h.label_idxOf hpair] at hgoal hexcluded
      rw [reachWithin, ← hgoal]
      rcases DecisionProcess.decided_cases sets.goal sets.excluded (pairs.idxOf pair) with
        hreached | ⟨hmissed, hout⟩ | hopen
      · rw [MarkovChain.reach_goal hlt hreached, if_pos hreached]
      · rw [MarkovChain.reach_excluded hlt hmissed hout, hmissed,
          if_neg Bool.false_ne_true, if_neg fun hhold => hexcluded.1 hout (.inl hhold)]
      · have hhold : hold.evaluate pair.2 = true := by
          by_contra hfails
          refine Bool.false_ne_true (hopen.2.symm.trans (hexcluded.2 ?_))
          rw [← hgoal, hopen.1]
          simp [hfails]
        rw [MarkovChain.reach_succ hlt hopen, hopen.1, if_neg Bool.false_ne_true,
          if_pos hhold, h.row_idxOf hpair, Weighted.mean_numbered]
        refine congrArg List.sum (List.map_congr_left fun transition htransition => ?_)
        rw [ih (MarkovChain.mem_pairs_of_step h.mem_pairs hpair htransition)]

end

theorem probability_eq (h : Tabulates scenario vectors stream pairs chain)
    {formula : Formula} (hquery : UntilQuery.ofFormula formula = .ok query)
    (hbound : query.bound = some steps)
    (hhold : Predicate.compile query.hold scenario.model.propositions = .ok hold)
    (hgoal : Predicate.compile query.goal scenario.model.propositions = .ok goal)
    (config : CheckerConfig ℚ) :
    chain.probability config formula =
      .ok (reachInitially (batchOf stream) hold goal steps) := by
  have hpropositions : chain.propositions = scenario.model.propositions := by
    rw [h.chain_eq]
    rfl
  obtain ⟨sets, hsets, hsame, htest⟩ := UntilQuery.exists_sets hhold hgoal chain.labels
  have hresolve : UntilQuery.resolve formula chain.propositions chain.labels = .ok sets := by
    rw [UntilQuery.resolve, hquery]
    dsimp only
    rw [hpropositions, hsets]
  have hinitial : chain.initial =
      numbered pairs ((merged .acrossChoices stream none).map Transition.entry) := by
    rw [h.chain_eq]
    rfl
  rw [MarkovChain.probability,
    MarkovChain.stateProbabilities_bounded config hresolve (hsame.trans hbound)]
  refine congrArg Except.ok ?_
  rw [Weighted.expectation_eq_mean, hinitial, Weighted.mean_numbered, reachInitially,
    ← sum_merged .acrossChoices]
  refine congrArg List.sum (List.map_congr_left fun transition htransition => ?_)
  rw [← reachWithin_merged .acrossChoices]
  exact congrArg _ (h.reach_eq ((h.mem_pairs _).2 (.initial htransition)) htest)

theorem probability_eq_error (h : Tabulates scenario vectors stream pairs chain)
    {formula : Formula} (hquery : UntilQuery.ofFormula formula = .ok query) {error : FormulaError}
    (hhold : Predicate.compile query.hold scenario.model.propositions = .error error)
    (config : CheckerConfig ℚ) :
    chain.probability config formula = .error (.formula error) := by
  have hsets : query.sets chain.propositions chain.labels = .error error := by
    rw [h.chain_eq, UntilQuery.sets]
    change (Predicate.compile query.hold scenario.model.propositions >>= _) = _
    rw [hhold]
    rfl
  rw [MarkovChain.probability, MarkovChain.stateProbabilities, UntilQuery.resolve, hquery]
  dsimp only
  rw [hsets]
  rfl

end Tabulates

end Hazard
