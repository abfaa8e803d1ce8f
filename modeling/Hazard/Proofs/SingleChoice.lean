import Hazard.Proofs.ChainIteration
/-!
# Processes that leave no choice

In a process that leaves no choice, to hope for the best and to expect the worst come to the same.
The two searches that the checker of processes makes then find what the plain backward search of a
chain finds, and bounded queries have one answer.
-/

namespace Hazard

namespace MarkovChain

variable {chain : MarkovChain ℚ} {sets : UntilSets}

/-- Both objectives approach the same probabilities, and what tends to 1 is found by either. -/
theorem Stochastic.surely_maximize (hchain : chain.Stochastic)
    (hsets : sets.Separate chain.stateCount) :
    chain.asProcess.surely .maximize sets = chain.asProcess.surely .minimize sets := by
  have hprocess := hchain.process
  apply (hprocess.fits_surely hsets .maximize).ext (hprocess.fits_surely hsets .minimize)
  intro state
  rw [Bool.eq_iff_iff]
  constructor
  · intro hstate
    have hone := hprocess.supremum_surely hsets hstate
    rw [supremum_asProcess, ← supremum_asProcess .minimize] at hone
    exact (hprocess.surely_minimize_iff hsets).2
      ⟨(hprocess.fits_surely hsets .maximize).lt_of_contains hstate, hone⟩
  · exact hprocess.surely_maximize_of_minimize hsets

theorem pick_single (objective : Objective) (value : ℚ) : objective.pick [value] = value := by
  cases objective with
  | minimize => rfl
  | maximize => rfl

theorem bound_of_resolve {formula : Formula} {query : UntilQuery} {propositions : List String}
    {labels : Array Label} (hquery : UntilQuery.ofFormula formula = .ok query)
    (hsets : UntilQuery.resolve formula propositions labels = .ok sets) :
    sets.bound = query.bound := by
  rw [UntilQuery.resolve, hquery] at hsets
  dsimp only at hsets
  split at hsets
  · cases hsets
  · next hresult =>
    cases hsets
    obtain ⟨hold, -, hrest⟩ := bind_eq_ok.1 hresult
    obtain ⟨goal, -, hrest⟩ := bind_eq_ok.1 hrest
    cases hrest
    rfl

theorem extremal_asProcess {formula : Formula} {query : UntilQuery} {steps : Nat}
    (hquery : UntilQuery.ofFormula formula = .ok query) (hbound : query.bound = some steps)
    (config : CheckerConfig ℚ) (objective : Objective) :
    chain.asProcess.extremal config objective formula = chain.probability config formula := by
  have hpropositions : chain.asProcess.propositions = chain.propositions := rfl
  have hlabels : chain.asProcess.labels = chain.labels := rfl
  have hinitial : chain.asProcess.initial = [chain.initial] := rfl
  rw [DecisionProcess.extremal, probability, stateProbabilities, hpropositions, hlabels]
  cases hsets : UntilQuery.resolve formula chain.propositions chain.labels with
  | error error => rfl
  | ok sets =>
      have hsteps := (bound_of_resolve hquery hsets).trans hbound
      simp only [bind, pure, Except.bind, Except.pure, Except.map, hsteps, hinitial, List.map_cons,
        List.map_nil, pick_single, bounded_asProcess]

/-- A chain and the process with its rows as only choices are checked alike. Both searches of the
process find the states that never reach the goal, and both the states that surely do; and a bounded
query has the same answer on the chain as under the best and the worst choices. -/
theorem asProcess_checks_alike (chain : MarkovChain ℚ) (hchain : chain.Stochastic)
    (formula : Formula) (query : UntilQuery) (hquery : UntilQuery.ofFormula formula = .ok query) :
    (∀ sets, query.sets chain.propositions chain.labels = .ok sets →
      chain.asProcess.neverStates sets.goal sets.excluded =
          chain.neverStates sets.goal sets.excluded ∧
        chain.asProcess.avoidableStates sets.goal sets.excluded =
          chain.neverStates sets.goal sets.excluded ∧
        chain.asProcess.attainableStates sets.goal sets.excluded =
          chain.surelyStates sets.goal sets.excluded ∧
        (chain.asProcess.extremes .minimize sets.goal sets.excluded).2 =
          chain.surelyStates sets.goal sets.excluded) ∧
      ∀ config steps, query.bound = some steps →
        chain.asProcess.extremal config .minimize formula = chain.probability config formula ∧
        chain.asProcess.extremal config .maximize formula =
          chain.probability config formula := by
  constructor
  · intro sets hsets
    have hseparate : sets.Separate chain.stateCount := UntilQuery.separate_of_sets hsets
    have hnever := hchain.never_minimize hseparate
    have hsurely := hchain.surely_maximize hseparate
    rw [hchain.neverStates_eq, hchain.surelyStates_eq hseparate]
    exact ⟨rfl, hnever, hsurely, rfl⟩
  · intro config steps hbound
    exact ⟨extremal_asProcess hquery hbound config .minimize,
      extremal_asProcess hquery hbound config .maximize⟩

/-- The relay delivers within two steps in one case out of four, and never after giving up. -/
theorem asProcess_checks_alike_relay :
    relay.Stochastic ∧
      UntilQuery.ofFormula (.eventually (.atom "there") (some 2)) =
        .ok ⟨.const true, .atom "there", some 2⟩ ∧
      (UntilQuery.mk (.const true) (.atom "there") (some 2)).sets relay.propositions relay.labels =
        .ok ⟨delivery.goal, delivery.excluded, some 2⟩ ∧
      (relay.asProcess.avoidableStates delivery.goal delivery.excluded).toList = [2] ∧
      (relay.asProcess.attainableStates delivery.goal delivery.excluded).toList = [3] ∧
      relay.asProcess.extremal ⟨0, 0⟩ .minimize (.eventually (.atom "there") (some 2)) =
        .ok (1 / 4) ∧
      relay.asProcess.extremal ⟨0, 0⟩ .maximize (.eventually (.atom "there") (some 2)) =
        .ok (1 / 4) := by
  have hsets : (UntilQuery.mk (.const true) (.atom "there") (some 2)).sets relay.propositions
      relay.labels = .ok ⟨delivery.goal, delivery.excluded, some 2⟩ := by decide +kernel
  have hnever : (relay.neverStates delivery.goal delivery.excluded).toList = [2] := by
    decide +kernel
  have hsurely : (relay.surelyStates delivery.goal delivery.excluded).toList = [3] := by
    decide +kernel
  have hprobability : relay.probability ⟨0, 0⟩ (.eventually (.atom "there") (some 2)) =
      .ok (1 / 4) := by
    decide +kernel
  obtain ⟨hclasses, hbounded⟩ := asProcess_checks_alike relay stochastic_relay
    (.eventually (.atom "there") (some 2)) ⟨.const true, .atom "there", some 2⟩ rfl
  obtain ⟨-, havoidable, hattainable, -⟩ := hclasses _ hsets
  obtain ⟨hleast, hgreatest⟩ := hbounded ⟨0, 0⟩ 2 rfl
  refine ⟨stochastic_relay, rfl, hsets, ?_, ?_, ?_, ?_⟩
  · exact (congrArg StateSet.toList havoidable).trans hnever
  · exact (congrArg StateSet.toList hattainable).trans hsurely
  · exact hleast.trans hprobability
  · exact hgreatest.trans hprobability

end MarkovChain

end Hazard
