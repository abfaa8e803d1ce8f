import Mathlib.Data.List.Forall2
import Hazard.Proofs.GeneratedChain
import Hazard.Proofs.TerminatedGraphs
/-!
# Chains that end early

A chain that ends early at a goal gives a bounded query for the goal the same probability as the
chain of the whole model. With what holds for graphs, early termination at a goal is safe for every
question about reaching it.
-/

namespace Hazard

open Traversal

section Terminated

variable {model : Model ℚ} {activations : List Activation} {condition hold : Predicate}
  {whole early : Array Bytes} {stream stream' : List (Origin × List (Transition ℚ))}
  {pairs pairs' : List (Nat × Label)} {chain chain' : MarkovChain ℚ}
  (hnever : model.NeverStutters)
  (hwhole : Tabulates ⟨model, activations, []⟩ whole stream pairs chain)
  (hearly : Tabulates ⟨model, activations, [terminateEarly condition]⟩ early stream' pairs' chain')

include hnever hwhole hearly

theorem counterparts_batchOf {origin other : Origin} {source : Option Bytes}
    (hsource : Scenario.Source whole origin source) (hother : Scenario.Source early other source) :
    List.Forall₂ (fun transition other =>
      ∃ state, Counterpart model condition whole early transition other state)
      (batchOf stream origin) (batchOf stream' other) :=
  counterparts hnever hsource hother (hwhole.batches origin hsource.index_lt)
    (hearly.batches other hother.index_lt)

/-- The goal is reached with the same probability from a state and from what stands for it. -/
theorem reachWithin_terminated (steps : Nat) {index other : Nat} {state : Bytes}
    (htarget : whole[index]? = some (regular :: state))
    (hother : early[other]? = some (standIn model condition state)) :
    reachWithin (batchOf stream) hold condition steps (index, model.label state) =
      reachWithin (batchOf stream') hold condition steps (other, model.label state) := by
  induction steps generalizing index other state with
  | zero => rfl
  | succ steps ih =>
      rw [reachWithin, reachWithin]
      dsimp only
      by_cases hgoal : condition.evaluate (model.label state) = true
      · rw [if_pos hgoal, if_pos hgoal]
      · rw [standIn, if_neg hgoal] at hother
        rw [if_neg hgoal, if_neg hgoal]
        have hmatch := counterparts_batchOf hnever hwhole hearly (.state htarget) (.state hother)
        rw [map_eq_of_forall₂ (hmatch.imp ?_)]
        rintro transition transition' ⟨after, hafter⟩
        rw [Transition.pair, Transition.pair, hafter.label, hafter.other_label, hafter.probability,
          ih hafter.target hafter.other_target]

theorem reachInitially_terminated (steps : Nat) :
    reachInitially (batchOf stream) hold condition steps =
      reachInitially (batchOf stream') hold condition steps := by
  have hmatch := counterparts_batchOf hnever hwhole hearly .initial .initial
  rw [reachInitially, reachInitially, map_eq_of_forall₂ (hmatch.imp ?_)]
  rintro transition transition' ⟨after, hafter⟩
  rw [Transition.pair, Transition.pair, hafter.label, hafter.other_label, hafter.probability,
    reachWithin_terminated hnever hwhole hearly steps hafter.target hafter.other_target]

theorem probability_terminated {query : UntilQuery} {formula : Formula} {steps : Nat}
    (hcompile : Predicate.compile query.goal model.propositions = .ok condition)
    (hquery : UntilQuery.ofFormula formula = .ok query) (hbound : query.bound = some steps)
    (config config' : CheckerConfig ℚ) :
    chain.probability config formula = chain'.probability config' formula := by
  cases hhold : Predicate.compile query.hold model.propositions with
  | error error =>
      rw [hwhole.probability_eq_error hquery hhold, hearly.probability_eq_error hquery hhold]
  | ok hold =>
      rw [hwhole.probability_eq hquery hbound hhold hcompile,
        hearly.probability_eq hquery hbound hhold hcompile,
        reachInitially_terminated hnever hwhole hearly]

end Terminated

/-! ## Early termination -/

theorem parts_of_terminate {α : Type} {model : Model α} {given : Option (List Activation)}
    {goal : Formula} {parts parts' : TraversalOptions α}
    (hparts : model.traversalOptions ⟨given, none⟩ = .ok parts)
    (hparts' : model.traversalOptions ⟨given, some goal⟩ = .ok parts') :
    parts = ⟨given, []⟩ ∧ ∃ condition, Predicate.compile goal model.propositions = .ok condition ∧
      parts' = ⟨given, [terminateEarly condition]⟩ := by
  refine ⟨(Except.ok.inj hparts).symm, ?_⟩
  obtain ⟨-, ⟨hnone, -⟩ | ⟨_, condition, ⟨⟩, hcompile, -⟩⟩ := modifiers_cases hparts'
  · cases hnone
  · exact ⟨condition, hcompile,
      Except.ok.inj (hparts'.symm.trans (traversalOptions_terminate hcompile))⟩

theorem exists_query {hold goal formula : Formula} {steps : Nat}
    (hbody : UntilQuery.body formula ∈
      [.eventually goal (some steps), .until hold goal (some steps)]) :
    ∃ query, UntilQuery.ofFormula formula = .ok query ∧ query.goal = goal ∧
      query.bound = some steps ∧ (query.hold = .const true ∨ query.hold = hold) := by
  rw [UntilQuery.ofFormula]
  rcases List.mem_pair.1 hbody with hbody | hbody
  · rw [hbody]
    exact ⟨_, rfl, rfl, rfl, .inl rfl⟩
  · rw [hbody]
    exact ⟨_, rfl, rfl, rfl, .inr rfl⟩

/-- If a model never stutters by itself, nothing that asks whether a goal is reached is changed by
early termination there: a checker answers the questions about the goal alike on both graphs, after
whatever calls, and bounded queries for it have the same probability on both chains. If all atoms
are known, there is an answer. -/
theorem Setup.terminateEarly_preserves (given : Option (List Activation)) (hold goal : Formula)
    (hhold : hold.isStateFormula = true) :
    (∀ (α : Type) [Scalar α] (model : Model α), model.NeverStutters →
      ∀ config config' graph graph',
        Setup.generateGraph (.ok model) config ⟨given, none⟩ = .ok graph →
        Setup.generateGraph (.ok model) config' ⟨given, some goal⟩ = .ok graph' →
        ∃ checker checker', CtlChecker.create graph = .ok checker ∧
          CtlChecker.create graph' = .ok checker' ∧
          ∀ query ∈ Formula.reachQueries hold goal, ∀ calls calls',
            ((checker.check query).run (checker.memoryAfter calls)).1 =
              ((checker'.check query).run (checker'.memoryAfter calls')).1 ∧
            ((∀ name ∈ hold.names, name ∈ model.propositions) →
              ∃ answer, ((checker.check query).run (checker.memoryAfter calls)).1 = .ok answer)) ∧
    ∀ model : Model ℚ, model.NeverStutters →
      ∀ config config' chain chain',
        Setup.generateMarkovChain (.ok model) config ⟨given, none⟩ = .ok chain →
        Setup.generateMarkovChain (.ok model) config' ⟨given, some goal⟩ = .ok chain' →
        ∀ formula steps, UntilQuery.body formula ∈
            [.eventually goal (some steps), .until hold goal (some steps)] →
          ∀ settings settings',
            chain.probability settings formula = chain'.probability settings' formula ∧
            ((∀ name ∈ hold.names, name ∈ model.propositions) →
              ∃ value, chain.probability settings formula = .ok value) := by
  constructor
  · intro α _ model hnever config config' graph graph' hgraph hgraph'
    obtain ⟨parts, activations, whole, checker, hparts, hactivations, hwhole⟩ :=
      exists_displays hgraph
    obtain ⟨parts', activations', early, checker', hparts', hactivations', hearly⟩ :=
      exists_displays hgraph'
    obtain ⟨rfl, condition, hcompile, rfl⟩ := parts_of_terminate hparts hparts'
    cases hactivations.symm.trans hactivations'
    refine ⟨checker, checker', hwhole.created, hearly.created, ?_⟩
    intro query hquery calls calls'
    exact ⟨check_terminated hnever hcompile hwhole hearly hhold hquery calls calls',
      fun hknown => exists_answer_whole hcompile hwhole ⟨hhold, hknown⟩ hquery calls⟩
  · intro model hnever config config' chain chain' hchain hchain' formula steps hbody settings
      settings'
    obtain ⟨parts, activations, whole, stream, pairs, hparts, hactivations, hwhole⟩ :=
      exists_tabulates hchain
    obtain ⟨parts', activations', early, stream', pairs', hparts', hactivations', hearly⟩ :=
      exists_tabulates hchain'
    obtain ⟨rfl, condition, hcompile, rfl⟩ := parts_of_terminate hparts hparts'
    cases hactivations.symm.trans hactivations'
    obtain ⟨query, hquery, rfl, hbound, hthrough⟩ := exists_query hbody
    refine ⟨probability_terminated hnever hwhole hearly hcompile hquery hbound settings settings',
      fun hknown => ?_⟩
    have hover : query.hold.StateOver model.propositions := by
      rcases hthrough with htrue | hsame
      · rw [htrue]
        exact ⟨rfl, fun name hname => by cases hname⟩
      · rw [hsame]
        exact ⟨hhold, hknown⟩
    obtain ⟨test, htest⟩ := Predicate.compile_succeeds hover
    exact ⟨_, hwhole.probability_eq hquery hbound htest hcompile settings⟩

/-- A walk from the yard to the front door, or around the house to the back door. -/
def walkHome : Model Rat where
  stateSize := 1
  propositions := ["inside", "dry"]
  faults := []
  start := [0]
  holds state position :=
    if position = 0 then state == [1] || state == [3] else state == [0] || state == [1]
  initial _ := .ok [{ target := [0], probability := 1 }]
  step _ state := .ok (
    if state = [0] then
      [{ target := [1], probability := 1 / 2 }, { target := [2], probability := 1 / 2 }]
    else if state = [2] then
      [{ target := [3], probability := 1 / 2 }, { target := [0], probability := 1 / 2 }]
    else [{ target := state, probability := 1 }])
  refuse _ := none

theorem neverStutters_walkHome : walkHome.NeverStutters := by
  intro activations source proposed hproposed candidate hcandidate
  cases source with
  | none =>
      cases hproposed
      rw [List.mem_singleton.1 hcandidate]
  | some state =>
      cases hproposed
      split at hcandidate
      · rcases List.mem_pair.1 hcandidate with rfl | rfl <;> rfl
      · split at hcandidate
        · rcases List.mem_pair.1 hcandidate with rfl | rfl <;> rfl
        · rw [List.mem_singleton.1 hcandidate]

/-- With both doors in one, the walk can still be seen to end inside, and to do so dry within two
steps with probability one half. -/
theorem Setup.terminateEarly_preserves_walkHome :
    ∃ graph graph' checker checker' chain chain',
      Setup.generateGraph (.ok walkHome) { stateCapacity := 8 } {} = .ok graph ∧
      Setup.generateGraph (.ok walkHome) { stateCapacity := 8 }
        { terminateEarly := some (.atom "inside") } = .ok graph' ∧
      graph.stateCount = 4 ∧ graph'.stateCount = 3 ∧
      CtlChecker.create graph = .ok checker ∧ CtlChecker.create graph' = .ok checker' ∧
      ((checker.check (.everyPath (.eventually (.atom "inside") none))).run []).1 =
        ((checker'.check (.everyPath (.eventually (.atom "inside") none))).run []).1 ∧
      Setup.generateMarkovChain (.ok walkHome) { stateCapacity := 8 } {} = .ok chain ∧
      Setup.generateMarkovChain (.ok walkHome) { stateCapacity := 8 }
        { terminateEarly := some (.atom "inside") } = .ok chain' ∧
      chain.probability .standard (.until (.atom "dry") (.atom "inside") (some 2)) =
        .ok (1 / 2) := by
  have hgraphs :
      (Setup.generateGraph (.ok walkHome) { stateCapacity := 8 } {}).toOption.map
        (·.stateCount) = some 4 ∧
      (Setup.generateGraph (.ok walkHome) { stateCapacity := 8 }
        { terminateEarly := some (.atom "inside") }).toOption.map (·.stateCount) = some 3 := by
    decide +kernel
  have hchains :
      (Setup.generateMarkovChain (.ok walkHome) { stateCapacity := 8 } {}).toOption.isSome =
        true ∧
      (Setup.generateMarkovChain (.ok walkHome) { stateCapacity := 8 }
        { terminateEarly := some (.atom "inside") }).toOption.bind (fun chain =>
          (chain.probability .standard
            (.until (.atom "dry") (.atom "inside") (some 2))).toOption) = some (1 / 2) := by
    decide +kernel
  obtain ⟨graph, hgraph, hcount⟩ := Option.map_eq_some_iff.1 hgraphs.1
  obtain ⟨graph', hgraph', hcount'⟩ := Option.map_eq_some_iff.1 hgraphs.2
  obtain ⟨chain, hchain⟩ := Option.isSome_iff_exists.1 hchains.1
  obtain ⟨chain', hchain', hvalue⟩ := Option.bind_eq_some_iff.1 hchains.2
  rw [toOption_eq_some] at hgraph hgraph' hchain hchain' hvalue
  obtain ⟨hgraphs, hchains⟩ := terminateEarly_preserves none (.atom "dry") (.atom "inside") rfl
  obtain ⟨checker, checker', hcreate, hcreate', hsame⟩ := hgraphs Rat walkHome
    neverStutters_walkHome { stateCapacity := 8 } { stateCapacity := 8 } graph graph' hgraph hgraph'
  obtain ⟨hprobability, -⟩ := hchains walkHome neverStutters_walkHome { stateCapacity := 8 }
    { stateCapacity := 8 } chain chain' hchain hchain'
    (.until (.atom "dry") (.atom "inside") (some 2)) 2 (by simp [UntilQuery.body]) .standard
    .standard
  exact ⟨graph, graph', checker, checker', chain, chain', hgraph, hgraph', hcount, hcount', hcreate,
    hcreate', (hsame (.everyPath (.eventually (.atom "inside") none))
      (by simp [Formula.reachQueries]) [] []).1, hchain, hchain', hprobability.trans hvalue⟩

end Hazard
