import Hazard.Proofs.GeneratedGraph
import Hazard.Proofs.InvariantSearch
import Hazard.Proofs.StateFormulas
/-!
# Two ways to check an invariant

An invariant can be checked while a model is explored, or on the finished graph as the formula
"always, on every path". Where the graph can be built, both ways come to an answer, and both answer
whether every run of the model keeps the invariant.
-/

namespace Hazard

open Relation Traversal

variable {α : Type} {model : Model α} {activations : List Activation}

/-! ## Runs and paths -/

namespace Model

theorem Run.reachable (hnever : model.NeverStutters) {states : List Bytes} {last : Bytes}
    (hrun : model.Run activations states last) :
    (⟨model, activations, []⟩ : Scenario α).Reachable (regular :: last) := by
  induction hrun with
  | start hstart => exact .initial ((yields_iff hnever).2 ⟨_, rfl, hstart⟩)
  | step _ hstep ih => exact .step ih ((yields_iff hnever).2 ⟨_, rfl, hstep⟩)

theorem exists_run (hnever : model.NeverStutters) {vector : Bytes}
    (hvector : (⟨model, activations, []⟩ : Scenario α).Reachable vector) :
    ∃ states last, vector = regular :: last ∧ model.Run activations states last := by
  induction hvector with
  | initial hyields =>
      obtain ⟨state, rfl, hleads⟩ := (yields_iff hnever).1 hyields
      exact ⟨_, state, rfl, .start hleads⟩
  | step _ hyields ih =>
      obtain ⟨states, before, hbefore, hrun⟩ := ih
      obtain ⟨state, rfl, hleads⟩ := (yields_iff hnever).1 hyields
      cases hbefore
      exact ⟨_, state, rfl, .step hrun hleads⟩

theorem neverRefuses_violationObserver (predicate : Predicate) :
    (violationObserver predicate : Observer α (Option Nat)).NeverRefuses := by
  intro violation origin batch
  unfold violationObserver
  dsimp only
  cases batch.find? fun transition => !predicate.evaluate transition.label with
  | some transition => exact ⟨_, _, rfl⟩
  | none => exact ⟨_, _, rfl⟩

end Model

variable [Scalar α] {vectors : Array Bytes} {graph : StateGraph} {checker : CtlChecker}
  {invariant : Formula} {predicate : Predicate}

section Paths

variable (hnever : model.NeverStutters)
  (hdepicts : Depicts (⟨model, activations, []⟩ : Scenario α) vectors graph)
  (hcreate : CtlChecker.create graph = .ok checker)

include hnever hdepicts

theorem Depicts.label_eq {edge : Edge} (hedge : edge ∈ CtlChecker.allEdges graph) :
    ∃ state, vectors[edge.target]? = some (regular :: state) ∧ edge.label = model.label state := by
  have hregular : ∀ vector ∈ vectors, ∃ state, vector = regular :: state := by
    intro vector hvector
    obtain ⟨_, state, hstate, -⟩ := Model.exists_run hnever ((hdepicts.mem_iff vector).1 hvector)
    exact ⟨state, hstate⟩
  obtain ⟨origin, horigin, hedge⟩ := CtlChecker.mem_allEdges.1 hedge
  rw [hdepicts.stateCount_eq] at horigin
  obtain ⟨batch, hbatch, hedges⟩ := hdepicts.edges origin horigin
  rw [hedges] at hedge
  obtain ⟨transition, htransition, rfl⟩ := List.mem_map.1 hedge
  exact exists_labelled hnever hregular hbatch htransition

include hcreate

/-- At the end of a path, the checker has the label of the state that is stored there. -/
theorem Depicts.labelOf_eq {first : Edge} {last : Nat} (hfirst : first ∈ graph.initial)
    (hpath : ReflTransGen (graph.system checker.labelOf).next first.target last) :
    ∃ state, vectors[last]? = some (regular :: state) ∧
      checker.labelOf last = model.label state := by
  obtain ⟨edge, hedge, rfl⟩ := CtlChecker.exists_edge_to hfirst hpath
  obtain ⟨state, hstate, -⟩ := hdepicts.label_eq hnever hedge
  refine ⟨state, hstate, ?_⟩
  rw [CtlChecker.labelOf_eq hcreate]
  apply CtlChecker.firstLabel_eq ⟨edge, hedge, rfl⟩
  intro other hother htarget
  obtain ⟨state', hstate', hlabel⟩ := hdepicts.label_eq hnever hother
  rw [htarget, hstate] at hstate'
  cases hstate'
  exact hlabel

variable (hlimit : model.propositions.length ≤ IndexSet.limit)
  (hcompile : Predicate.compile invariant model.propositions = .ok predicate)

include hlimit hcompile

theorem Depicts.holdsAt_iff {first : Edge} {last : Nat} {state : Bytes}
    (hfirst : first ∈ graph.initial)
    (hpath : ReflTransGen (graph.system checker.labelOf).next first.target last)
    (hstate : vectors[last]? = some (regular :: state)) :
    invariant.HoldsAt (graph.system checker.labelOf) last ↔
      invariant.HoldsAt (model.system activations) state := by
  obtain ⟨other, hother, hlabel⟩ := hdepicts.labelOf_eq hnever hcreate hfirst hpath
  rw [hstate] at hother
  cases hother
  rw [hdepicts.holdsAt_iff_evaluate hcompile, hlabel,
    Predicate.evaluate_iff hcompile (Model.describes_label hlimit state)]

theorem Depicts.always_iff :
    (∀ edge ∈ graph.initial, ∀ last,
        ReflTransGen (graph.system checker.labelOf).next edge.target last →
          invariant.HoldsAt (graph.system checker.labelOf) last) ↔
      ∀ states last, model.Run activations states last →
        invariant.HoldsAt (model.system activations) last := by
  constructor
  · intro halways states last hrun
    obtain ⟨edge, hedge, index, hpath, hindex⟩ :=
      hdepicts.exists_path checker.labelOf (hrun.reachable hnever)
    rw [← hdepicts.holdsAt_iff hnever hcreate hlimit hcompile hedge hpath hindex]
    exact halways edge hedge index hpath
  · intro hruns edge hedge index hpath
    obtain ⟨state, hindex, -⟩ := hdepicts.labelOf_eq hnever hcreate hedge hpath
    rw [hdepicts.holdsAt_iff hnever hcreate hlimit hcompile hedge hpath hindex]
    obtain ⟨states, last, hlast, hrun⟩ :=
      Model.exists_run hnever ((hdepicts.mem_iff _).1 (Array.mem_of_getElem? hindex))
    cases hlast
    exact hruns states state hrun

end Paths

/-! ## Both checks -/

namespace Model

variable {config : TraversalConfig} {given : Option (List Activation)}

/-- A search that comes to its end is an answer, and the answer is whether all runs keep the
invariant. -/
theorem checkInvariant_of_search (hnever : model.NeverStutters)
    (hcompile : Predicate.compile invariant model.propositions = .ok predicate)
    {space : StateSpace} {violation : Option Nat}
    (hsearch : traverse model config { activations := given } (violationObserver predicate) none =
      .ok (space, violation)) :
    ∃ result activations, model.checkInvariant config invariant given = .ok result ∧
      model.activateAll (given.getD []) = .ok activations ∧
      (result.holds = true ↔ ∀ states last, model.Run activations states last →
        invariant.HoldsAt (model.system activations) last) := by
  obtain ⟨activations, hactivations, hend⟩ := exists_searched hnever hcompile hsearch
  have hresult : ∃ result, model.checkInvariant config invariant given = .ok result ∧
      result.holds = violation.isNone := by
    rw [checkInvariant, hcompile]
    refine ⟨_, bind_eq_ok.2 ⟨_, hsearch, rfl⟩, ?_⟩
    cases violation <;> rfl
  obtain ⟨result, hok, hholds⟩ := hresult
  refine ⟨result, activations, hok, hactivations, ?_⟩
  rw [hholds]
  rcases hend with ⟨rfl, hruns⟩ | ⟨index, rfl, ⟨last, hlast, hviolates⟩, -⟩
  · exact ⟨fun _ => hruns, fun _ => rfl⟩
  · refine ⟨fun hnone => ?_, fun hruns => absurd (hruns _ last hlast) hviolates⟩
    cases hnone

/-- Where the state graph can be built, checking an invariant on the way and checking on the graph
that it always holds on every path both come to an answer, and to the same one. -/
theorem checkInvariant_agrees (model : Model α) (config : TraversalConfig)
    (given : Option (List Activation)) (invariant : Formula) (graph : StateGraph)
    (hnever : model.NeverStutters) (hstate : invariant.isStateFormula = true)
    (hnames : ∀ name ∈ invariant.names, name ∈ model.propositions)
    (hgraph : Setup.generateGraph (.ok model) config { activations := given } = .ok graph) :
    ∃ result checker, model.checkInvariant config invariant given = .ok result ∧
      CtlChecker.create graph = .ok checker ∧
      ((checker.check (.everyPath (.always invariant))).run []).1 = .ok result.holds := by
  obtain ⟨_, _, space, final, ⟨⟩, -, htraverse, -⟩ := Setup.generateGraph_eq_ok hgraph
  obtain ⟨-, -, -, -, -, hlimit, -⟩ := traverse_eq_ok htraverse
  obtain ⟨predicate, hcompile⟩ := Predicate.compile_succeeds ⟨hstate, hnames⟩
  obtain ⟨_, _, hsearch⟩ := traverse_succeeds GraphBuilder.neverStops
    (neverRefuses_violationObserver predicate) htraverse none
  obtain ⟨result, activations, hresult, hactivations, hholds⟩ :=
    checkInvariant_of_search hnever hcompile hsearch
  obtain ⟨_, others, vectors, ⟨⟩, hothers, hdepicts⟩ := exists_depicts hgraph
  cases hactivations.symm.trans hothers
  obtain ⟨checker, hcreate, hreads⟩ := CtlChecker.create_succeeds hdepicts.inRange
  have hknown : invariant.StateOver graph.propositions := by
    rw [hdepicts.propositions_eq]
    exact ⟨hstate, hnames⟩
  obtain ⟨answer, hanswer, halways⟩ := hreads.check_always hknown
  have hsame : answer = result.holds := by
    rw [Bool.eq_iff_iff, halways, hholds]
    exact hdepicts.always_iff hnever hcreate hlimit hcompile
  exact ⟨result, checker, hresult, hcreate, hsame ▸ hanswer⟩

theorem checkInvariant_agrees_strides :
    ∃ graph result checker,
      Setup.generateGraph (.ok strides) { stateCapacity := 8 } {} = .ok graph ∧
      strides.checkInvariant { stateCapacity := 8 } (.not (.atom "there")) none = .ok result ∧
      CtlChecker.create graph = .ok checker ∧ result.holds = false ∧
      ((checker.check (.everyPath (.always (.not (.atom "there"))))).run []).1 = .ok false := by
  have hbuilt : (Setup.generateGraph (.ok strides) { stateCapacity := 8 } {}).toOption.isSome =
      true := by
    decide +kernel
  have hfails : (strides.checkInvariant { stateCapacity := 8 } (.not (.atom "there"))
      none).toOption.map (·.holds) = some false := by
    decide +kernel
  cases hgraph : Setup.generateGraph (.ok strides) { stateCapacity := 8 } {} with
  | error error =>
      rw [hgraph] at hbuilt
      cases hbuilt
  | ok graph =>
      obtain ⟨result, checker, hresult, hcreate, hagrees⟩ :=
        checkInvariant_agrees strides { stateCapacity := 8 } none (.not (.atom "there")) graph
          neverStutters_strides rfl (by decide) hgraph
      rw [hresult] at hfails
      have hholds : result.holds = false := Option.some.inj hfails
      rw [hholds] at hagrees
      exact ⟨graph, result, checker, rfl, hresult, hcreate, hholds, hagrees⟩

end Model

end Hazard
