import Hazard.Generate
import Hazard.Proofs.Discovery
import Hazard.Proofs.GraphBuilding
import Hazard.Proofs.Observers
import Hazard.Proofs.StateFormulas
import Hazard.Proofs.StateLabels
/-!
# The graph of a model

The states of a generated graph stand for the vectors that can be reached, and the edges of a state
are the transitions that the exploration reports for it. Whatever can be reached is reached over
edges of the graph.
-/

namespace Hazard

open Relation

def StateGraph.edgesFrom (graph : StateGraph) : Origin → List Edge
  | none => graph.initial
  | some state => graph.outgoing state

variable {α : Type}

theorem GraphBuilder.neverStops : (GraphBuilder.observer (α := α)).NeverStops := by
  intro builder origin batch next verdict hshown
  cases origin with
  | none =>
      cases hshown
      rfl
  | some source => exact (append_eq_ok hshown).1

theorem Setup.orMisuse_eq_ok {β : Type} {result : Except Misuse β} {value : β} :
    (orMisuse result : Except (TraversalError α) β) = .ok value ↔ result = .ok value := by
  cases result with
  | error misuse => exact ⟨nofun, nofun⟩
  | ok other => simp [orMisuse]

variable [Scalar α] {scenario : Scenario α} {vectors : Array Bytes} {graph : StateGraph}
  {checker : CtlChecker} {origin : Origin} {edge : Edge}

/-- The graph shows what can be reached: its states are the vectors, its edges the transitions. -/
structure Depicts (scenario : Scenario α) (vectors : Array Bytes) (graph : StateGraph) : Prop where
  mem_iff : ∀ vector, vector ∈ vectors ↔ scenario.Reachable vector
  stateCount_eq : graph.stateCount = vectors.size
  propositions_eq : graph.propositions = scenario.model.propositions
  edges : ∀ origin : Origin, (∀ index ∈ origin, index < vectors.size) →
    ∃ batch, scenario.IsBatch vectors origin batch ∧
      graph.edgesFrom origin = batch.map Transition.edge

theorem CtlChecker.mem_allEdges :
    edge ∈ allEdges graph ↔
      ∃ origin : Origin, (∀ index ∈ origin, index < graph.stateCount) ∧
        edge ∈ graph.edgesFrom origin := by
  rw [allEdges, List.mem_append, List.mem_flatMap]
  constructor
  · rintro (hinitial | ⟨state, hstate, hedge⟩)
    · exact ⟨none, by simp, hinitial⟩
    · exact ⟨some state, by simpa using hstate, hedge⟩
  · rintro ⟨origin, horigin, hedge⟩
    cases origin with
    | none => exact .inl hedge
    | some state => exact .inr ⟨state, by simpa using horigin, hedge⟩

theorem CtlChecker.exists_edge_to {labelOf : Nat → Label} {first : Edge} {last : Nat}
    (hfirst : first ∈ graph.initial)
    (hpath : ReflTransGen (graph.system labelOf).next first.target last) :
    ∃ edge ∈ allEdges graph, edge.target = last := by
  rcases ReflTransGen.cases_tail hpath with rfl | ⟨before, -, hnext⟩
  · exact ⟨first, mem_allEdges.2 ⟨none, by simp, hfirst⟩, rfl⟩
  · have hbefore := StateGraph.lt_of_successor hnext
    obtain ⟨edge, hedge, htarget⟩ := List.mem_map.1 hnext
    exact ⟨edge, mem_allEdges.2 ⟨some before, by simpa using hbefore, hedge⟩, htarget⟩

theorem Scenario.IsBatch.target_lt {batch : List (Transition α)} {transition : Transition α}
    (hbatch : scenario.IsBatch vectors origin batch) (htransition : transition ∈ batch) :
    transition.target < vectors.size := by
  cases hbatch with
  | offered _ _ hreports =>
      obtain ⟨candidate, -, hreport⟩ := Scenario.exists_related hreports.flip htransition
      exact (Array.getElem?_eq_some_iff.1 hreport.target).1
  | stuttering hindex =>
      rw [List.mem_singleton.1 htransition]
      exact (Array.getElem?_eq_some_iff.1 hindex).1

namespace Depicts

theorem target_lt (h : Depicts scenario vectors graph) (origin : Origin)
    (horigin : ∀ index ∈ origin, index < vectors.size) (hedge : edge ∈ graph.edgesFrom origin) :
    edge.target < vectors.size := by
  obtain ⟨batch, hbatch, hedges⟩ := h.edges origin horigin
  rw [hedges] at hedge
  obtain ⟨transition, htransition, rfl⟩ := List.mem_map.1 hedge
  exact hbatch.target_lt htransition

theorem inRange (h : Depicts scenario vectors graph) : graph.InRange where
  initial_lt edge hedge := by
    rw [h.stateCount_eq]
    exact h.target_lt none (by simp) hedge
  successor_lt state target htarget := by
    have hstate := StateGraph.lt_of_successor htarget
    obtain ⟨edge, hedge, rfl⟩ := List.mem_map.1 htarget
    rw [h.stateCount_eq] at hstate ⊢
    exact h.target_lt (some state) (by simpa using hstate) hedge

theorem exists_edge (h : Depicts scenario vectors graph) {source : Option Bytes} {vector : Bytes}
    (hsource : Scenario.Source vectors origin source) (hyields : scenario.Yields source vector) :
    ∃ edge ∈ graph.edgesFrom origin, vectors[edge.target]? = some vector := by
  have horigin : ∀ index ∈ origin, index < vectors.size := by
    cases hsource with
    | initial => simp
    | state hindex => simpa using (Array.getElem?_eq_some_iff.1 hindex).1
  obtain ⟨batch, hbatch, hedges⟩ := h.edges origin horigin
  obtain ⟨transition, htransition, htarget⟩ := hbatch.exists_transition hsource hyields
  rw [hedges]
  exact ⟨transition.edge, List.mem_map_of_mem htransition, htarget⟩

theorem exists_path (h : Depicts scenario vectors graph) (labelOf : Nat → Label) {vector : Bytes}
    (hvector : scenario.Reachable vector) :
    ∃ edge ∈ graph.initial, ∃ last, ReflTransGen (graph.system labelOf).next edge.target last ∧
      vectors[last]? = some vector := by
  induction hvector with
  | initial hyields =>
      obtain ⟨edge, hedge, htarget⟩ := h.exists_edge .initial hyields
      exact ⟨edge, hedge, edge.target, .refl, htarget⟩
  | step _ hyields ih =>
      obtain ⟨first, hfirst, before, hpath, hbefore⟩ := ih
      obtain ⟨edge, hedge, htarget⟩ := h.exists_edge (.state hbefore) hyields
      exact ⟨first, hfirst, edge.target, hpath.tail (List.mem_map_of_mem hedge), htarget⟩

theorem holdsAt_iff_evaluate (h : Depicts scenario vectors graph) {formula : Formula}
    {predicate : Predicate}
    (hcompile : Predicate.compile formula scenario.model.propositions = .ok predicate)
    (labelOf : Nat → Label) (state : Nat) :
    formula.HoldsAt (graph.system labelOf) state ↔ predicate.evaluate (labelOf state) = true := by
  have hdescribes := graph.describes_system labelOf state
  rw [h.propositions_eq] at hdescribes
  exact (Predicate.evaluate_iff hcompile hdescribes).symm

end Depicts

/-! ## Generation -/

namespace Setup

variable {model : Model α} {config : TraversalConfig} {options : GenerateOptions}

theorem generateGraph_eq_ok (h : generateGraph (.ok model) config options = .ok graph) :
    ∃ parts start space final, model.traversalOptions options = .ok parts ∧
      GraphBuilder.create config.stateCapacity config.transitionCapacity = .ok start ∧
      traverse model config parts GraphBuilder.observer start = .ok (space, final) ∧
      final.finish space.stateCount space.propositions = .ok graph := by
  obtain ⟨start, hstart, h⟩ := bind_eq_ok.1 h
  obtain ⟨_, ⟨⟩, h⟩ := bind_eq_ok.1 h
  obtain ⟨parts, hparts, h⟩ := bind_eq_ok.1 h
  obtain ⟨⟨space, final⟩, htraverse, hfinish⟩ := bind_eq_ok.1 h
  exact ⟨parts, start, space, final, hparts, orMisuse_eq_ok.1 hstart, htraverse,
    orMisuse_eq_ok.1 hfinish⟩

end Setup

theorem depicts_of_explored {plan : Plan α GraphBuilder} {start : GraphBuilder} {steps : Nat}
    {stream : List (Origin × List (Transition α))} {done : Exploration GraphBuilder}
    (hexplored : Traversal.Explored plan start steps stream done) (hall : steps = done.storage.size)
    (hrecorded : done.agenda.watcher.Recorded stream)
    (hfinish : done.agenda.watcher.finish steps plan.model.propositions = .ok graph) :
    Depicts plan.scenario done.storage.vectors graph := by
  obtain ⟨hstates, hpropositions, hinitial, houtgoing⟩ := hrecorded.finish hfinish
  have hsize := hexplored.sound.size_eq
  constructor
  · exact fun vector => ⟨hexplored.reachable vector, hexplored.mem_of_reachable hall⟩
  · rw [hstates, hall, hsize]
  · exact hpropositions
  · intro origin horigin
    rw [← hsize, ← hall] at horigin
    have hknown := hexplored.origin_mem horigin
    -- the builder keeps all initial edges, but of a state only the last batch; here each has one
    cases origin with
    | none =>
        have honce : (stream.map (·.1)).count none = 1 := by
          rw [hexplored.origins, List.count_cons_self, List.count_eq_zero.2 (by simp)]
        refine ⟨batchOf stream none, hexplored.batches _ (mem_stream_of_mem_map hknown), ?_⟩
        rw [StateGraph.edgesFrom, hinitial, reported_eq_batchOf honce]
    | some state =>
        exact ⟨lastBatch stream (some state), hexplored.batches _ (lastBatch_mem hknown),
          houtgoing state (horigin state rfl)⟩

theorem exists_discovered {model : Model α} {config : TraversalConfig} {options : GenerateOptions}
    (h : Setup.generateGraph (.ok model) config options = .ok graph) :
    ∃ parts activations vectors done parents, model.traversalOptions options = .ok parts ∧
      model.activateAll (parts.activations.getD []) = .ok activations ∧
      Depicts ⟨model, activations, parts.modifiers⟩ vectors graph ∧ vectors.toList.Nodup ∧
      Traversal.Discovered ⟨model, activations, parts.modifiers⟩ done vectors parents := by
  obtain ⟨parts, start, space, final, hparts, hcreate, htraverse, hfinish⟩ :=
    Setup.generateGraph_eq_ok h
  have hgoes := Traversal.traverse_goes GraphBuilder.neverStops htraverse
  obtain ⟨found, number, hfound, hdiscovered⟩ := Traversal.discovered_of_traverse htraverse
  obtain ⟨activations, last, stream, hactivations, hexplored, rfl, rfl, hrunning⟩ :=
    Traversal.exists_explored htraverse hgoes
  cases hactivations.symm.trans hfound
  have hrecorded := (GraphBuilder.recorded_create hcreate).passes (hexplored.passes hrunning)
  exact ⟨parts, found, _, number, _, hparts, hfound,
    depicts_of_explored hexplored rfl hrecorded hfinish, hexplored.sound.nodup, hdiscovered⟩

theorem exists_depicts {model : Model α} {config : TraversalConfig} {options : GenerateOptions}
    (h : Setup.generateGraph (.ok model) config options = .ok graph) :
    ∃ parts activations vectors, model.traversalOptions options = .ok parts ∧
      model.activateAll (parts.activations.getD []) = .ok activations ∧
      Depicts ⟨model, activations, parts.modifiers⟩ vectors graph := by
  obtain ⟨parts, activations, vectors, -, -, hparts, hactivations, hdepicts, -⟩ :=
    exists_discovered h
  exact ⟨parts, activations, vectors, hparts, hactivations, hdepicts⟩

end Hazard
