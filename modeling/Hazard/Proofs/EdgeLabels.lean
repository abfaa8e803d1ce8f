import Hazard.Proofs.Activations
import Hazard.Proofs.EarlyTermination
import Hazard.Proofs.GeneratedGraph
/-!
# Labels of edges and labels of states

A checker labels the states of a generated graph by the first edges that lead there. All edges into
a regular state carry the label of that state, so nothing is lost. The stuttering state stands for
many states of the model at once and has the label of the one that was found first.
-/

namespace Hazard

open Traversal

/-! ## The first edge into a state -/

theorem StateGraph.rank_le_of_edge {graph : StateGraph} {origin : Origin} {edge : Edge}
    (hedge : edge ∈ graph.edgesFrom origin) : rank origin ≤ graph.stateCount := by
  cases origin with
  | none => exact Nat.zero_le _
  | some state => exact StateGraph.lt_of_successor (List.mem_map_of_mem hedge)

namespace CtlChecker

variable {graph : StateGraph} {origin : Origin} {edge : Edge} {position : Nat}

def scanOrder (graph : StateGraph) : List Origin :=
  none :: (List.range graph.stateCount).map some

theorem allEdges_eq : allEdges graph = (scanOrder graph).flatMap graph.edgesFrom := by
  rw [allEdges, scanOrder, List.flatMap_cons, List.flatMap_map]
  rfl

theorem rank_of_scanOrder (h : (scanOrder graph)[position]? = some origin) :
    rank origin = position := by
  cases position with
  | zero =>
      cases h
      rfl
  | succ position =>
      simp only [scanOrder, List.getElem?_cons_succ, List.getElem?_map, Option.map_eq_some_iff] at h
      obtain ⟨state, hstate, rfl⟩ := h
      obtain ⟨-, rfl⟩ := List.getElem?_eq_some_iff.1 hstate
      simp [rank]

theorem scanOrder_rank (h : rank origin ≤ graph.stateCount) :
    (scanOrder graph)[rank origin]? = some origin := by
  cases origin with
  | none => rfl
  | some state =>
      have hlt : state < graph.stateCount := h
      simp [scanOrder, rank, List.getElem?_range hlt]

structure FirstEdge (graph : StateGraph) (state : Nat) (origin : Origin) (edge : Edge) : Prop where
  first : (graph.edgesFrom origin).find? (·.target == state) = some edge
  earlier : ∀ other, rank other < rank origin → ∀ edge ∈ graph.edgesFrom other, edge.target ≠ state

theorem FirstEdge.mem {state : Nat} (h : FirstEdge graph state origin edge) :
    edge ∈ graph.edgesFrom origin ∧ edge.target = state :=
  ⟨List.mem_of_find?_eq_some h.first, by simpa using List.find?_some h.first⟩

theorem exists_firstEdge (hedge : edge ∈ graph.edgesFrom origin) :
    ∃ before first, FirstEdge graph edge.target before first ∧ rank before ≤ rank origin ∧
      firstLabel (allEdges graph) edge.target = first.label := by
  have hsome : ((allEdges graph).find? (·.target == edge.target)).isSome = true := by
    rw [List.find?_isSome, allEdges_eq]
    refine ⟨edge, List.mem_flatMap.2 ⟨origin, ?_, hedge⟩, by simp⟩
    exact List.mem_of_getElem? (scanOrder_rank (StateGraph.rank_le_of_edge hedge))
  obtain ⟨first, hfirst⟩ := Option.isSome_iff_exists.1 hsome
  have hscan := hfirst
  rw [allEdges_eq, List.find?_flatMap, List.findSome?_eq_some_iff] at hscan
  obtain ⟨passed, before, rest, hsplit, hbefore, hpassed⟩ := hscan
  have hrank : rank before = passed.length := by
    apply rank_of_scanOrder
    rw [hsplit, List.getElem?_append_right le_rfl, Nat.sub_self]
    rfl
  have hearlier (other : Origin) (hother : rank other < rank before) :
      ∀ edge' ∈ graph.edgesFrom other, edge'.target ≠ edge.target := by
    have hle : rank before ≤ graph.stateCount :=
      StateGraph.rank_le_of_edge (List.mem_of_find?_eq_some hbefore)
    have hother' : other ∈ passed := by
      have hget := scanOrder_rank (hother.le.trans hle)
      rw [hsplit, List.getElem?_append_left (by omega)] at hget
      exact List.mem_of_getElem? hget
    have hnone := List.find?_eq_none.1 (hpassed other hother')
    exact fun edge' hedge' htarget => hnone edge' hedge' (by simpa using htarget)
  refine ⟨before, first, ⟨hbefore, hearlier⟩, ?_, ?_⟩
  · by_contra hlate
    exact hearlier origin (by omega) edge hedge rfl
  · rw [firstLabel, hfirst]
    rfl

end CtlChecker

/-! ## The edges of a generated graph -/

variable {α : Type} [Scalar α] {model : Model α} {activations : List Activation}
  {options : GenerateOptions} {parts : TraversalOptions α} {vectors : Array Bytes}
  {graph : StateGraph} {checker : CtlChecker} {origin : Origin} {edge : Edge}

theorem eq_of_getElem? {index other : Nat} {vector : Bytes} (hnodup : vectors.toList.Nodup)
    (hindex : vectors[index]? = some vector) (hother : vectors[other]? = some vector) :
    index = other := by
  rw [← Array.getElem?_toList] at hindex hother
  exact (List.getElem?_inj (List.getElem?_eq_some_iff.1 hindex).1 hnodup).1
    (hindex.trans hother.symm)

structure Displays (scenario : Scenario α) (vectors : Array Bytes) (graph : StateGraph)
    (checker : CtlChecker) : Prop where
  depicts : Depicts scenario vectors graph
  nodup : vectors.toList.Nodup
  discovered : ∃ done parents, Discovered scenario done vectors parents
  created : CtlChecker.create graph = .ok checker

theorem exists_displays {config : TraversalConfig}
    (h : Setup.generateGraph (.ok model) config options = .ok graph) :
    ∃ parts activations vectors checker, model.traversalOptions options = .ok parts ∧
      model.activateAll (parts.activations.getD []) = .ok activations ∧
      Displays ⟨model, activations, parts.modifiers⟩ vectors graph checker := by
  obtain ⟨parts, activations, vectors, done, parents, hparts, hactivations, hdepicts, hnodup,
    hdiscovered⟩ := exists_discovered h
  obtain ⟨checker, hcreate, -⟩ := CtlChecker.create_succeeds hdepicts.inRange
  exact ⟨parts, activations, vectors, checker, hparts, hactivations, hdepicts, hnodup,
    ⟨done, parents, hdiscovered⟩, hcreate⟩

theorem Displays.reads {scenario : Scenario α} (h : Displays scenario vectors graph checker) :
    checker.Reads graph := by
  obtain ⟨other, hcreate, hreads⟩ := CtlChecker.create_succeeds h.depicts.inRange
  cases hcreate.symm.trans h.created
  exact hreads

def StutterLoop (scenario : Scenario α) (vectors : Array Bytes) (origin : Origin) (edge : Edge) :
    Prop :=
  vectors[edge.target]? = some scenario.stutter ∧ origin = some edge.target

def Redirected (scenario : Scenario α) (vectors : Array Bytes) (origin : Origin) (edge : Edge) :
    Prop :=
  vectors[edge.target]? = some scenario.stutter ∧ origin ≠ some edge.target

namespace Depicts

theorem exists_batch {scenario : Scenario α} (h : Depicts scenario vectors graph)
    (hedge : edge ∈ graph.edgesFrom origin) :
    ∃ batch, scenario.IsBatch vectors origin batch ∧
      ∃ transition ∈ batch, transition.edge = edge := by
  have hrank := StateGraph.rank_le_of_edge hedge
  rw [h.stateCount_eq] at hrank
  obtain ⟨batch, hbatch, hedges⟩ := h.edges origin (by rintro index ⟨⟩; exact hrank)
  rw [hedges] at hedge
  exact ⟨batch, hbatch, List.mem_map.1 hedge⟩

theorem regular_or_stutter {scenario : Scenario α} (h : Depicts scenario vectors graph)
    (hedge : edge ∈ graph.edgesFrom origin) :
    (∃ state, vectors[edge.target]? = some (regular :: state)) ∨
      vectors[edge.target]? = some scenario.stutter := by
  obtain ⟨batch, hbatch, transition, htransition, rfl⟩ := h.exists_batch hedge
  have hget := Array.getElem?_eq_getElem (hbatch.target_lt htransition)
  obtain ⟨_, hyields⟩ := ((h.mem_iff _).1 (Array.mem_of_getElem? hget)).yields
  rcases hyields.shape with hstutter | ⟨state, hstate⟩
  · exact .inr (hget.trans (congrArg some hstutter))
  · exact .inl ⟨state, hget.trans (congrArg some hstate)⟩

variable (hparts : model.traversalOptions options = .ok parts)
  (h : Depicts ⟨model, activations, parts.modifiers⟩ vectors graph)

include hparts h

theorem label_of_regular (hedge : edge ∈ graph.edgesFrom origin) {state : Bytes}
    (hstate : vectors[edge.target]? = some (regular :: state)) :
    edge.label = model.label state := by
  obtain ⟨batch, hbatch, transition, htransition, rfl⟩ := h.exists_batch hedge
  cases hbatch with
  | offered hsource hoffers hreports =>
      obtain ⟨proposed, hproposed, rfl⟩ := hoffers
      obtain ⟨candidate, hcandidate, hreport⟩ := Scenario.exists_related hreports.flip htransition
      have himage : regular :: state = image model candidate :=
        Option.some.inj (hstate.symm.trans hreport.target)
      unfold image at himage
      split at himage
      · exact absurd (List.cons.inj himage).1 (by decide)
      · cases himage
        exact hreport.label.trans (label_of_counted hparts hcandidate)
  | stuttering hindex =>
      rw [List.mem_singleton.1 htransition] at hstate
      exact absurd (Option.some.inj (hindex.symm.trans hstate)) (Scenario.stutter_ne_regular _ _)

/-- The checker has the label of the model in every regular state that an edge leads to. -/
theorem labelOf_regular (hcreate : CtlChecker.create graph = .ok checker)
    (hedge : edge ∈ graph.edgesFrom origin) {state : Bytes}
    (hstate : vectors[edge.target]? = some (regular :: state)) :
    checker.labelOf edge.target = model.label state := by
  obtain ⟨before, first, hfirst, -, hlabel⟩ := CtlChecker.exists_firstEdge hedge
  obtain ⟨hmem, htarget⟩ := hfirst.mem
  rw [CtlChecker.labelOf_eq hcreate, hlabel]
  exact label_of_regular hparts h hmem (htarget ▸ hstate)

end Depicts

/-- The first edge into the stuttering state starts earlier, so it is not the loop there. -/
theorem Displays.exists_first_redirected {scenario : Scenario α}
    (h : Displays scenario vectors graph checker) {index : Nat}
    (hindex : vectors[index]? = some scenario.stutter) :
    ∃ origin edge, CtlChecker.FirstEdge graph index origin edge ∧
      rank origin < rank (some index) ∧ checker.labelOf index = edge.label := by
  obtain ⟨done, parents, hdiscovered⟩ := h.discovered
  obtain ⟨parent, source, hparent, hsource, hyields⟩ := hdiscovered.found index _ hindex
  obtain ⟨edge, hedge, htarget⟩ := h.depicts.exists_edge hsource hyields
  have hrank : rank parent < rank (some index) := by
    cases parent with
    | none => exact Nat.succ_pos index
    | some state => exact Nat.succ_lt_succ (hdiscovered.older index state hparent)
  obtain rfl := eq_of_getElem? h.nodup htarget hindex
  obtain ⟨before, first, hfirst, hle, hlabel⟩ := CtlChecker.exists_firstEdge hedge
  refine ⟨before, first, hfirst, hle.trans_lt hrank, ?_⟩
  rw [CtlChecker.labelOf_eq h.created, hlabel]

/-- Every edge carries the label that the checker gives to its target, if that is a regular state.
The stuttering state has the label of the first edge that enters it, and all labels agree iff the
edges that enter it agree among themselves. -/
theorem Setup.labels_agree_unless_redirected (model : Model α) (config : TraversalConfig)
    (options : GenerateOptions) (graph : StateGraph)
    (hgraph : Setup.generateGraph (.ok model) config options = .ok graph) :
    ∃ parts activations vectors checker, model.traversalOptions options = .ok parts ∧
      model.activateAll (parts.activations.getD []) = .ok activations ∧
      Depicts ⟨model, activations, parts.modifiers⟩ vectors graph ∧ vectors.toList.Nodup ∧
      CtlChecker.create graph = .ok checker ∧
      (∀ origin, ∀ edge ∈ graph.edgesFrom origin, ∀ state,
        vectors[edge.target]? = some (regular :: state) →
          checker.labelOf edge.target = edge.label ∧ edge.label = model.label state) ∧
      (∀ index, vectors[index]? =
          some (⟨model, activations, parts.modifiers⟩ : Scenario α).stutter →
        ∃ origin edge, CtlChecker.FirstEdge graph index origin edge ∧
          Redirected ⟨model, activations, parts.modifiers⟩ vectors origin edge ∧
          checker.labelOf index = edge.label) ∧
      ((∀ origin, ∀ edge ∈ graph.edgesFrom origin,
          ¬StutterLoop ⟨model, activations, parts.modifiers⟩ vectors origin edge →
          checker.labelOf edge.target = edge.label) ↔
        ∀ origin, ∀ edge ∈ graph.edgesFrom origin, ∀ other, ∀ edge' ∈ graph.edgesFrom other,
          Redirected ⟨model, activations, parts.modifiers⟩ vectors origin edge →
          Redirected ⟨model, activations, parts.modifiers⟩ vectors other edge' →
          edge.label = edge'.label) := by
  obtain ⟨parts, activations, vectors, checker, hparts, hactivations, h⟩ := exists_displays hgraph
  have hregular (origin : Origin) (edge : Edge) (hedge : edge ∈ graph.edgesFrom origin)
      (state : Bytes) (hstate : vectors[edge.target]? = some (regular :: state)) :
      checker.labelOf edge.target = edge.label ∧ edge.label = model.label state := by
    have hlabel := h.depicts.label_of_regular hparts hedge hstate
    exact ⟨(h.depicts.labelOf_regular hparts h.created hedge hstate).trans hlabel.symm, hlabel⟩
  have hfirst (index : Nat) (hindex : vectors[index]? =
      some (⟨model, activations, parts.modifiers⟩ : Scenario α).stutter) :
      ∃ origin edge, CtlChecker.FirstEdge graph index origin edge ∧
        Redirected ⟨model, activations, parts.modifiers⟩ vectors origin edge ∧
        checker.labelOf index = edge.label := by
    obtain ⟨origin, edge, hfirst, hrank, hlabel⟩ := h.exists_first_redirected hindex
    obtain ⟨-, rfl⟩ := hfirst.mem
    refine ⟨origin, edge, hfirst, ⟨hindex, ?_⟩, hlabel⟩
    rintro rfl
    exact lt_irrefl _ hrank
  refine ⟨parts, activations, vectors, checker, hparts, hactivations, h.depicts, h.nodup, h.created,
    hregular, hfirst, ?_, ?_⟩
  · intro hagree origin edge hedge other edge' hedge' hredirected hredirected'
    have hsame : edge.target = edge'.target :=
      eq_of_getElem? h.nodup hredirected.1 hredirected'.1
    rw [← hagree origin edge hedge fun hloop => hredirected.2 hloop.2,
      ← hagree other edge' hedge' fun hloop => hredirected'.2 hloop.2, hsame]
  · intro hagree origin edge hedge hnoLoop
    rcases h.depicts.regular_or_stutter hedge with ⟨state, hstate⟩ | hstutter
    · exact (hregular origin edge hedge state hstate).1
    · obtain ⟨before, first, hbefore, hredirected, hlabel⟩ := hfirst edge.target hstutter
      rw [hlabel]
      exact hagree before first hbefore.mem.1 origin edge hedge hredirected
        ⟨hstutter, fun hloop => hnoLoop ⟨hstutter, hloop⟩⟩

/-- Two states that satisfy the first proposition; only one of them satisfies the second. -/
def twins : Model Rat where
  stateSize := 1
  propositions := ["on", "bright"]
  faults := []
  start := [0]
  holds state position := if position = 0 then state != [0] else state == [2]
  initial _ := .ok [{ target := [1], probability := 1 / 2 },
    { target := [2], probability := 1 / 2 }]
  step _ state := .ok [{ target := state, probability := 1 }]
  refuse _ := none

/-- Both states are left out, and the stuttering state has the label of the first one: what the edge
to the second one says of it is lost. -/
theorem Setup.label_lost_twins :
    ∃ graph checker, Setup.generateGraph (.ok twins) { stateCapacity := 4 }
        { terminateEarly := some (.atom "on") } = .ok graph ∧
      CtlChecker.create graph = .ok checker ∧
      ∃ edge ∈ graph.initial, edge.label.contains 1 = true ∧
        (checker.labelOf edge.target).contains 1 = false ∧
        checker.labelOf edge.target ≠ edge.label := by
  have hlost : ((Setup.generateGraph (.ok twins) { stateCapacity := 4 }
      { terminateEarly := some (.atom "on") }).toOption.bind fun graph =>
        (CtlChecker.create graph).toOption.map fun checker => graph.initial.any fun edge =>
          edge.label.contains 1 && !(checker.labelOf edge.target).contains 1) = some true := by
    decide +kernel
  obtain ⟨graph, hgraph, hlost⟩ := Option.bind_eq_some_iff.1 hlost
  obtain ⟨checker, hcreate, hlost⟩ := Option.map_eq_some_iff.1 hlost
  obtain ⟨edge, hedge, hlabels⟩ := List.any_eq_true.1 hlost
  rw [Bool.and_eq_true, Bool.not_eq_true'] at hlabels
  refine ⟨graph, checker, toOption_eq_some.1 hgraph, toOption_eq_some.1 hcreate, edge, hedge,
    hlabels.1, hlabels.2, ?_⟩
  intro hsame
  rw [hsame, hlabels.1] at hlabels
  exact absurd hlabels.2 (by decide)

def dimTwin : StateGraph where
  edges := #[⟨0, .below 1⟩, ⟨1, .empty⟩]
  blocks := #[⟨0, 1⟩, ⟨1, 1⟩]
  initial := [⟨0, .below 1⟩, ⟨1, .below 2⟩]
  propositions := ["on", "bright"]

theorem edgesFrom_dimTwin (hedge : edge ∈ dimTwin.edgesFrom origin) :
    edge = ⟨0, .below 1⟩ ∨ edge = ⟨1, .below 2⟩ ∨ edge = ⟨1, .empty⟩ ∧ origin = some 1 := by
  match origin with
  | none => simpa [dimTwin, StateGraph.edgesFrom] using hedge
  | some 0 => exact .inl (by simpa [dimTwin, StateGraph.edgesFrom, StateGraph.outgoing] using hedge)
  | some 1 =>
      exact .inr (.inr ⟨by simpa [dimTwin, StateGraph.edgesFrom, StateGraph.outgoing] using hedge,
        rfl⟩)
  | some (state + 2) =>
      simp [dimTwin, StateGraph.edgesFrom, StateGraph.outgoing] at hedge

/-- Nothing is lost if only the second state is left out: then one edge enters the stuttering state,
and its label is kept. -/
theorem Setup.labels_agree_unless_redirected_twins :
    ∃ (parts : TraversalOptions Rat) (vectors : Array Bytes) (checker : CtlChecker),
      Setup.generateGraph (.ok twins) { stateCapacity := 4 }
        { terminateEarly := some (.atom "bright") } = .ok dimTwin ∧
      twins.traversalOptions { terminateEarly := some (.atom "bright") } = .ok parts ∧
      CtlChecker.create dimTwin = .ok checker ∧
      Redirected ⟨twins, [], parts.modifiers⟩ vectors none ⟨1, .below 2⟩ ∧
      checker.labelOf 0 = .below 1 ∧ checker.labelOf 1 = .below 2 ∧
      ∀ origin, ∀ edge ∈ dimTwin.edgesFrom origin,
        ¬StutterLoop ⟨twins, [], parts.modifiers⟩ vectors origin edge →
          checker.labelOf edge.target = edge.label := by
  have hbuilt : (Setup.generateGraph (.ok twins) { stateCapacity := 4 }
      { terminateEarly := some (.atom "bright") }).toOption = some dimTwin := by
    decide +kernel
  rw [toOption_eq_some] at hbuilt
  obtain ⟨parts, activations, vectors, checker, hparts, hactivations, hdepicts, hnodup, hcreate,
    hregular, -, hagree⟩ := labels_agree_unless_redirected twins { stateCapacity := 4 }
      { terminateEarly := some (.atom "bright") } dimTwin hbuilt
  have hnone : activations = [] := by
    rw [Model.activateAll_eq_ok hactivations]
    simp [twins, Model.declared]
  subst hnone
  have hfirst : (⟨0, .below 1⟩ : Edge) ∈ dimTwin.edgesFrom none := .head _
  have hsecond : (⟨1, .below 2⟩ : Edge) ∈ dimTwin.edgesFrom none := .tail _ (.head _)
  have hloop : (⟨1, .empty⟩ : Edge) ∈ dimTwin.edgesFrom (some 1) := .head _
  have hstutter : vectors[1]? = some (⟨twins, [], parts.modifiers⟩ : Scenario Rat).stutter := by
    rcases hdepicts.regular_or_stutter hsecond with ⟨state, hstate⟩ | hstutter
    · have hlabel := (hregular none _ hsecond state hstate).2
      rw [← (hregular (some 1) _ hloop state hstate).2] at hlabel
      exact absurd hlabel (by decide)
    · exact hstutter
  have hredirected : Redirected ⟨twins, [], parts.modifiers⟩ vectors none ⟨1, .below 2⟩ :=
    ⟨hstutter, fun hnone => by cases hnone⟩
  have hall := hagree.2 (by
    intro origin edge hedge other edge' hedge' hredirected hredirected'
    have htarget := eq_of_getElem? hnodup hredirected.1 hstutter
    have htarget' := eq_of_getElem? hnodup hredirected'.1 hstutter
    rcases edgesFrom_dimTwin hedge with rfl | rfl | ⟨rfl, rfl⟩
    · cases htarget
    · rcases edgesFrom_dimTwin hedge' with rfl | rfl | ⟨rfl, rfl⟩
      · cases htarget'
      · rfl
      · exact absurd rfl hredirected'.2
    · exact absurd rfl hredirected.2)
  refine ⟨parts, vectors, checker, hbuilt, hparts, hcreate, hredirected, ?_, ?_, hall⟩
  · exact hall none _ hfirst fun hloop => by cases hloop.2
  · exact hall none _ hsecond fun hloop => by cases hloop.2

end Hazard
