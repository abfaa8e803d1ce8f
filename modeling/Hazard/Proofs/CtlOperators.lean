import Hazard.Graph.Checker
import Hazard.Proofs.Ancestors
import Hazard.Proofs.CtlSemantics
import Hazard.Proofs.Cycles
import Hazard.Proofs.Except
import Mathlib.Data.Fintype.Pigeonhole
import Mathlib.Tactic.Choose
/-!
# The temporal operators on a graph

Each operator of the checker maps the sets of its parts to the states that satisfy it, whether or
not every state has a successor. An infinite path in a finite graph runs into a cycle.
-/

namespace Hazard

open Relation

/-! ## Paths -/

section Paths

variable {σ : Type} {next : σ → σ → Prop} {first last : σ}

theorem exists_longer_path {path : Nat → σ} {length : Nat}
    (hsteps : ∀ i < length, next (path i) (path (i + 1))) (hstep : next (path length) last) :
    ∃ longer : Nat → σ, longer 0 = path 0 ∧ longer (length + 1) = last ∧
      ∀ i < length + 1, next (longer i) (longer (i + 1)) := by
  refine ⟨Function.update path (length + 1) last, Function.update_of_ne (by omega) ..,
    Function.update_self .., fun i hi => ?_⟩
  rw [Function.update_of_ne (by omega : i ≠ length + 1)]
  rcases Nat.lt_succ_iff_lt_or_eq.1 hi with hlt | rfl
  · rw [Function.update_of_ne (by omega)]
    exact hsteps i hlt
  · rwa [Function.update_self]

theorem reflTransGen_iff_exists_path :
    ReflTransGen next first last ↔
      ∃ (path : Nat → σ) (length : Nat), path 0 = first ∧ path length = last ∧
        ∀ i < length, next (path i) (path (i + 1)) := by
  constructor
  · intro hpath
    induction hpath with
    | refl => exact ⟨fun _ => first, 0, rfl, rfl, by simp⟩
    | tail _ hstep ih =>
        obtain ⟨path, length, rfl, rfl, hsteps⟩ := ih
        obtain ⟨longer, hfirst, hlast, hlonger⟩ := exists_longer_path hsteps hstep
        exact ⟨longer, length + 1, hfirst, hlast, hlonger⟩
  · rintro ⟨path, length, rfl, rfl, hsteps⟩
    induction length with
    | zero => exact .refl
    | succ length ih => exact (ih fun i hi => hsteps i (by omega)).tail (hsteps length (by omega))

end Paths

namespace TransitionSystem

variable {σ : Type} {system : TransitionSystem σ} {hold goal : σ → Prop} {state : σ}

theorem someUntil_iff :
    system.SomeUntil hold goal state ↔
      ∃ last, ReflTransGen (fun before after => hold before ∧ system.next before after) state last ∧
        goal last := by
  simp only [reflTransGen_iff_exists_path]
  constructor
  · rintro ⟨path, length, hfirst, hsteps, hgoal⟩
    exact ⟨path length, ⟨path, length, hfirst, rfl, hsteps⟩, hgoal⟩
  · rintro ⟨last, ⟨path, length, hfirst, rfl, hsteps⟩, hgoal⟩
    exact ⟨path, length, hfirst, hsteps, hgoal⟩

/-- A property that every state with it hands on to a successor holds along an infinite path. -/
theorem someAlways_of_invariant (invariant : σ → Prop) (hstate : invariant state)
    (hhold : ∀ state, invariant state → hold state)
    (hnext : ∀ state, invariant state → ∃ after, system.next state after ∧ invariant after) :
    system.SomeAlways hold state := by
  choose! follow hfollow hkeeps using hnext
  have hinvariant (i : Nat) : invariant (follow^[i] state) := by
    induction i with
    | zero => exact hstate
    | succ i ih =>
        rw [Function.iterate_succ_apply']
        exact hkeeps _ ih
  refine ⟨fun i => follow^[i] state, rfl, fun i => ?_, fun i => hhold _ (hinvariant i)⟩
  dsimp only
  rw [Function.iterate_succ_apply']
  exact hfollow _ (hinvariant i)

theorem IsPath.transGen {path : Nat → σ} (hpath : system.IsPath path) (hhold : ∀ i, hold (path i))
    {i j : Nat} (hij : i < j) :
    TransGen (fun before after => hold before ∧ hold after ∧ system.next before after)
      (path i) (path j) := by
  induction j with
  | zero => omega
  | succ j ih =>
      have hstep : hold (path j) ∧ hold (path (j + 1)) ∧ system.next (path j) (path (j + 1)) :=
        ⟨hhold j, hhold (j + 1), hpath j⟩
      rcases Nat.lt_succ_iff_lt_or_eq.1 hij with hlt | rfl
      · exact (ih hlt).tail hstep
      · exact .single hstep

end TransitionSystem

/-! ## Graphs -/

structure StateGraph.InRange (graph : StateGraph) : Prop where
  initial_lt : ∀ edge ∈ graph.initial, edge.target < graph.stateCount
  successor_lt : ∀ state, ∀ target ∈ graph.successors state, target < graph.stateCount

/-- The graph with the atoms that its labels say. -/
def StateGraph.system (graph : StateGraph) (labelOf : Nat → Label) : TransitionSystem Nat where
  next state after := after ∈ graph.successors state
  holds state name := ∃ position, graph.propositions.idxOf? name = some position ∧
    (labelOf state).contains position = true

theorem StateGraph.lt_of_successor {graph : StateGraph} {state after : Nat}
    (h : after ∈ graph.successors state) : state < graph.stateCount := by
  by_contra hge
  have hnone : graph.blocks[state]? = none := Array.getElem?_eq_none (Nat.not_lt.1 hge)
  simp [successors, outgoing, hnone] at h

namespace CtlChecker

variable {graph : StateGraph} {checker : CtlChecker}

theorem mem_arcs {source target : Nat} :
    (source, target) ∈ arcs graph ↔ target ∈ graph.successors source := by
  simp only [arcs, List.mem_flatMap, List.mem_range, List.mem_map, Prod.mk.injEq]
  constructor
  · rintro ⟨_, -, _, htarget, rfl, rfl⟩
    exact htarget
  · exact fun h => ⟨source, StateGraph.lt_of_successor h, target, h, rfl, rfl⟩

theorem visit_succeeds {labelling : Labelling} {edge : Edge}
    (hfits : labelling.labelled.Fits graph.stateCount) (hedge : edge.target < graph.stateCount) :
    ∃ next, labelling.visit edge = .ok next ∧ next.labelled.Fits graph.stateCount := by
  rw [Labelling.visit, hfits.insert hedge]
  cases labelling.labelled.contains edge.target with
  | false => exact ⟨_, rfl, hfits.adjoin hedge⟩
  | true => exact ⟨_, rfl, hfits⟩

structure Reads (checker : CtlChecker) (graph : StateGraph) : Prop where
  inRange : graph.InRange
  graph_eq : checker.graph = graph
  mem_predecessors : ∀ {source target}, source ∈ checker.predecessors.of target ↔
    target ∈ graph.successors source

theorem create_succeeds (hrange : graph.InRange) :
    ∃ checker, create graph = .ok checker ∧ checker.Reads graph := by
  have hall : ∀ edge ∈ allEdges graph, edge.target < graph.stateCount := by
    intro edge hedge
    rcases List.mem_append.1 hedge with hedge | hedge
    · exact hrange.initial_lt edge hedge
    · obtain ⟨state, -, hedge⟩ := List.mem_flatMap.1 hedge
      exact hrange.successor_lt state edge.target (List.mem_map_of_mem hedge)
  have hlabelling : ∃ labelling, (allEdges graph).foldlM Labelling.visit
      ⟨Array.replicate graph.stateCount .empty, .empty graph.stateCount⟩ = .ok labelling ∧ _ :=
    foldlM_succeeds
      (motive := fun edges labelling => (∀ edge ∈ edges, edge.target < graph.stateCount) ∧
        labelling.labelled.Fits graph.stateCount)
      (by
        rintro edge rest labelling ⟨hrest, hfits⟩
        obtain ⟨next, hnext, hfits⟩ := visit_succeeds hfits (hrest edge (by simp))
        exact ⟨next, hnext, fun other hother => hrest other (by simp [hother]), hfits⟩)
      ⟨hall, StateSet.fits_empty _⟩
  obtain ⟨labelling, hlabelling, -⟩ := hlabelling
  refine ⟨_, bind_eq_ok.2 ⟨labelling, hlabelling, rfl⟩, hrange, rfl, ?_⟩
  intro source target
  rw [Predecessors.mem_of_ofEdges, mem_arcs, and_iff_right_iff_imp]
  exact hrange.successor_lt source target

/-! ## Operators -/

variable {set hold goal : StateSet} {member atHold atGoal : Nat → Prop}
  (labelOf : Nat → Label)

theorem Reads.source_lt (hreads : checker.Reads graph) (target : Nat) :
    ∀ source ∈ checker.predecessors.of target, source < graph.stateCount :=
  fun _ hsource => StateGraph.lt_of_successor (hreads.mem_predecessors.1 hsource)

theorem Reads.comprises_before (hreads : checker.Reads graph)
    (hset : set.Comprises graph.stateCount member) :
    (checker.before set).Comprises graph.stateCount ((graph.system labelOf).SomeNext member) := by
  have hmem (state : Nat) : state ∈ set.toList.flatMap checker.predecessors.of ↔
      (graph.system labelOf).SomeNext member state := by
    simp only [List.mem_flatMap, StateSet.mem_toList, hset.contains_iff, hreads.mem_predecessors]
    constructor
    · rintro ⟨after, ⟨-, hafter⟩, hnext⟩
      exact ⟨after, hnext, hafter⟩
    · rintro ⟨after, hnext, hafter⟩
      exact ⟨after, ⟨hreads.inRange.successor_lt state after hnext, hafter⟩, hnext⟩
  rw [before, hreads.graph_eq]
  refine (StateSet.comprises_ofList fun state hstate => ?_).congr fun state _ => hmem state
  obtain ⟨after, hnext, -⟩ := (hmem state).1 hstate
  exact StateGraph.lt_of_successor hnext

theorem Reads.leads_iff (hreads : checker.Reads graph)
    (hhold : hold.Comprises graph.stateCount atHold) {before after : Nat} :
    checker.predecessors.Leads hold.complement before after ↔
      atHold before ∧ (graph.system labelOf).next before after := by
  rw [Predecessors.Leads, hreads.mem_predecessors, ← Bool.not_eq_true,
    hhold.complement.contains_iff]
  constructor
  · rintro ⟨hin, hnext⟩
    have hlt := StateGraph.lt_of_successor hnext
    exact ⟨not_not.1 fun h => hin ⟨hlt, h⟩, hnext⟩
  · rintro ⟨hin, hnext⟩
    exact ⟨fun h => h.2 hin, hnext⟩

theorem Reads.comprises_untilStates (hreads : checker.Reads graph)
    (hhold : hold.Comprises graph.stateCount atHold)
    (hgoal : goal.Comprises graph.stateCount atGoal) :
    (checker.untilStates hold goal).Comprises graph.stateCount
      ((graph.system labelOf).SomeUntil atHold atGoal) := by
  refine (Predecessors.comprises_ancestors hreads.source_lt hgoal.toFits).congr
    fun state hstate => ?_
  have hleads : checker.predecessors.Leads hold.complement = fun before after =>
      atHold before ∧ (graph.system labelOf).next before after := by
    funext before after
    exact propext (hreads.leads_iff labelOf hhold)
  rw [Predecessors.Ancestor, TransitionSystem.someUntil_iff, hleads]
  refine exists_congr fun last => and_congr_right fun hpath => ?_
  rw [hgoal.contains_iff, and_iff_right_iff_imp]
  intro _
  rcases ReflTransGen.cases_tail hpath with rfl | ⟨before, -, -, hnext⟩
  · exact hstate
  · exact hreads.inRange.successor_lt before last hnext

/-- An infinite path revisits a state, as there are finitely many. -/
theorem exists_revisit {path : Nat → Nat} {count : Nat} (hpath : ∀ i, path i < count) :
    ∃ i j, i < j ∧ path i = path j := by
  obtain ⟨i, j, hne, heq⟩ := Finite.exists_ne_map_eq_of_infinite
    (fun i => (⟨path i, hpath i⟩ : Fin count))
  have heq : path i = path j := congrArg Fin.val heq
  rcases Nat.lt_or_gt_of_ne hne with hlt | hgt
  · exact ⟨i, j, hlt, heq⟩
  · exact ⟨j, i, hgt, heq.symm⟩

theorem Reads.inside_iff (hhold : hold.Comprises graph.stateCount atHold)
    (hrange : graph.InRange) {before after : Nat} :
    graph.Inside hold before after ↔
      atHold before ∧ atHold after ∧ (graph.system labelOf).next before after := by
  rw [StateGraph.Inside, hhold.contains_iff, hhold.contains_iff]
  constructor
  · rintro ⟨⟨-, hbefore⟩, ⟨-, hafter⟩, hnext⟩
    exact ⟨hbefore, hafter, hnext⟩
  · rintro ⟨hbefore, hafter, hnext⟩
    exact ⟨⟨StateGraph.lt_of_successor hnext, hbefore⟩, ⟨hrange.successor_lt _ _ hnext, hafter⟩,
      hnext⟩

/-- A path into a cycle goes on around it forever. -/
theorem someAlways_of_cycle {system : TransitionSystem Nat} {state last : Nat}
    (hpath : ReflTransGen (fun before after => atHold before ∧ system.next before after) state last)
    (hcycle : TransGen (fun before after => atHold before ∧ atHold after ∧ system.next before after)
      last last) : system.SomeAlways atHold state := by
  refine TransitionSystem.someAlways_of_invariant
    (fun state => ReflTransGen
      (fun before after => atHold before ∧ system.next before after) state last)
    hpath (fun state hpath => ?_) fun state hpath => ?_
  all_goals
    obtain ⟨first, hfirst, hback⟩ := TransGen.head'_iff.1 hcycle
    rcases ReflTransGen.cases_head hpath with rfl | ⟨after, hstep, hrest⟩
  · exact hfirst.1
  · exact hstep.1
  · exact ⟨first, hfirst.2.2, hback.lift id fun _ _ h => ⟨h.1, h.2.2⟩⟩
  · exact ⟨after, hstep.2, hrest⟩

theorem Reads.comprises_alwaysStates (hreads : checker.Reads graph)
    (hhold : hold.Comprises graph.stateCount atHold) :
    (checker.alwaysStates hold).Comprises graph.stateCount
      ((graph.system labelOf).SomeAlways atHold) := by
  have hcyclic := graph.comprises_cyclicStates hhold.toFits
  rw [alwaysStates, hreads.graph_eq]
  refine (hreads.comprises_untilStates labelOf hhold hcyclic).congr fun state hstate => ?_
  have hinside : graph.Inside hold = fun before after =>
      atHold before ∧ atHold after ∧ (graph.system labelOf).next before after := by
    funext before after
    exact propext (Reads.inside_iff labelOf hhold hreads.inRange)
  rw [TransitionSystem.someUntil_iff, hinside]
  constructor
  · rintro ⟨last, hpath, hcycle⟩
    exact someAlways_of_cycle hpath hcycle
  · rintro ⟨path, rfl, hpath, hholds⟩
    have hlt (i : Nat) : path i < graph.stateCount := by
      cases i with
      | zero => exact hstate
      | succ i => exact hreads.inRange.successor_lt (path i) (path (i + 1)) (hpath i)
    obtain ⟨i, j, hij, hsame⟩ := exists_revisit hlt
    refine ⟨path i, ?_, ?_⟩
    · rcases Nat.eq_zero_or_pos i with rfl | hpos
      · exact .refl
      · exact (hpath.transGen hholds hpos).to_reflTransGen.lift id fun _ _ h => ⟨h.1, h.2.2⟩
    · have hcycle := hpath.transGen hholds hij
      rwa [← hsame] at hcycle

end CtlChecker

end Hazard
