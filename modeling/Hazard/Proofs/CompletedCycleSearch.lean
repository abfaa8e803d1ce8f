import Hazard.Proofs.CtlOperators
/-!
# The search for cycles runs to its end

The search is a loop over roots around a loop over the states under way. Both are described here as
they run without a limit on their steps. The limit that a run is given is never reached: the loops
end, after no more steps than the graph has states and edges, with what the run returns. The states
collected are those that a path leads back to.
-/

namespace Hazard

open Relation

/-! ## Paths back to their start -/

theorem transGen_iff_exists_path {σ : Type} {next : σ → σ → Prop} {first last : σ} :
    TransGen next first last ↔
      ∃ (path : Nat → σ) (length : Nat), 0 < length ∧ path 0 = first ∧ path length = last ∧
        ∀ i < length, next (path i) (path (i + 1)) := by
  rw [TransGen.tail'_iff]
  constructor
  · rintro ⟨middle, hpath, hstep⟩
    obtain ⟨path, length, rfl, rfl, hsteps⟩ := reflTransGen_iff_exists_path.1 hpath
    obtain ⟨longer, hfirst, hlast, hlonger⟩ := exists_longer_path hsteps hstep
    exact ⟨longer, length + 1, Nat.succ_pos length, hfirst, hlast, hlonger⟩
  · rintro ⟨path, length, hlength, rfl, rfl, hsteps⟩
    obtain ⟨before, rfl⟩ := Nat.exists_eq_add_one.2 hlength
    have hpath := reflTransGen_iff_exists_path.2
      ⟨path, before, rfl, rfl, fun i hi => hsteps i (by omega)⟩
    exact ⟨path before, hpath, hsteps before (by omega)⟩

namespace StateGraph

/-- A path of at least one edge leads from the state back to it, through states of the set only. -/
def OnCycle (graph : StateGraph) (within : StateSet) (state : Nat) : Prop :=
  ∃ (path : Nat → Nat) (length : Nat), 0 < length ∧ path 0 = state ∧ path length = state ∧
    (∀ i ≤ length, within.contains (path i) = true) ∧
    ∀ i < length, path (i + 1) ∈ graph.successors (path i)

theorem onCycle_iff {graph : StateGraph} {within : StateSet} {state : Nat} :
    graph.OnCycle within state ↔ TransGen (graph.Inside within) state state := by
  rw [transGen_iff_exists_path]
  constructor
  · rintro ⟨path, length, hlength, hfirst, hlast, hinside, hedges⟩
    refine ⟨path, length, hlength, hfirst, hlast, fun i hi => ?_⟩
    exact ⟨hinside i (by omega), hinside (i + 1) (by omega), hedges i hi⟩
  · rintro ⟨path, length, hlength, hfirst, hlast, hsteps⟩
    refine ⟨path, length, hlength, hfirst, hlast, fun i hi => ?_, fun i hi => (hsteps i hi).2.2⟩
    rcases Nat.lt_or_eq_of_le hi with hlt | rfl
    · exact (hsteps i hlt).1
    · rw [hlast, ← hfirst]
      exact (hsteps 0 hlength).1

end StateGraph

/-! ## The loops without a limit -/

namespace CycleSearch

variable {graph : StateGraph} {within : StateSet} {search final : CycleSearch} {steps : Nat}

/-- Steps are taken until no state is under way, so many of them, and end in the other search. -/
inductive Loops (graph : StateGraph) (within : StateSet) :
    CycleSearch → Nat → CycleSearch → Prop
  | done {search : CycleSearch} (hframes : search.frames = []) : Loops graph within search 0 search
  | step {search final : CycleSearch} {steps : Nat} (hframes : search.frames ≠ [])
      (hrest : Loops graph within (search.step graph within) steps final) :
      Loops graph within search (steps + 1) final

/-- From every root in turn that has not been entered the loop over the states under way is run. -/
inductive Visits (graph : StateGraph) (within : StateSet) :
    CycleSearch → List Nat → Nat → CycleSearch → Prop
  | done (search : CycleSearch) : Visits graph within search [] 0 search
  | skip {search final : CycleSearch} {root steps : Nat} {roots : List Nat}
      (hroot : search.Entered root) (hrest : Visits graph within search roots steps final) :
      Visits graph within search (root :: roots) steps final
  | enter {search next final : CycleSearch} {root first steps : Nat} {roots : List Nat}
      (hroot : ¬ search.Entered root)
      (hloop : Loops graph within (search.enter graph root) first next)
      (hrest : Visits graph within next roots steps final) :
      Visits graph within search (root :: roots) (first + steps) final

theorem Sound.loops (hwithin : within.Fits graph.stateCount)
    (hsound : search.Sound graph within fun _ _ => False) {fuel : Nat}
    (hfuel : search.budget graph ≤ fuel) :
    ∃ steps, Loops graph within search steps (search.run graph within fuel) ∧
      (search.run graph within fuel).budget graph + steps = search.budget graph := by
  induction fuel generalizing search with
  | zero =>
      refine ⟨0, .done ?_, rfl⟩
      by_contra hframes
      have := (hsound.step_progress hwithin hframes).1
      omega
  | succ fuel ih =>
      rw [CycleSearch.run]
      cases hframes : search.frames with
      | nil => exact ⟨0, .done hframes, rfl⟩
      | cons frame frames =>
          have hmore : search.frames ≠ [] := by simp [hframes]
          obtain ⟨hbudget, -⟩ := hsound.step_progress hwithin hmore
          obtain ⟨steps, hloops, hspent⟩ := ih (hsound.step hwithin) (by omega)
          exact ⟨steps + 1, .step hmore hloops, by dsimp only; omega⟩

/-- Entering a root costs nothing, so one budget pays for the search from all roots. -/
theorem Sound.visits (hwithin : within.Fits graph.stateCount)
    (hsound : search.Sound graph within fun _ _ => False) (hframes : search.frames = [])
    {roots : List Nat} (hroots : ∀ root ∈ roots, within.contains root = true) :
    ∃ steps, Visits graph within search roots steps
        (roots.foldl (CycleSearch.visit graph within) search) ∧
      (roots.foldl (CycleSearch.visit graph within) search).budget graph + steps =
        search.budget graph := by
  induction roots generalizing search with
  | nil => exact ⟨0, .done search, rfl⟩
  | cons root roots ih =>
      obtain ⟨hroot, hrest⟩ := List.forall_mem_cons.1 hroots
      obtain ⟨hvisited, hdone, -, -⟩ := hsound.visit hwithin hframes hroot
      obtain ⟨steps, hvisits, hspent⟩ := ih hvisited hdone hrest
      rw [List.foldl_cons]
      cases hnumber : search.numberOf root with
      | some number =>
          have hsame : search.visit graph within root = search := by rw [CycleSearch.visit, hnumber]
          rw [hsame] at hvisits hspent ⊢
          exact ⟨steps, .skip (by simp [Entered, hnumber]) hvisits, hspent⟩
      | none =>
          have hnew : ¬ search.Entered root := not_not.2 hnumber
          have hentered := hsound.enter hwithin hroot hnew (by simp [underWay, hframes])
          have hbudget := budget_enter hsound.number_size (hwithin.lt_of_contains hroot) hnumber
          obtain ⟨first, hloops, hfirst⟩ :=
            hentered.loops hwithin (hbudget ▸ budget_le graph hframes)
          have hrun : search.visit graph within root =
              (search.enter graph root).run graph within
                (graph.stateCount + graph.outgoingCount) := by rw [CycleSearch.visit, hnumber]
          rw [← hrun] at hloops hfirst
          exact ⟨first + steps, .enter hnew hloops hvisits, by omega⟩

end CycleSearch

/-- The search from all states of the set, left to itself, ends after at most one step for each
state and each edge of the graph, and what it has collected are the states of the set that lie on a
cycle inside it. -/
theorem StateGraph.cyclicStates_exact {graph : StateGraph} {within : StateSet}
    (hwithin : within.Fits graph.stateCount) :
    (∃ steps final, CycleSearch.Visits graph within (.start graph.stateCount) within.toList steps
          final ∧ steps ≤ graph.stateCount + graph.outgoingCount ∧
        final.cyclic = graph.cyclicStates within) ∧
      (graph.cyclicStates within).Fits graph.stateCount ∧
      ∀ state, (graph.cyclicStates within).contains state = true ↔
        within.contains state = true ∧ graph.OnCycle within state := by
  have hstart := CycleSearch.sound_start graph within
  obtain ⟨steps, hvisits, hspent⟩ := hstart.visits hwithin rfl fun root hroot =>
    StateSet.mem_toList.1 hroot
  have hbudget : (CycleSearch.start graph.stateCount).budget graph ≤ _ :=
    CycleSearch.budget_le graph rfl
  have hcyclic := graph.comprises_cyclicStates hwithin
  refine ⟨⟨steps, _, hvisits, by omega, rfl⟩, hcyclic.toFits, fun state => ?_⟩
  rw [hcyclic.contains_iff, onCycle_iff]
  refine and_congr_left fun hcycle => ?_
  obtain ⟨target, hedge, -⟩ := TransGen.head'_iff.1 hcycle
  exact iff_of_true (hwithin.lt_of_contains hedge.1) hedge.1

/-- A way in, a circle of two states with an edge drawn twice, a way out to a state that leads back
to itself, and another such state. -/
def roundabout : StateGraph :=
  .ofEdges [] [[⟨1, .empty⟩, ⟨3, .empty⟩], [⟨2, .empty⟩, ⟨2, .empty⟩], [⟨1, .empty⟩],
    [⟨3, .empty⟩], [⟨4, .empty⟩]] []

def roundaboutPart : StateSet := [0, 1, 2, 4].foldl StateSet.adjoin (.empty 5)

theorem StateGraph.cyclicStates_exact_roundabout :
    roundaboutPart.Fits roundabout.stateCount ∧
      (∃ steps final, CycleSearch.Visits roundabout roundaboutPart (.start 5) [0, 1, 2, 4] steps
        final ∧ steps ≤ 5 + 7 ∧ final.cyclic.toList = [1, 2, 4]) ∧
      roundabout.OnCycle roundaboutPart 2 ∧ ¬ roundabout.OnCycle roundaboutPart 0 ∧
      ¬ roundabout.OnCycle roundaboutPart 3 := by
  have hfits : roundaboutPart.Fits roundabout.stateCount :=
    (StateSet.comprises_ofList (by decide)).toFits
  obtain ⟨⟨steps, final, hvisits, hsteps, hfinal⟩, -, hcyclic⟩ := cyclicStates_exact hfits
  have hfound : (roundabout.cyclicStates roundaboutPart).toList = [1, 2, 4] := by decide +kernel
  refine ⟨hfits, ⟨steps, final, ?_, hsteps, hfinal ▸ hfound⟩, ?_, ?_, ?_⟩
  · have hroots : roundaboutPart.toList = [0, 1, 2, 4] := by decide +kernel
    rwa [hroots] at hvisits
  · exact ((hcyclic 2).1 (StateSet.mem_toList.1 (by simp [hfound]))).2
  · intro hcycle
    have hmem := StateSet.mem_toList.2 ((hcyclic 0).2 ⟨by decide +kernel, hcycle⟩)
    simp [hfound] at hmem
  · rintro ⟨path, length, -, hfirst, -, hinside, -⟩
    have hstart := hinside 0 (Nat.zero_le length)
    rw [hfirst] at hstart
    exact absurd hstart (by decide +kernel)

end Hazard
