import Hazard.Proofs.Components
import Mathlib.Algebra.Order.BigOperators.Group.Finset
/-!
# States on cycles

The search takes at most one step for each state and each edge, so it is never cut short, and what
it collects are exactly the states on a cycle.
-/

namespace Hazard

open Relation

namespace CycleSearch

variable {graph : StateGraph} {within : StateSet} {search : CycleSearch} {state other : Nat}

/-! ## The number of steps -/

/-- The steps that states not yet entered will take: a look along every edge, and leaving. -/
def fresh (graph : StateGraph) (search : CycleSearch) : Nat :=
  ∑ state ∈ (Finset.range graph.stateCount).filter (search.numberOf · = none),
    ((graph.successors state).length + 1)

def budget (graph : StateGraph) (search : CycleSearch) : Nat :=
  (search.frames.map fun frame => frame.ahead.length + 1).sum + search.fresh graph

theorem fresh_congr {after : CycleSearch} (hnumber : after.number = search.number) :
    after.fresh graph = search.fresh graph := by
  have hsame : after.numberOf = search.numberOf := by
    funext state
    rw [numberOf, numberOf, hnumber]
  rw [fresh, fresh, hsame]

theorem budget_enter (hsize : search.number.size = graph.stateCount)
    (hlt : state < graph.stateCount) (hnew : search.numberOf state = none) :
    (search.enter graph state).budget graph = search.budget graph := by
  have herase : ((Finset.range graph.stateCount).filter
        ((search.enter graph state).numberOf · = none)) =
      ((Finset.range graph.stateCount).filter (search.numberOf · = none)).erase state := by
    ext other
    simp only [Finset.mem_filter, Finset.mem_erase, numberOf_enter (hsize ▸ hlt)]
    by_cases hother : other = state
    · simp [hother]
    · simp [hother]
  have hmem : state ∈ (Finset.range graph.stateCount).filter (search.numberOf · = none) := by
    simp [hlt, hnew]
  rw [budget, budget, fresh, fresh, herase, ← Finset.add_sum_erase _ _ hmem]
  simp only [enter, List.map_cons, List.sum_cons]
  omega

theorem budget_le (graph : StateGraph) (hframes : search.frames = []) :
    search.budget graph ≤ graph.stateCount + graph.outgoingCount := by
  have hcount : graph.outgoingCount =
      ∑ state ∈ Finset.range graph.stateCount, (graph.successors state).length := by
    rw [StateGraph.outgoingCount, List.length_flatMap, Finset.sum, Finset.range_val, Multiset.range,
      Multiset.map_coe, Multiset.sum_coe]
    simp only [StateGraph.successors, List.length_map]
  calc search.budget graph
      = search.fresh graph := by simp [budget, hframes]
    _ ≤ ∑ state ∈ Finset.range graph.stateCount, ((graph.successors state).length + 1) :=
        Finset.sum_le_sum_of_subset (Finset.filter_subset _ _)
    _ = graph.stateCount + graph.outgoingCount := by
        rw [Finset.sum_add_distrib, ← hcount]
        simp [add_comm]

theorem leave_kept (graph : StateGraph) (search : CycleSearch) (state : Nat)
    (frames : List Frame) :
    (search.leave graph state frames).number = search.number ∧
      (search.leave graph state frames).frames = frames := by
  unfold leave
  cases frames <;> dsimp only <;> split <;> exact ⟨rfl, rfl⟩

/-- Every step takes one off the budget, and no state loses its number. -/
theorem Sound.step_progress (hwithin : within.Fits graph.stateCount)
    (hsound : search.Sound graph within fun _ _ => False) (hframes : search.frames ≠ []) :
    (search.step graph within).budget graph + 1 = search.budget graph ∧
      ∀ state, search.Entered state → (search.step graph within).Entered state := by
  rw [CycleSearch.step]
  split
  · next hempty => exact absurd hempty hframes
  · next state successor ahead frames hframes =>
    obtain ⟨popped, hpopped⟩ : ∃ popped : CycleSearch,
      { search with frames := ⟨state, ahead⟩ :: frames } = popped := ⟨_, rfl⟩
    have hsize : popped.number.size = graph.stateCount := hpopped ▸ hsound.number_size
    have hkept : ∀ other, search.Entered other → popped.Entered other := hpopped ▸ fun _ h => h
    have hbudget : popped.budget graph + 1 = search.budget graph := by
      have hfresh : popped.fresh graph = search.fresh graph := fresh_congr (by rw [← hpopped])
      have hrest : popped.frames = ⟨state, ahead⟩ :: frames := by rw [← hpopped]
      simp only [budget, hfresh, hframes, hrest, List.map_cons, List.sum_cons, List.length_cons]
      omega
    rw [hpopped]
    rcases look_cases graph within popped state successor with
      ⟨-, hlook⟩ | ⟨hin, hnew, hlook⟩ | ⟨number, -, -, hlook⟩ | ⟨-, -, hlook⟩
    · rw [hlook]
      exact ⟨hbudget, hkept⟩
    · have hlt := hwithin.lt_of_contains hin
      rw [hlook, budget_enter hsize hlt hnew]
      exact ⟨hbudget, fun other h => (entered_enter (hsize ▸ hlt)).2 (.inr (hkept other h))⟩
    · rw [hlook]
      exact ⟨hbudget, hkept⟩
    · rw [hlook]
      exact ⟨hbudget, hkept⟩
  · next state frames hframes =>
    obtain ⟨hnumber, hrest⟩ := leave_kept graph search state frames
    refine ⟨?_, fun other h => ?_⟩
    · simp only [budget, fresh_congr hnumber, hrest, hframes, List.map_cons, List.sum_cons,
        List.length_nil]
      omega
    · simpa only [Entered, numberOf, hnumber] using h

/-! ## The whole search -/

theorem Sound.run (hwithin : within.Fits graph.stateCount)
    (hsound : search.Sound graph within fun _ _ => False) {fuel : Nat}
    (hfuel : search.budget graph ≤ fuel) :
    (search.run graph within fuel).Sound graph within (fun _ _ => False) ∧
      (search.run graph within fuel).frames = [] ∧
      ∀ state, search.Entered state → (search.run graph within fuel).Entered state := by
  induction fuel generalizing search with
  | zero =>
      refine ⟨hsound, ?_, fun _ h => h⟩
      by_contra hframes
      have := (hsound.step_progress hwithin hframes).1
      omega
  | succ fuel ih =>
      rw [CycleSearch.run]
      split
      · next hframes => exact ⟨hsound, hframes, fun _ h => h⟩
      · next hframes =>
        obtain ⟨hbudget, hentered⟩ := hsound.step_progress hwithin (by simp [hframes])
        obtain ⟨hfinal, hdone, hkept⟩ := ih (hsound.step hwithin) (by omega)
        exact ⟨hfinal, hdone, fun state h => hkept state (hentered state h)⟩

theorem Sound.visit (hwithin : within.Fits graph.stateCount)
    (hsound : search.Sound graph within fun _ _ => False) (hframes : search.frames = [])
    {root : Nat} (hroot : within.contains root = true) :
    (search.visit graph within root).Sound graph within (fun _ _ => False) ∧
      (search.visit graph within root).frames = [] ∧
      (search.visit graph within root).Entered root ∧
      ∀ state, search.Entered state → (search.visit graph within root).Entered state := by
  rw [CycleSearch.visit]
  split
  · next number hnumber => exact ⟨hsound, hframes, by simp [Entered, hnumber], fun _ h => h⟩
  · next hnumber =>
    have hlt := hwithin.lt_of_contains hroot
    have hsize := hsound.number_size
    have hunder : search.underWay = [] := by simp [underWay, hframes]
    have hentered := hsound.enter hwithin hroot (not_not.2 hnumber) (by simp [hunder])
    have hfuel := budget_enter hsize hlt hnumber ▸ budget_le graph hframes
    obtain ⟨hfinal, hdone, hkept⟩ := hentered.run hwithin hfuel
    refine ⟨hfinal, hdone, hkept root ?_, fun state h => hkept state ?_⟩
    · exact (entered_enter (hsize ▸ hlt)).2 (.inl rfl)
    · exact (entered_enter (hsize ▸ hlt)).2 (.inr h)

theorem Sound.foldl_visit (hwithin : within.Fits graph.stateCount)
    (hsound : search.Sound graph within fun _ _ => False) (hframes : search.frames = [])
    {roots : List Nat} (hroots : ∀ root ∈ roots, within.contains root = true) :
    (roots.foldl (CycleSearch.visit graph within) search).Sound graph within (fun _ _ => False) ∧
      (roots.foldl (CycleSearch.visit graph within) search).frames = [] ∧
      (∀ root ∈ roots, (roots.foldl (CycleSearch.visit graph within) search).Entered root) ∧
      ∀ state, search.Entered state →
        (roots.foldl (CycleSearch.visit graph within) search).Entered state := by
  induction roots generalizing search with
  | nil => exact ⟨hsound, hframes, by simp, fun _ h => h⟩
  | cons root roots ih =>
      obtain ⟨hvisited, hdone, hroot, hkept⟩ := hsound.visit hwithin hframes (hroots root (by simp))
      obtain ⟨hfinal, hend, hall, hkept'⟩ :=
        ih hvisited hdone fun other hother => hroots other (by simp [hother])
      refine ⟨hfinal, hend, ?_, fun state h => hkept' state (hkept state h)⟩
      intro other hother
      rcases List.mem_cons.1 hother with rfl | hother
      · exact hkept' other hroot
      · exact hall other hother

end CycleSearch

theorem StateGraph.comprises_cyclicStates {graph : StateGraph} {within : StateSet}
    (hwithin : within.Fits graph.stateCount) :
    (graph.cyclicStates within).Comprises graph.stateCount
      fun state => TransGen (graph.Inside within) state state := by
  obtain ⟨hsound, hframes, hroots, -⟩ := (CycleSearch.sound_start graph within).foldl_visit hwithin
    rfl fun root hroot => StateSet.mem_toList.1 hroot
  rw [cyclicStates]
  generalize within.toList.foldl (CycleSearch.visit graph within)
    (CycleSearch.start graph.stateCount) = final at *
  refine ⟨hsound.cyclic_fits, fun state => ?_⟩
  have htrail (other : Nat) : other ∉ final.trail := by
    intro hother
    obtain ⟨owner, howner, -⟩ := hsound.leads_back hother
    simp [CycleSearch.underWay, hframes] at howner
  rw [hsound.cyclic_iff]
  constructor
  · rintro ⟨hclosed, hcycle⟩
    exact ⟨hwithin.lt_of_contains (hsound.within_of_entered hclosed.1), hcycle⟩
  · rintro ⟨-, hcycle⟩
    obtain ⟨target, hedge, -⟩ := TransGen.head'_iff.1 hcycle
    exact ⟨⟨hroots state (StateSet.mem_toList.2 hedge.1), htrail state⟩, hcycle⟩

end Hazard
