import Hazard.Graph.Predecessors
import Mathlib.Data.Finset.Card
import Mathlib.Data.List.Induction
/-!
# Edges sorted by target

Edges are read backwards by a counting sort. The edges into each state are counted, the sums of the
counts say where the sources of each state begin, and a cursor for each state moves on as its
sources are put in place. What ends up between two offsets are the sources of the edges into a
state, all of them and in the order of the edges.
-/

namespace Hazard.Predecessors

variable {states source target other index position : Nat} {edges done rest : List (Nat × Nat)}
  {values : Array Nat}

/-! ## Counting edges -/

def incoming (edges : List (Nat × Nat)) (target : Nat) : List Nat :=
  (edges.filter fun edge => edge.2 == target).map (·.1)

def earlier (edges : List (Nat × Nat)) (target : Nat) : Nat :=
  edges.countP fun edge => edge.2 < target

@[simp] theorem mem_incoming : source ∈ incoming edges target ↔ (source, target) ∈ edges := by
  simp [incoming]

@[simp] theorem incoming_append (first second : List (Nat × Nat)) (target : Nat) :
    incoming (first ++ second) target = incoming first target ++ incoming second target := by
  simp [incoming]

theorem incoming_singleton (edge : Nat × Nat) (target : Nat) :
    incoming [edge] target = if edge.2 = target then [edge.1] else [] := by
  by_cases h : edge.2 = target
  · simp [incoming, h]
  · simp [incoming, h]

theorem earlier_zero (edges : List (Nat × Nat)) : earlier edges 0 = 0 := by
  simp [earlier]

theorem earlier_succ (edges : List (Nat × Nat)) (target : Nat) :
    earlier edges (target + 1) = earlier edges target + (incoming edges target).length := by
  rw [incoming, List.length_map, ← List.countP_eq_length_filter]
  unfold earlier
  induction edges with
  | nil => rfl
  | cons edge rest ih =>
      simp only [List.countP_cons, ih, decide_eq_true_eq, beq_iff_eq]
      rcases Nat.lt_trichotomy edge.2 target with hlt | heq | hgt
      · rw [if_pos (by omega), if_pos hlt, if_neg hlt.ne]
        omega
      · rw [if_pos (by omega), if_neg (by omega), if_pos heq]
        omega
      · rw [if_neg (by omega), if_neg (by omega), if_neg hgt.ne']
        omega

theorem earlier_mono (edges : List (Nat × Nat)) (h : target ≤ other) :
    earlier edges target ≤ earlier edges other := by
  apply List.countP_mono_left
  intro edge _ hedge
  simp only [decide_eq_true_eq] at hedge ⊢
  omega

/-- The places of the sources of one state lie apart from those of another. -/
theorem place_ne (hne : other ≠ target) (hindex : index < (incoming edges other).length)
    (hfirst : earlier edges target ≤ position) (hlast : position < earlier edges (target + 1)) :
    earlier edges other + index ≠ position := by
  have hother := earlier_succ edges other
  rcases Nat.lt_or_gt_of_ne hne with hlt | hgt
  · have hbefore : earlier edges (other + 1) ≤ earlier edges target := earlier_mono edges hlt
    omega
  · have hafter : earlier edges (target + 1) ≤ earlier edges other := earlier_mono edges hgt
    omega

/-! ## Offsets -/

theorem getD_modify {place : Nat} (change : Nat → Nat) (hplace : place < values.size)
    (other : Nat) : (values.modify place change).getD other 0 =
      if other = place then change (values.getD other 0) else values.getD other 0 := by
  rw [Array.getD_eq_getD_getElem?, Array.getElem?_modify, Array.getD_eq_getD_getElem?]
  by_cases hother : place = other
  · subst hother
    simp [hplace]
  · simp [hother, Ne.symm hother]

theorem degrees_append (states : Nat) (edges : List (Nat × Nat)) (edge : Nat × Nat) :
    degrees states (edges ++ [edge]) = (degrees states edges).modify (edge.2 + 1) (· + 1) :=
  List.foldl_append

@[simp] theorem size_degrees (states : Nat) (edges : List (Nat × Nat)) :
    (degrees states edges).size = states + 1 := by
  induction edges using List.reverseRecOn with
  | nil => simp [degrees]
  | append_singleton edges edge ih => rw [degrees_append, Array.size_modify, ih]

theorem getD_degrees (edges : List (Nat × Nat)) (htarget : target < states) :
    (degrees states edges).getD (target + 1) 0 = (incoming edges target).length := by
  induction edges using List.reverseRecOn with
  | nil => simp [degrees, incoming, htarget]
  | append_singleton edges edge ih =>
      rw [degrees_append, incoming_append, incoming_singleton]
      by_cases hinside : edge.2 < states
      · rw [getD_modify _ (by simpa using hinside), ih]
        by_cases hedge : edge.2 = target
        · simp [hedge]
        · simp [hedge, Ne.symm hedge]
      · have hedge : edge.2 ≠ target := by omega
        rw [if_neg hedge, List.append_nil, ← ih]
        simp [Array.getD_eq_getD_getElem?, Array.getElem?_modify, hedge]

theorem getD_degrees_zero (states : Nat) (edges : List (Nat × Nat)) :
    (degrees states edges).getD 0 0 = 0 := by
  induction edges using List.reverseRecOn with
  | nil => simp [degrees]
  | append_singleton edges edge ih =>
      rw [Array.getD_eq_getD_getElem?] at ih ⊢
      rw [degrees_append, Array.getElem?_modify, if_neg (Nat.succ_ne_zero _), ih]

@[simp] theorem size_carry (sums : Array Nat) (state : Nat) :
    (carry sums state).size = sums.size := Array.size_modify

/-- The sums up to `reached` are done, and the counts after it are as they were. -/
theorem carried_sums {reached : Nat} (hreached : reached ≤ states) :
    ((List.range reached).foldl carry (degrees states edges)).size = states + 1 ∧
      ∀ target ≤ states,
        ((List.range reached).foldl carry (degrees states edges)).getD target 0 =
          if target ≤ reached then earlier edges target
          else (degrees states edges).getD target 0 := by
  induction reached with
  | zero =>
      refine ⟨size_degrees states edges, fun target htarget => ?_⟩
      by_cases hzero : target = 0
      · subst hzero
        rw [if_pos (Nat.le_refl 0), earlier_zero]
        exact getD_degrees_zero states edges
      · rw [if_neg (by omega)]
        rfl
  | succ reached ih =>
      obtain ⟨hsize, hsums⟩ := ih (by omega)
      rw [List.range_succ, List.foldl_append]
      refine ⟨(size_carry _ _).trans hsize, fun target htarget => ?_⟩
      have hinside : reached + 1 <
          ((List.range reached).foldl carry (degrees states edges)).size := by omega
      have hcarry := getD_modify (· + earlier edges reached) hinside target
      rw [List.foldl_cons, List.foldl_nil, carry, hsums reached (by omega), if_pos le_rfl, hcarry,
        hsums target htarget]
      rcases Nat.lt_trichotomy target (reached + 1) with hlt | rfl | hgt
      · rw [if_neg hlt.ne, if_pos (by omega), if_pos hlt.le]
      · rw [if_pos rfl, if_neg (by omega), if_pos le_rfl, getD_degrees edges (by omega),
          earlier_succ, Nat.add_comm]
      · rw [if_neg hgt.ne', if_neg (by omega), if_neg (by omega)]

@[simp] theorem size_starts (states : Nat) (edges : List (Nat × Nat)) :
    (starts states edges).size = states + 1 := (carried_sums le_rfl).1

theorem getD_starts (edges : List (Nat × Nat)) (htarget : target ≤ states) :
    (starts states edges).getD target 0 = earlier edges target := by
  rw [starts, (carried_sums le_rfl).2 target htarget, if_pos htarget]

/-! ## Filling in the sources -/

/-- Where the cursors stand and what lies behind them, once the edges of `done` have been put in
place. -/
structure Filled (states : Nat) (edges done : List (Nat × Nat)) (filling : Filling) : Prop where
  sources_size : filling.sources.size = earlier edges states
  cursors_size : filling.cursors.size = states + 1
  cursor : ∀ target ≤ states, filling.cursors[target]? =
    some (earlier edges target + (incoming done target).length)
  placed : ∀ target < states, ∀ index < (incoming done target).length,
    filling.sources[earlier edges target + index]? = (incoming done target)[index]?

theorem filled_nil (states : Nat) (edges : List (Nat × Nat)) :
    Filled states edges []
      ⟨starts states edges, Array.replicate ((starts states edges).getD states 0) 0⟩ where
  sources_size := by rw [Array.size_replicate, getD_starts edges le_rfl]
  cursors_size := size_starts states edges
  cursor := by
    intro target htarget
    have hstart := getD_starts edges htarget
    have hinside : target < (starts states edges).size := by
      rw [size_starts]
      omega
    rw [Array.getD_eq_getD_getElem?, Array.getElem?_eq_getElem hinside] at hstart
    rw [Array.getElem?_eq_getElem hinside]
    exact congrArg some hstart
  placed := by simp [incoming]

theorem length_incoming_le (hcome : done <+: edges) (target : Nat) :
    (incoming done target).length ≤ (incoming edges target).length := by
  obtain ⟨rest, rfl⟩ := hcome
  rw [incoming_append, List.length_append]
  exact Nat.le_add_right _ _

/-- An edge that is still to come finds room before the sources of the next state begin. -/
theorem place_lt (hcome : done ++ [(source, target)] <+: edges) :
    earlier edges target + (incoming done target).length < earlier edges (target + 1) := by
  have hlength := length_incoming_le hcome target
  rw [incoming_append, incoming_singleton, if_pos rfl, List.length_append] at hlength
  rw [earlier_succ]
  exact Nat.add_lt_add_left hlength _

section

variable {filling : Filling} (h : Filled states edges done filling)
include h

/-- An edge to a state out of range has no cursor. -/
theorem Filled.skip (hbeyond : states < target) :
    Filled states edges (done ++ [(source, target)]) (filling.place (source, target)) := by
  have hnone : filling.cursors[target]? = none :=
    Array.getElem?_eq_none (by rw [h.cursors_size]; omega)
  have hincoming (other : Nat) (hother : other ≤ states) :
      incoming (done ++ [(source, target)]) other = incoming done other := by
    rw [incoming_append, incoming_singleton, if_neg (by dsimp only; omega), List.append_nil]
  rw [Filling.place, hnone]
  refine ⟨h.sources_size, h.cursors_size, fun other hother => ?_, fun other hother => ?_⟩
  · rw [hincoming other hother]
    exact h.cursor other hother
  · rw [hincoming other hother.le]
    exact h.placed other hother

/-- A source goes behind those of the same state that came before it, and on top of none. -/
theorem Filled.put (hinside : target ≤ states) (hcome : done ++ [(source, target)] <+: edges) :
    Filled states edges (done ++ [(source, target)]) (filling.place (source, target)) := by
  have hlast := place_lt hcome
  have hincoming (other : Nat) : incoming (done ++ [(source, target)]) other =
      incoming done other ++ if target = other then [source] else [] := by
    rw [incoming_append, incoming_singleton]
  rw [Filling.place, h.cursor target hinside]
  refine ⟨?_, ?_, fun other hother => ?_, fun other hother index hindex => ?_⟩
  · rw [Array.size_setIfInBounds, h.sources_size]
  · rw [Array.size_setIfInBounds, h.cursors_size]
  · rw [hincoming]
    by_cases heq : target = other
    · subst heq
      simp [h.cursors_size, Nat.lt_succ_of_le hinside, Nat.add_assoc]
    · simp [heq, h.cursor other hother]
  · rw [hincoming] at hindex ⊢
    by_cases heq : target = other
    · subst heq
      rw [if_pos rfl] at hindex ⊢
      by_cases hold : index < (incoming done target).length
      · rw [Array.getElem?_setIfInBounds_ne (by omega), h.placed target hother index hold,
          List.getElem?_append_left hold]
      · have hnew : index = (incoming done target).length := by
          rw [List.length_append, List.length_singleton] at hindex
          omega
        have hroom : earlier edges (target + 1) ≤ filling.sources.size := by
          rw [h.sources_size]
          exact earlier_mono edges hother
        subst hnew
        rw [Array.getElem?_setIfInBounds_self_of_lt (by omega), List.getElem?_concat_length]
    · rw [if_neg heq, List.append_nil] at hindex ⊢
      have hlength := length_incoming_le ((List.prefix_append _ _).trans hcome) other
      have hne := place_ne (Ne.symm heq) (hindex.trans_le hlength) (Nat.le_add_right _ _) hlast
      rw [Array.getElem?_setIfInBounds_ne hne.symm]
      exact h.placed other hother index hindex

theorem Filled.foldl (hrest : edges = done ++ rest) :
    Filled states edges edges (rest.foldl Filling.place filling) := by
  induction rest generalizing done filling with
  | nil =>
      rw [List.append_nil] at hrest
      exact hrest ▸ h
  | cons edge rest ih =>
      have hnext : edges = done ++ [edge] ++ rest := by
        rw [hrest, List.append_assoc]
        rfl
      refine ih ?_ hnext
      by_cases hinside : edge.2 ≤ states
      · exact h.put hinside ⟨rest, hnext.symm⟩
      · exact h.skip (Nat.lt_of_not_le hinside)

end

/-! ## The edges into a state -/

@[simp] theorem states_ofEdges (states : Nat) (edges : List (Nat × Nat)) :
    (ofEdges states edges).states = states := by
  rw [Predecessors.states, ofEdges, size_starts, Nat.add_sub_cancel]

theorem of_ofEdges (states : Nat) (edges : List (Nat × Nat)) (target : Nat) :
    (ofEdges states edges).of target = if target < states then incoming edges target else [] := by
  have h := (filled_nil states edges).foldl rfl
  by_cases hinside : target < states
  · rw [if_pos hinside, of, ofEdges]
    dsimp only
    have hnext : target + 1 ≤ states := hinside
    rw [getD_starts edges hinside.le, getD_starts edges hnext]
    have hroom : earlier edges (target + 1) ≤ earlier edges states := earlier_mono edges hnext
    have hcount := earlier_succ edges target
    apply List.ext_getElem?
    intro index
    rw [Array.getElem?_toList, Array.getElem?_extract, h.sources_size]
    by_cases hindex : index < (incoming edges target).length
    · rw [if_pos (by omega)]
      exact h.placed target hinside index hindex
    · rw [if_neg (by omega), List.getElem?_eq_none (Nat.le_of_not_lt hindex)]
  · have hstop : (starts states edges).getD (target + 1) 0 = 0 := by
      rw [Array.getD_eq_getD_getElem?, Array.getElem?_eq_none (by rw [size_starts]; omega)]
      rfl
    rw [if_neg hinside, of, ofEdges]
    dsimp only
    rw [hstop]
    simp

theorem mem_of_ofEdges :
    source ∈ (ofEdges states edges).of target ↔ target < states ∧ (source, target) ∈ edges := by
  rw [of_ofEdges]
  by_cases hinside : target < states
  · simp [hinside]
  · simp [hinside]

end Hazard.Predecessors
