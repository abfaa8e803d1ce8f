import Mathlib.Algebra.BigOperators.Ring.List
import Mathlib.Algebra.Order.BigOperators.Group.List
import Mathlib.Algebra.Order.Field.Rat
import Mathlib.Tactic.Linarith
import Hazard.Markov.ProcessChecker
import Hazard.Proofs.Schedulers
/-!
# Exact expectations

Read on rationals, the sums of the checkers are sums in an ordered field: expectations under a
distribution are monotone and keep constants, and the best of several values is described by what an
objective can secure.
-/

namespace Hazard

theorem Scalar.sum_eq (terms : List ℚ) : Scalar.sum terms = terms.sum := by
  rw [List.sum_eq_foldl]
  rfl

/-! ## Weighted sums -/

namespace Weighted

variable {entries : Weighted ℚ} {value other : Nat → ℚ} {states next : Nat} {bound weight : ℚ}

/-- The weighted sum of the values that a function gives to the states. -/
def mean (entries : Weighted ℚ) (value : Nat → ℚ) : ℚ :=
  (entries.map fun entry => entry.2 * value entry.1).sum

@[simp] theorem mean_nil (value : Nat → ℚ) : mean [] value = 0 := rfl

@[simp] theorem mean_cons (entry : Nat × ℚ) (rest : Weighted ℚ) (value : Nat → ℚ) :
    mean (entry :: rest) value = entry.2 * value entry.1 + rest.mean value := by
  simp [mean]

theorem expectation_eq_mean (entries : Weighted ℚ) (values : Array ℚ) :
    entries.expectation values = entries.mean (values.getD · 0) :=
  Scalar.sum_eq _

structure IsDistribution (entries : Weighted ℚ) (states : Nat) : Prop where
  inside : ∀ entry ∈ entries, entry.1 < states
  nonneg : ∀ entry ∈ entries, 0 ≤ entry.2
  total_eq : entries.total = 1

theorem mean_le_mean (hnonneg : ∀ entry ∈ entries, 0 ≤ entry.2)
    (hle : ∀ state ∈ entries.support, value state ≤ other state) :
    entries.mean value ≤ entries.mean other := by
  apply List.sum_le_sum
  intro entry hentry
  rcases (hnonneg entry hentry).eq_or_lt with hzero | hpos
  · simp [← hzero]
  · exact mul_le_mul_of_nonneg_left (hle entry.1 (mem_support.2 ⟨entry.2, hentry, hpos⟩)) hpos.le

theorem mean_const (entries : Weighted ℚ) (bound : ℚ) :
    entries.mean (fun _ => bound) = entries.total * bound := by
  rw [mean, List.sum_map_mul_right, total, Scalar.sum_eq]

theorem mean_add (entries : Weighted ℚ) (value other : Nat → ℚ) :
    entries.mean (fun state => value state + other state) =
      entries.mean value + entries.mean other := by
  simp only [mean, mul_add, List.sum_map_add]

theorem mean_neg (entries : Weighted ℚ) (value : Nat → ℚ) :
    entries.mean (fun state => -value state) = -entries.mean value := by
  simp only [mean, mul_neg, List.sum_neg, List.map_map, Function.comp_def]

theorem weight_mul_le_mean (value : Nat → ℚ) (hnonneg : ∀ entry ∈ entries, 0 ≤ entry.2)
    (hle : ∀ state ∈ entries.support, 0 ≤ value state) (hnext : (next, weight) ∈ entries) :
    weight * value next ≤ entries.mean value := by
  have hterms : ∀ term ∈ entries.map fun entry => entry.2 * value entry.1, 0 ≤ term := by
    intro term hterm
    obtain ⟨entry, hentry, rfl⟩ := List.mem_map.1 hterm
    rcases (hnonneg entry hentry).eq_or_lt with hzero | hpos
    · simp [← hzero]
    · exact mul_nonneg hpos.le (hle entry.1 (mem_support.2 ⟨entry.2, hentry, hpos⟩))
  exact List.single_le_sum hterms _ (List.mem_map.2 ⟨(next, weight), hnext, rfl⟩)

namespace IsDistribution

theorem mean_const (h : entries.IsDistribution states) (bound : ℚ) :
    entries.mean (fun _ => bound) = bound := by
  rw [Weighted.mean_const, h.total_eq, one_mul]

theorem mean_add_const (h : entries.IsDistribution states) (value : Nat → ℚ) (bound : ℚ) :
    entries.mean (fun state => value state + bound) = entries.mean value + bound := by
  rw [mean_add, h.mean_const]

theorem le_mean (h : entries.IsDistribution states)
    (hle : ∀ state ∈ entries.support, bound ≤ value state) : bound ≤ entries.mean value := by
  rw [← h.mean_const bound]
  exact mean_le_mean h.nonneg hle

theorem mean_le (h : entries.IsDistribution states)
    (hle : ∀ state ∈ entries.support, value state ≤ bound) : entries.mean value ≤ bound := by
  rw [← h.mean_const bound]
  exact mean_le_mean h.nonneg hle

theorem lift_le_mean (h : entries.IsDistribution states) (value : Nat → ℚ)
    (hle : ∀ state ∈ entries.support, bound ≤ value state) (hnext : (next, weight) ∈ entries) :
    bound + weight * (value next - bound) ≤ entries.mean value := by
  have hlift := weight_mul_le_mean (fun state => value state + -bound) h.nonneg
    (fun state hstate => by linarith [hle state hstate]) hnext
  rw [h.mean_add_const] at hlift
  linarith

theorem mean_le_drop (h : entries.IsDistribution states) (value : Nat → ℚ)
    (hle : ∀ state ∈ entries.support, value state ≤ bound) (hnext : (next, weight) ∈ entries) :
    entries.mean value ≤ bound - weight * (bound - value next) := by
  have hlift := h.lift_le_mean (fun state => -value state)
    (fun state hstate => neg_le_neg (hle state hstate)) hnext
  rw [mean_neg] at hlift
  linarith

theorem lt_of_support (h : entries.IsDistribution states) (hnext : next ∈ entries.support) :
    next < states := by
  obtain ⟨weight, hentry, -⟩ := mem_support.1 hnext
  exact h.inside _ hentry

theorem exists_positive (h : entries.IsDistribution states) : ∃ entry ∈ entries, 0 < entry.2 := by
  by_contra hnone
  have hempty : ∀ state ∈ entries.support, (1 : ℚ) ≤ 0 := by
    intro state hstate
    obtain ⟨weight, hentry, hpos⟩ := mem_support.1 hstate
    exact absurd ⟨_, hentry, hpos⟩ hnone
  have hsum : entries.mean (fun _ => 1) ≤ entries.mean fun _ => 0 := mean_le_mean h.nonneg hempty
  rw [h.mean_const, h.mean_const] at hsum
  norm_num at hsum

end IsDistribution

end Weighted

/-! ## The best of several values -/

/-- What the one who chooses can secure: some item has it for a maximum, every one for a minimum. -/
def Objective.Secures {β : Type} : Objective → List β → (β → Prop) → Prop
  | .maximize, items, wanted => ∃ item ∈ items, wanted item
  | .minimize, items, wanted => ∀ item ∈ items, wanted item

namespace Objective

variable {β : Type} {objective : Objective} {items : List β} {wanted wanted' : β → Prop}

theorem Secures.imp (himp : ∀ item ∈ items, wanted item → wanted' item)
    (h : objective.Secures items wanted) : objective.Secures items wanted' := by
  cases objective with
  | maximize =>
      obtain ⟨item, hitem, hwanted⟩ := h
      exact ⟨item, hitem, himp item hitem hwanted⟩
  | minimize => exact fun item hitem => himp item hitem (h item hitem)

theorem Secures.exists (hne : items ≠ []) (h : objective.Secures items wanted) :
    ∃ item ∈ items, wanted item := by
  cases objective with
  | maximize => exact h
  | minimize =>
      obtain ⟨item, hitem⟩ := List.exists_mem_of_ne_nil items hne
      exact ⟨item, hitem, h item hitem⟩

theorem secures_of_forall (hne : items ≠ []) (h : ∀ item ∈ items, wanted item) :
    objective.Secures items wanted := by
  cases objective with
  | maximize =>
      obtain ⟨item, hitem⟩ := List.exists_mem_of_ne_nil items hne
      exact ⟨item, hitem, h item hitem⟩
  | minimize => exact h

end Objective

theorem Scalar.select_cons {choose : ℚ → ℚ → ℚ} (first : ℚ) (rest : List ℚ) :
    Scalar.select choose (first :: rest) = some (rest.foldl choose first) := by
  change rest.foldl _ (some first) = _
  induction rest generalizing first with
  | nil => rfl
  | cons second rest ih => exact ih (choose first second)

theorem Scalar.le_least {bound x y : ℚ} : bound ≤ Scalar.least x y ↔ bound ≤ x ∧ bound ≤ y := by
  change bound ≤ (if y < x then y else x) ↔ _
  split
  · next h => exact ⟨fun hy => ⟨hy.trans h.le, hy⟩, And.right⟩
  · next h => exact ⟨fun hx => ⟨hx, hx.trans (not_lt.1 h)⟩, And.left⟩

theorem Scalar.le_greatest {bound x y : ℚ} :
    bound ≤ Scalar.greatest x y ↔ bound ≤ x ∨ bound ≤ y := by
  change bound ≤ (if x < y then y else x) ↔ _
  split
  · next h => exact ⟨.inr, fun hxy => hxy.elim (fun hx => hx.trans h.le) id⟩
  · next h => exact ⟨.inl, fun hxy => hxy.elim id fun hy => hy.trans (not_lt.1 h)⟩

theorem Objective.le_pick_iff {objective : Objective} {values : List ℚ} {bound : ℚ}
    (hne : values ≠ []) :
    bound ≤ objective.pick values ↔ objective.Secures values (bound ≤ ·) := by
  obtain ⟨first, rest, rfl⟩ := List.exists_cons_of_ne_nil hne
  cases objective with
  | minimize =>
      rw [pick, Scalar.leastOf, Scalar.select_cons, Option.getD_some]
      induction rest generalizing first with
      | nil => simp [Secures]
      | cons second rest ih =>
          rw [List.foldl_cons, ih _ (by simp)]
          simp [Secures, Scalar.le_least, and_assoc]
  | maximize =>
      rw [pick, Scalar.greatestOf, Scalar.select_cons, Option.getD_some]
      induction rest generalizing first with
      | nil => simp [Secures]
      | cons second rest ih =>
          rw [List.foldl_cons, ih _ (by simp)]
          simp [Secures, Scalar.le_greatest, or_assoc]

end Hazard
