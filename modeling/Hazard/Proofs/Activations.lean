import Hazard.Model.Basic
import Hazard.Proofs.Except
/-!
# The activations of a run

A run has the activations that are given for its first faults, and the declared ones for the others.
Activations beyond the last fault are refused by the model or have no effect.
-/

namespace Hazard

namespace Model

variable {α : Type} {model : Model α} {current later activations used : List Activation}

theorem activate_of_lt {position : Nat} (hlt : position < model.faults.length)
    (current : List Activation) (activation : Activation) :
    model.activate current position activation = .ok (current.set position activation) :=
  if_pos hlt

theorem activate_of_ge {position : Nat} {activation : Activation}
    (hge : model.faults.length ≤ position)
    (hok : model.activate current position activation = .ok later) : later = current := by
  rw [activate, if_neg (by omega)] at hok
  split at hok
  · cases hok
  · cases hok
    rfl

theorem foldlM_activate {position : Nat} (hlength : current.length = model.faults.length)
    (hok : (used.zipIdx position).foldlM
      (fun current entry => model.activate current entry.2 entry.1) current = .ok activations) :
    activations = current.take position ++ used.take (model.faults.length - position) ++
      current.drop (position + used.length) := by
  induction used generalizing position current with
  | nil =>
      cases hok
      simp
  | cons activation rest ih =>
      rw [List.zipIdx_cons, List.foldlM_cons] at hok
      obtain ⟨next, hnext, hrest⟩ := bind_eq_ok.1 hok
      rcases Nat.lt_or_ge position model.faults.length with hlt | hge
      · rw [activate_of_lt hlt] at hnext
        cases hnext
        have hroom : model.faults.length - position = model.faults.length - (position + 1) + 1 := by
          omega
        have htaken : (current.set position activation).take (position + 1) =
            current.take position ++ [activation] := by
          rw [List.take_add_one, List.take_set, List.set_eq_of_length_le (List.length_take_le ..),
            List.getElem?_set_self (by omega), Option.toList_some]
        rw [ih (by simpa using hlength) hrest, htaken, hroom, List.take_succ_cons,
          List.length_cons, List.drop_set_of_lt (by omega), Nat.add_right_comm, ← Nat.add_assoc]
        simp
      · cases activate_of_ge hge hnext
        have hnone : model.faults.length - position = 0 := by omega
        have hnone' : model.faults.length - (position + 1) = 0 := by omega
        rw [ih hlength hrest, hnone, hnone', List.take_of_length_le (by omega),
          List.take_of_length_le (by omega : current.length ≤ position),
          List.drop_of_length_le (by omega), List.drop_of_length_le (by omega)]
        rfl

theorem activateAll_eq_ok (h : model.activateAll used = .ok activations) :
    activations = used.take model.faults.length ++ model.declared.drop used.length := by
  simpa using foldlM_activate (by simp [declared]) h

theorem foldlM_activate_succeeds {position : Nat}
    (hroom : position + used.length ≤ model.faults.length) (current : List Activation) :
    ∃ activations, (used.zipIdx position).foldlM
      (fun current entry => model.activate current entry.2 entry.1) current = .ok activations := by
  induction used generalizing position current with
  | nil => exact ⟨current, rfl⟩
  | cons activation rest ih =>
      rw [List.length_cons] at hroom
      rw [List.zipIdx_cons, List.foldlM_cons, activate_of_lt (by omega)]
      exact ih (by omega) _

theorem activateAll_of_length (hlength : used.length = model.faults.length) :
    model.activateAll used = .ok used := by
  obtain ⟨activations, hok⟩ : ∃ activations, model.activateAll used = .ok activations :=
    foldlM_activate_succeeds (by omega) model.declared
  rw [hok, activateAll_eq_ok hok, List.take_of_length_le (by omega),
    List.drop_of_length_le (by simp [declared, hlength]), List.append_nil]

theorem activateAll_declared (model : Model α) :
    model.activateAll model.declared = .ok model.declared :=
  activateAll_of_length (by simp [declared])

end Model

end Hazard
