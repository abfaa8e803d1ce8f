import Hazard.Proofs.Discovery
import Hazard.Proofs.IndexSet
import Hazard.Proofs.Predicate
/-!
# Runs of a model

A run starts with a valid initial transition and goes on with valid transitions. In a model that
never stutters, the stored vectors are the last states of runs, and the way back from a stored
state is a run that leads there, no longer than any other.
-/

namespace Hazard

namespace Model

variable {α : Type}

/-- The model proposes a valid transition to the target, from a state or initially. -/
def Leads (model : Model α) (activations : List Activation) (source : Option Bytes)
    (target : Bytes) : Prop :=
  ∃ proposed, (⟨model, activations, []⟩ : Scenario α).proposes source = .ok proposed ∧
    ∃ candidate ∈ proposed, candidate.valid = true ∧ candidate.target = target

inductive Run (model : Model α) (activations : List Activation) : List Bytes → Bytes → Prop
  | start {state : Bytes} (hstart : model.Leads activations none state) :
      Run model activations [state] state
  | step {states : List Bytes} {before after : Bytes} (hrun : Run model activations states before)
      (hstep : model.Leads activations (some before) after) :
      Run model activations (states ++ [after]) after

def NeverStutters (model : Model α) : Prop :=
  ∀ activations source proposed,
    (⟨model, activations, []⟩ : Scenario α).proposes source = .ok proposed →
      ∀ candidate ∈ proposed, candidate.stuttering = false

/-- The states of a model with what holds in them; a name stands for its first position. -/
def system (model : Model α) (activations : List Activation) : TransitionSystem Bytes where
  next before after := model.Leads activations (some before) after
  holds state name := ∃ position, model.propositions.idxOf? name = some position ∧
    model.holds state position = true

variable {model : Model α} {activations : List Activation}

theorem describes_label (hroom : model.propositions.length ≤ IndexSet.limit) (state : Bytes) :
    Predicate.Describes model.propositions (model.label state) (model.system activations)
      state := by
  intro name position hname
  have hlt : position < model.propositions.length := by
    rw [List.idxOf?_eq_some_iff] at hname
    exact hname.1
  have hlimit : IndexSet.limit = 64 := rfl
  unfold label
  rw [IndexSet.contains_ofTest]
  constructor
  · rintro ⟨-, hholds⟩
    simp only [hlt, decide_true, Bool.true_and] at hholds
    exact ⟨position, hname, hholds⟩
  · rintro ⟨other, hother, hholds⟩
    rw [hname] at hother
    cases hother
    exact ⟨by omega, by simp [hlt, hholds]⟩

theorem mem_counted {proposed : List (Candidate α)} {candidate : Candidate α} :
    candidate ∈ (⟨model, activations, []⟩ : Scenario α).counted proposed ↔
      ∃ original ∈ proposed, original.valid = true ∧
        { original with label := model.label original.target } = candidate := by
  unfold Scenario.counted
  simp only [List.foldl_nil, List.mem_filter, List.mem_map]
  constructor
  · rintro ⟨⟨original, horiginal, rfl⟩, hvalid⟩
    exact ⟨original, horiginal, hvalid, rfl⟩
  · rintro ⟨original, horiginal, hvalid, rfl⟩
    exact ⟨⟨original, horiginal, rfl⟩, hvalid⟩

theorem yields_iff (hnever : model.NeverStutters) {source : Option Bytes} {vector : Bytes} :
    (⟨model, activations, []⟩ : Scenario α).Yields source vector ↔
      ∃ state, vector = Traversal.regular :: state ∧ model.Leads activations source state := by
  constructor
  · rintro ⟨_, ⟨proposed, hproposed, rfl⟩, candidate, hcandidate, rfl⟩
    obtain ⟨original, horiginal, hvalid, rfl⟩ := mem_counted.1 hcandidate
    have hregular := hnever activations source proposed hproposed original horiginal
    exact ⟨original.target, by simp [Traversal.image, hregular], proposed, hproposed, original,
      horiginal, hvalid, rfl⟩
  · rintro ⟨_, rfl, proposed, hproposed, candidate, hcandidate, hvalid, rfl⟩
    have hregular := hnever activations source proposed hproposed candidate hcandidate
    refine ⟨_, ⟨proposed, hproposed, rfl⟩,
      { candidate with label := model.label candidate.target }, ?_, ?_⟩
    · exact mem_counted.2 ⟨candidate, hcandidate, hvalid, rfl⟩
    · simp [Traversal.image, hregular]

end Model

namespace Traversal

variable {α : Type} {model : Model α} {activations : List Activation} {done : Nat}
  {storage : Storage} {parents : Array Origin}

variable (hnever : model.NeverStutters)
  (h : Discovered ⟨model, activations, []⟩ done storage.vectors parents)

include hnever h

theorem Discovered.regular_of_mem (vector : Bytes) (hvector : vector ∈ storage.vectors) :
    ∃ state, vector = regular :: state := by
  obtain ⟨index, hindex⟩ := Array.getElem?_of_mem hvector
  obtain ⟨_, _, -, -, hyields⟩ := h.found index vector hindex
  obtain ⟨state, hstate, -⟩ := (Model.yields_iff hnever).1 hyields
  exact ⟨state, hstate⟩

/-- The way back from a stored state is a run that leads there. -/
theorem Discovered.run_trace {index : Nat} {state : Bytes}
    (hindex : storage.vectors[index]? = some (regular :: state)) :
    model.Run activations (trace storage parents index) state := by
  induction index using Nat.strongRecOn generalizing state with
  | ind index ih =>
      obtain ⟨origin, source, hparent, hsource, hyields⟩ := h.found index _ hindex
      obtain ⟨target, htarget, hleads⟩ := (Model.yields_iff hnever).1 hyields
      cases htarget
      rw [h.trace_eq hindex hparent]
      cases hsource with
      | initial => exact .start hleads
      | state hbefore =>
          exact .step (ih _ (h.older index _ hparent) hbefore) hleads

/-- A run leads to a stored state over a way that is no shorter, or an origin that is still to be
expanded is nearer than its end. -/
theorem Discovered.run_cases {states : List Bytes} {last : Bytes} (hdone : 0 < done)
    (hrun : model.Run activations states last) :
    (∃ index, storage.vectors[index]? = some (regular :: last) ∧
      (trace storage parents index).length ≤ states.length) ∨
    ∃ index < storage.vectors.size, done ≤ rank (some index) ∧
      (trace storage parents index).length < states.length := by
  have hregular := h.regular_of_mem hnever
  induction hrun with
  | @start state hstart =>
      have hyields : (⟨model, activations, []⟩ : Scenario α).Yields none (regular :: state) :=
        (Model.yields_iff hnever).2 ⟨state, rfl, hstart⟩
      obtain ⟨index, parent, hindex, hparent, hle⟩ := h.earliest none none _ hdone .initial hyields
      have hnone : parent = none := rank_injective (Nat.le_zero.1 hle)
      subst hnone
      refine .inl ⟨index, hindex, ?_⟩
      simp [h.trace_eq hindex hparent, wayTo]
  | @step states before after hrun hstep ih =>
      rcases ih with ⟨index, hindex, hlength⟩ | ⟨index, hindex, hopen, hlength⟩
      -- an expanded state hands its successors on; one that waits is itself the nearer origin
      · rcases Nat.lt_or_ge (rank (some index)) done with hexpanded | hopen
        · have hyields : (⟨model, activations, []⟩ : Scenario α).Yields (some before)
              (regular :: after) := (Model.yields_iff hnever).2 ⟨after, rfl, hstep⟩
          obtain ⟨later, parent, hlater, hparent, hle⟩ :=
            h.earliest (some index) (some before) _ hexpanded (.state hindex) hyields
          have hsize : rank (some index) ≤ storage.vectors.size :=
            (Array.getElem?_eq_some_iff.1 hindex).1
          have hway : (wayTo storage parents parent).length ≤
              (trace storage parents index).length := h.length_wayTo_le hregular hsize hle
          refine .inl ⟨later, hlater, ?_⟩
          rw [h.trace_eq hlater hparent]
          simp only [List.length_append, List.length_singleton]
          omega
        · refine .inr ⟨index, (Array.getElem?_eq_some_iff.1 hindex).1, hopen, ?_⟩
          simp only [List.length_append, List.length_singleton]
          omega
      · refine .inr ⟨index, hindex, hopen, ?_⟩
        simp only [List.length_append, List.length_singleton]
        omega

end Traversal

end Hazard
