import Hazard.Proofs.Runs
import Hazard.Proofs.Observers
/-!
# How explorations fail

Under an observer that refuses nothing, an exploration that comes to no end has run out of room, was
asked for what cannot be done, or has met a state in which the model failed.
-/

namespace Hazard

namespace Traversal

variable {α σ : Type} {plan : Plan α σ} {origin : Origin} {before : Exploration σ}
  {cause : TraversalError α} {source done : Nat}

theorem eq_of_modelState? {vector state : Bytes} (h : modelState? vector = some state) :
    vector = regular :: state := by
  cases vector with
  | nil => cases h
  | cons header rest =>
      rw [modelState?] at h
      split at h
      · next hheader =>
        cases h
        rw [hheader]
      · cases h

theorem stepError_failure (exploration : Exploration σ) (origin : Origin) (error : ModelError) :
    (stepError exploration origin (.failure error) : TraversalError α) =
      .model origin (wayTo exploration.storage exploration.parents origin) error := by
  cases origin <;> rfl

/-- The exploration has run out of room, or was asked for what cannot be done. -/
inductive Obstructed : TraversalError α → Prop
  | exhausted (exhausted : Exhausted) : Obstructed (.exhausted exhausted)
  | misuse (misuse : Misuse) : Obstructed (.misuse misuse)

/-- The model fails at a source to which the reported way leads: it gives up, or one of its
candidates has the wrong size. -/
def FailsAt (scenario : Scenario α) (origin : Origin) (path : List Bytes) (error : ModelError) :
    Prop :=
  ∃ (done : Nat) (storage : Storage) (parents : Array Origin) (source : Option Bytes),
    Discovered scenario done storage.vectors parents ∧
    Scenario.Source storage.vectors origin source ∧
    (scenario.proposes source).bind (labelled scenario.model) = .error (.failure error) ∧
    path = wayTo storage parents origin

def Blames (scenario : Scenario α) (cause : TraversalError α) : Prop :=
  ∃ origin path error, cause = .model origin path error ∧ FailsAt scenario origin path error

/-! ## One expansion -/

section Step

variable (hrefuses : plan.observer.NeverRefuses)
include hrefuses

theorem obstructed_of_publish {intake : Intake α} {agenda : Agenda σ}
    (h : publish plan origin intake agenda = .error cause) : Obstructed cause := by
  obtain ⟨pending, count, stopped, watcher⟩ := agenda
  rw [publish] at h
  split at h
  · cases h
    exact .exhausted _
  · obtain ⟨next, verdict, hshown⟩ := hrefuses watcher origin intake.transitions
    rw [hshown] at h
    cases h

theorem advance_eq_error {source : Option Bytes}
    (h : advance plan origin (plan.scenario.proposes source) before = .error cause)
    (hdiscovered : Discovered plan.scenario done before.storage.vectors before.parents)
    (hsource : Scenario.Source before.storage.vectors origin source) :
    Obstructed cause ∨ Blames plan.scenario cause := by
  rw [advance] at h
  split at h
  · next cause hproposed =>
    cases h
    cases cause with
    | misuse misuse => exact .inl (.misuse misuse)
    | failure error =>
        exact .inr ⟨origin, _, error, stepError_failure before origin error, done,
          before.storage, before.parents, source, hdiscovered, hsource, hproposed, rfl⟩
  · obtain ⟨storage, parents, agenda⟩ := before
    rw [commit] at h
    split at h
    · cases h
      exact .inl (.exhausted _)
    · exact .inl (obstructed_of_publish hrefuses h)

theorem expandInitial_eq_error (h : expandInitial plan before = .error cause)
    (hdiscovered : Discovered plan.scenario done before.storage.vectors before.parents) :
    Obstructed cause ∨ Blames plan.scenario cause := by
  have hinitial : advance plan none (plan.scenario.proposes none) before = .error cause := h
  exact advance_eq_error hrefuses hinitial hdiscovered .initial

variable [Scalar α]

/-- The model fails in regular states only. -/
theorem expand_eq_error (h : expand plan before source = .error cause)
    (hdiscovered : Discovered plan.scenario done before.storage.vectors before.parents) :
    Obstructed cause ∨ Blames plan.scenario cause := by
  rw [expand] at h
  split at h
  · cases h
    exact .inl (.misuse _)
  · next vector hget =>
    have hvector : before.storage.vectors[source]? = some vector := by
      rw [Storage.get] at hget
      split at hget
      · next stored hstored =>
        cases hget
        exact hstored
      · cases hget
    split at h
    · next state hstate =>
      rw [eq_of_modelState? hstate] at hvector
      exact advance_eq_error hrefuses h hdiscovered (.state hvector)
    · exact .inl (obstructed_of_publish hrefuses h)

end Step

/-! ## The whole exploration -/

variable [Scalar α]

/-- A run that fails does so in an expansion, and everything before has handed on what it should. -/
theorem run_fails {motive : Nat → Exploration σ → Prop}
    (hstep : ∀ steps before source rest after, motive steps before →
      before.agenda.pending = source :: rest → before.agenda.stopped = false →
        expand plan (pop before rest) source = .ok after → motive (steps + 1) after)
    {fuel steps : Nat} {start : Exploration σ} (hstart : motive steps start)
    (h : run plan fuel start = .error cause) :
    ∃ steps before source rest, motive steps before ∧
      expand plan (pop before rest) source = .error cause := by
  induction fuel generalizing steps start with
  | zero => cases h
  | succ fuel ih =>
      obtain ⟨storage, parents, pending, count, stopped, current⟩ := start
      cases stopped with
      | true => cases pending <;> cases h
      | false =>
          cases pending with
          | nil => cases h
          | cons source rest =>
              rw [run] at h
              split at h
              · next hfails =>
                cases h
                exact ⟨steps, _, source, rest, hstart, hfails⟩
              · next next hnext => exact ih (hstep steps _ source rest next hstart rfl rfl hnext) h

theorem traverse_eq_error {model : Model α} {config : TraversalConfig}
    {options : TraversalOptions α} {observer : Observer α σ} {watcher : σ}
    (hrefuses : observer.NeverRefuses)
    (h : traverse model config options observer watcher = .error cause) :
    Obstructed cause ∨ (IndexSet.limit < model.propositions.length ∧
        cause = .propositionLimit model.propositions.length) ∨
      ∃ activations, model.activateAll (options.activations.getD []) = .ok activations ∧
        model.propositions.length ≤ IndexSet.limit ∧
        Blames ⟨model, activations, options.modifiers⟩ cause := by
  rw [traverse] at h
  split at h
  · cases h
    exact .inl (.misuse _)
  · next activations hactivations =>
    split at h
    · next hlimit =>
      cases h
      exact .inr (.inl ⟨hlimit, rfl⟩)
    · next hlimit =>
      split at h
      · cases h
        exact .inl (.misuse _)
      · next storage hcreate =>
        obtain ⟨hsound, hempty, -⟩ := Storage.sound_create hcreate
        have hplan : (planFor model activations config options observer).observer.NeverRefuses :=
          hrefuses
        have hnothing : Discovered ⟨model, activations, options.modifiers⟩ 0 storage.vectors
            #[] := by
          rw [hempty]
          exact discovered_nothing _
        have hfails : Obstructed cause ∨ Blames ⟨model, activations, options.modifiers⟩ cause := by
          rcases bind_eq_error.1 h with hinitial | ⟨started, hstarted, h⟩
          · exact expandInitial_eq_error hplan hinitial hnothing
          · rcases bind_eq_error.1 h with hrun | ⟨done, -, h⟩
            · obtain ⟨steps, before, source, rest, hbefore, hexpand⟩ :=
                run_fails (fun _ _ _ _ _ hbefore hpending _ => hbefore.step hpending)
                  (progressed_initial hsound hempty hstarted) hrun
              exact expand_eq_error hplan hexpand hbefore.1
            · cases h
        exact hfails.imp_right fun hblames =>
          .inr ⟨activations, hactivations, Nat.le_of_not_lt hlimit, hblames⟩

end Traversal

end Hazard
