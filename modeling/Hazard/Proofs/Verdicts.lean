import Hazard.Proofs.RecordedCounterexamples
/-!
# What the verdict of a check means

A check shows a fault set critical exactly if some run comes to a state that violates the invariant,
or to one in which the model proposes nothing. It does not matter where the exploration stopped and
in which order it found the states.
-/

namespace Hazard

open Traversal

namespace Traversal

variable {α σ : Type}

theorem labelled_succeeds {model : Model α} {proposed : List (Candidate α)}
    (hsized : ∀ candidate ∈ proposed, candidate.target.length = model.stateSize) :
    ∃ candidates, labelled model proposed = .ok candidates := by
  induction proposed with
  | nil => exact ⟨[], rfl⟩
  | cons candidate rest ih =>
      obtain ⟨others, hothers⟩ := ih fun other hother => hsized other (by simp [hother])
      rw [labelled, if_pos (hsized candidate (by simp))]
      exact ⟨_, bind_eq_ok.2 ⟨others, hothers, rfl⟩⟩

variable [Scalar α] {plan : Plan α σ} {watcher : σ} {steps : Nat}
  {stream : List (Origin × List (Transition α))} {after : Exploration σ}

theorem Explored.exists_offers (h : Explored plan watcher steps stream after)
    (hall : steps = after.storage.size) {origin : Origin} {source : Option Bytes}
    (hsource : Scenario.Source after.storage.vectors origin source) :
    ∃ candidates, plan.scenario.Offers source candidates := by
  have horigin : ∀ index ∈ origin, index < steps := by
    cases hsource with
    | initial => simp
    | @state index state hindex =>
        have hlt : index < after.storage.vectors.size := (Array.getElem?_eq_some_iff.1 hindex).1
        simpa [hall, h.sound.size_eq] using hlt
  obtain ⟨batch, hentry⟩ := h.exists_batch horigin
  obtain ⟨candidates, hoffers, -⟩ := (h.batches _ hentry).reports_of_source hsource
  exact ⟨candidates, hoffers⟩

variable {model : Model α} {config : TraversalConfig} {options : TraversalOptions α}
  {predicate : Predicate} {space : StateSpace}

/-- A search is stopped by a violation only. -/
theorem goes_of_unviolated
    (h : traverse model config options (violationObserver predicate) none = .ok (space, none)) :
    space.stopped = false := by
  have hstopped : space.stopped = true → (none : Option Nat) ≠ none := by
    refine traverse_keeps (motive := fun stopped watcher => stopped = true → watcher ≠ none) ?_
      (by simp) h
    intro stopped watcher origin batch next verdict hbefore hshown
    rcases violationObserver_cases hshown with ⟨rfl, rfl, -⟩ | ⟨rfl, transition, -, -, rfl⟩
    · simpa using hbefore
    · cases watcher <;> simp
  simpa using hstopped

end Traversal

/-! ## Endangered models -/

namespace Model

variable {α : Type}

def WellSized (model : Model α) : Prop :=
  ∀ activations source proposed,
    (⟨model, activations, []⟩ : Scenario α).proposes source = .ok proposed →
      ∀ candidate ∈ proposed, candidate.target.length = model.stateSize

/-- The model proposes nothing in a state, or initially. -/
def Fails (model : Model α) (activations : List Activation) (source : Option Bytes) : Prop :=
  ∀ proposed, (⟨model, activations, []⟩ : Scenario α).proposes source ≠ .ok proposed

inductive Met (model : Model α) (activations : List Activation) : Option Bytes → Prop
  | initial : Met model activations none
  | state {states : List Bytes} {last : Bytes} (hrun : model.Run activations states last) :
      Met model activations (some last)

/-- Some run comes to a state whose label violates the predicate. -/
def Violates (model : Model α) (activations : List Activation) (predicate : Predicate) : Prop :=
  ∃ states last, model.Run activations states last ∧
    predicate.evaluate (model.label last) = false

/-- Some run comes to a state that violates the predicate, or to one where the model fails. -/
def Endangered (model : Model α) (activations : List Activation) (predicate : Predicate) : Prop :=
  model.Violates activations predicate ∨
    ∃ source, model.Met activations source ∧ model.Fails activations source

/-- Some run comes to a state that violates the predicate, or to one where the model gives up. -/
def GoesWrong (model : Model α) (activations : List Activation) (predicate : Predicate) : Prop :=
  model.Violates activations predicate ∨ ∃ source error, model.Met activations source ∧
    (⟨model, activations, []⟩ : Scenario α).proposes source = .error (.failure error)

variable {model : Model α} {activations tight loose : List Activation} {predicate : Predicate}

theorem GoesWrong.endangered (h : model.GoesWrong activations predicate) :
    model.Endangered activations predicate := by
  refine h.imp_right ?_
  rintro ⟨source, error, hmet, hfailure⟩
  refine ⟨source, hmet, fun proposed hproposed => ?_⟩
  cases hfailure.symm.trans hproposed

theorem goesWrong_of_blames (hnever : model.NeverStutters) (hsized : model.WellSized)
    {cause : TraversalError α} (h : Blames ⟨model, activations, []⟩ cause) :
    model.GoesWrong activations predicate := by
  obtain ⟨_, _, error, -, done, storage, parents, source, hdiscovered, hsource, hfails, -⟩ := h
  refine .inr ⟨source, error, ?_, ?_⟩
  · cases hsource with
    | initial => exact .initial
    | state hindex => exact .state (hdiscovered.run_trace hnever hindex)
  · rcases bind_eq_error.1 hfails with hfailure | ⟨proposed, hproposed, hlabelled⟩
    · exact hfailure
    · obtain ⟨candidates, hcandidates⟩ :=
        labelled_succeeds (hsized activations source proposed hproposed)
      cases hcandidates.symm.trans hlabelled

/-- All that can happen under the first activations can happen under the second ones, unless the
model fails there. -/
def Covers (model : Model α) (tight loose : List Activation) : Prop :=
  ∀ source target, model.Leads tight source target →
    model.Leads loose source target ∨ model.Fails loose source

/-- A run can be made under the looser activations, as far as the model does not fail on the way. -/
theorem Covers.run (h : model.Covers tight loose) {states : List Bytes} {last : Bytes}
    (hrun : model.Run tight states last) :
    model.Run loose states last ∨ ∃ source, model.Met loose source ∧ model.Fails loose source := by
  induction hrun with
  | start hstart =>
      exact (h _ _ hstart).imp .start fun hfails => ⟨none, .initial, hfails⟩
  | step _ hstep ih =>
      rcases ih with hrun | hfails
      · exact (h _ _ hstep).imp hrun.step fun hfails => ⟨_, .state hrun, hfails⟩
      · exact .inr hfails

theorem Covers.met (h : model.Covers tight loose) {source : Option Bytes}
    (hmet : model.Met tight source) :
    model.Met loose source ∨ ∃ other, model.Met loose other ∧ model.Fails loose other := by
  cases hmet with
  | initial => exact .inl .initial
  | state hrun => exact (h.run hrun).imp_left .state

theorem Covers.endangered (h : model.Covers tight loose)
    (hviolates : model.Violates tight predicate) : model.Endangered loose predicate := by
  obtain ⟨states, last, hrun, hlabel⟩ := hviolates
  exact (h.run hrun).imp_left fun hrun => ⟨states, last, hrun, hlabel⟩

variable [Scalar α] {config : TraversalConfig} {invariant : Formula}
  {used : List Activation} {cause : TraversalError α}

/-! ## One check -/

theorem not_fails_of_unviolated (hnever : model.NeverStutters) {space : StateSpace}
    (hactivations : model.activateAll used = .ok activations)
    (h : traverse model config { activations := some used } (violationObserver predicate) none =
      .ok (space, none)) {source : Option Bytes} (hmet : model.Met activations source) :
    ¬ model.Fails activations source := by
  obtain ⟨_, done, stream, hsame, hexplored, rfl, -, -⟩ :=
    exists_explored h (goes_of_unviolated h)
  cases hactivations.symm.trans hsame
  have hsource : ∃ origin, Scenario.Source done.storage.vectors origin source := by
    cases hmet with
    | initial => exact ⟨none, .initial⟩
    | state hrun =>
        obtain ⟨index, hindex⟩ :=
          Array.getElem?_of_mem (hexplored.mem_of_reachable rfl (hrun.reachable hnever))
        exact ⟨some index, .state hindex⟩
  obtain ⟨origin, hsource⟩ := hsource
  obtain ⟨candidates, proposed, hproposed, -⟩ := hexplored.exists_offers rfl hsource
  exact fun hfails => hfails proposed hproposed

theorem propositions_le_of_ok {result : InvariantResult} {given : Option (List Activation)}
    (h : model.checkInvariant config invariant given = .ok result) :
    model.propositions.length ≤ IndexSet.limit := by
  obtain ⟨_, _, _, -, hspace, -⟩ := checkInvariant_eq_ok h
  obtain ⟨-, -, -, -, -, hlimit, -⟩ := traverse_eq_ok hspace
  exact hlimit

section Check

variable (hnever : model.NeverStutters) (hlength : used.length = model.faults.length)
  (hcompile : Predicate.compile invariant model.propositions = .ok predicate)
  {result : InvariantResult}
  (h : model.checkInvariant config invariant (some used) = .ok result)

include hnever hlength hcompile h

theorem checkInvariant_ends :
    (result.counterexample = none ∧ ¬ model.Endangered used predicate) ∨
      (result.counterexample ≠ none ∧ model.Violates used predicate) := by
  obtain ⟨other, space, violation, hother, hspace, hstates⟩ := checkInvariant_eq_ok h
  cases hcompile.symm.trans hother
  have hactivations : model.activateAll used = .ok used := activateAll_of_length hlength
  have hlimit := propositions_le_of_ok h
  have hmeans (state : Bytes) : predicate.evaluate (model.label state) = true ↔
      invariant.HoldsAt (model.system used) state :=
    Predicate.evaluate_iff hcompile (describes_label hlimit state)
  obtain ⟨_, hsame, hend⟩ := exists_searched hnever hcompile hspace
  cases hactivations.symm.trans hsame
  rcases hend with ⟨rfl, hholds⟩ | ⟨index, rfl, ⟨last, hlast, hviolates⟩, -⟩
  · refine .inl ⟨by simpa using hstates, ?_⟩
    rintro (⟨states, last, hrun, hlabel⟩ | ⟨source, hmet, hfails⟩)
    · have := (hmeans last).2 (hholds states last hrun)
      rw [hlabel] at this
      cases this
    · exact not_fails_of_unviolated hnever hactivations hspace hmet hfails
  · obtain ⟨counterexample, hsome, -⟩ := Option.map_eq_some_iff.1 hstates
    refine .inr ⟨by simp [hsome], _, last, hlast, ?_⟩
    rw [← Bool.not_eq_true, hmeans]
    exact hviolates

end Check

theorem checkInvariant_eq_error
    (hcompile : Predicate.compile invariant model.propositions = .ok predicate)
    (h : model.checkInvariant config invariant (some used) = .error cause) :
    Obstructed cause ∨ (IndexSet.limit < model.propositions.length ∧
        cause = .propositionLimit model.propositions.length) ∨
      ∃ activations, model.activateAll used = .ok activations ∧
        model.propositions.length ≤ IndexSet.limit ∧ Blames ⟨model, activations, []⟩ cause := by
  rw [checkInvariant, hcompile] at h
  rcases bind_eq_error.1 h with hsearch | ⟨_, -, hresult⟩
  · exact traverse_eq_error (neverRefuses_violationObserver predicate) hsearch
  · cases hresult

end Model

/-! ## The check of a fault set -/

namespace Inquiry

variable {α : Type} [Scalar α] {inquiry : Inquiry α} {model : Model α} {config : AnalysisConfig}
  {hazard : Formula} {predicate : Predicate} {findings after : Findings} {set : FaultSet}
  {mode : Activation} {safe : Bool}

omit [Scalar α] in
theorem exists_compile_of_inquire (h : model.inquire config hazard = .ok inquiry) :
    ∃ predicate, Predicate.compile hazard.not model.propositions = .ok predicate := by
  unfold Model.inquire at h
  split at h
  · cases h
  · split at h
    · cases h
    · next predicate hcompile => exact ⟨predicate, hcompile⟩

/-- The verdict of an exploration that comes to one; a label has room for all propositions then. -/
theorem Describes.explore_verdict (h : inquiry.Describes model config hazard)
    (hcompile : Predicate.compile hazard.not model.propositions = .ok predicate)
    (hnever : model.NeverStutters) (hsized : model.WellSized)
    (hok : inquiry.explore findings set mode = .ok (safe, after)) :
    model.propositions.length ≤ IndexSet.limit ∧
      (safe = true → ¬ model.Endangered (model.activationsUnder set mode) predicate) ∧
      (safe = false → model.GoesWrong (model.activationsUnder set mode) predicate) := by
  have hlength : (model.activationsUnder set mode).length = model.faults.length := by
    simp [Model.activationsUnder]
  have hexplores := explores_of_explore hok
  rw [h.model_eq, h.activations_eq] at hexplores
  cases hexplores with
  | safe hchecked hnone =>
      rw [h.model_eq, h.invariant_eq] at hchecked
      rcases Model.checkInvariant_ends hnever hlength hcompile hchecked with ⟨-, hnot⟩ | ⟨hsome, -⟩
      · exact ⟨Model.propositions_le_of_ok hchecked, fun _ => hnot, by simp⟩
      · exact absurd hnone hsome
  | violated hchecked hsome hadd =>
      rw [h.model_eq, h.invariant_eq] at hchecked
      rcases Model.checkInvariant_ends hnever hlength hcompile hchecked with
        ⟨hnone, -⟩ | ⟨-, hviolates⟩
      · cases hsome.symm.trans hnone
      · exact ⟨Model.propositions_le_of_ok hchecked, by simp, fun _ => .inl hviolates⟩
  | failed hfailed hadd =>
      rw [h.model_eq, h.invariant_eq] at hfailed
      rcases Model.checkInvariant_eq_error hcompile hfailed with
        hobstructed | ⟨-, hcause⟩ | ⟨activations, hactivations, hlimit, hblames⟩
      · cases hobstructed
      · cases hcause
      · cases (Model.activateAll_of_length hlength).symm.trans hactivations
        exact ⟨hlimit, by simp, fun _ => Model.goesWrong_of_blames hnever hsized hblames⟩

omit [Scalar α] in
theorem obstructed_of_orMisuse {result : Except Misuse Findings} {error : AnalysisError α}
    (h : orMisuse result = .error error) :
    ∃ cause, Obstructed cause ∧ error = .traversal cause := by
  cases result with
  | ok marked => cases h
  | error misuse =>
      cases h
      exact ⟨_, .misuse misuse, rfl⟩

theorem Describes.explore_eq_error (h : inquiry.Describes model config hazard)
    (hcompile : Predicate.compile hazard.not model.propositions = .ok predicate)
    (hlimit : model.propositions.length ≤ IndexSet.limit) {error : AnalysisError α}
    (hfails : inquiry.explore findings set mode = .error error) :
    ∃ cause, Obstructed cause ∧ error = .traversal cause := by
  rw [explore_eq] at hfails
  unfold conclude at hfails
  split at hfails
  · split at hfails
    · cases hfails
    · rcases bind_eq_error.1 hfails with hmarked | ⟨_, -, hresult⟩
      · exact obstructed_of_orMisuse hmarked
      · cases hresult
  · rcases bind_eq_error.1 hfails with hmarked | ⟨_, -, hresult⟩
    · exact obstructed_of_orMisuse hmarked
    · cases hresult
  · next cause hother hcause =>
    rw [h.model_eq, h.invariant_eq] at hcause
    cases hfails
    rcases Model.checkInvariant_eq_error hcompile hcause with
      hobstructed | ⟨hover, -⟩ | ⟨_, -, -, origin, path, failure, rfl, -⟩
    · exact ⟨_, hobstructed, rfl⟩
    · omega
    · exact absurd rfl (hother origin path failure)

end Inquiry

end Hazard
