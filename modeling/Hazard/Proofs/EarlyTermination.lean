import Hazard.Generate
import Hazard.Proofs.Runs
/-!
# Early termination

Early termination leads the transitions to states that satisfy a condition into the stuttering state
and changes nothing else about them. Batch by batch, a model explored with and without it reports
the same labels and probabilities, and the same targets up to such states.
-/

namespace Hazard

open Traversal

/-! ## Lists that match one by one -/

section Matching

variable {β γ δ : Type} {items : List β} {first : List γ} {second : List δ}

theorem forall₂_of_common {left : β → γ → Prop} {right : β → δ → Prop}
    (hfirst : List.Forall₂ left items first) (hsecond : List.Forall₂ right items second) :
    List.Forall₂ (fun x y => ∃ item ∈ items, left item x ∧ right item y) first second := by
  induction hfirst generalizing second with
  | nil =>
      cases hsecond
      exact .nil
  | @cons item x items first hitem _ ih =>
      cases hsecond with
      | cons hother hrest =>
          refine .cons ⟨item, by simp, hitem, hother⟩ ((ih hrest).imp ?_)
          rintro x y ⟨common, hcommon, hboth⟩
          exact ⟨common, List.mem_cons_of_mem _ hcommon, hboth⟩

theorem forall₂_with_mem {related : β → γ → Prop} (h : List.Forall₂ related items first) :
    List.Forall₂ (fun x y => x ∈ items ∧ y ∈ first ∧ related x y) items first := by
  rw [List.forall₂_iff_zip] at h ⊢
  exact ⟨h.1, fun hmem => ⟨(List.of_mem_zip hmem).1, (List.of_mem_zip hmem).2, h.2 hmem⟩⟩

theorem forall_mem_congr {property : β → Prop} {property' : γ → Prop}
    (h : List.Forall₂ (fun x y => property x ↔ property' y) items first) :
    (∀ x ∈ items, property x) ↔ ∀ y ∈ first, property' y := by
  induction h with
  | nil => simp
  | cons hfirst _ ih => rw [List.forall_mem_cons, List.forall_mem_cons, hfirst, ih]

theorem map_eq_of_forall₂ {value : β → δ} {value' : γ → δ}
    (h : List.Forall₂ (fun x y => value x = value' y) items first) :
    items.map value = first.map value' := by
  rw [← List.forall₂_eq_eq_eq, List.forall₂_map_left_iff, List.forall₂_map_right_iff]
  exact h

end Matching

variable {α : Type}

/-! ## Candidates -/

/-- Leads a candidate into the stuttering state if its label satisfies the condition. -/
def Predicate.redirect (condition : Predicate) (candidate : Candidate α) : Candidate α :=
  if condition.evaluate candidate.label then { candidate with stuttering := true } else candidate

namespace Predicate

variable (condition : Predicate) (candidate : Candidate α)

@[simp] theorem target_redirect : (condition.redirect candidate).target = candidate.target := by
  unfold redirect
  split <;> rfl

@[simp] theorem label_redirect : (condition.redirect candidate).label = candidate.label := by
  unfold redirect
  split <;> rfl

@[simp] theorem probability_redirect :
    (condition.redirect candidate).probability = candidate.probability := by
  unfold redirect
  split <;> rfl

theorem stuttering_redirect (hplain : candidate.stuttering = false) :
    (condition.redirect candidate).stuttering = condition.evaluate candidate.label := by
  unfold redirect
  split
  · next hholds => exact hholds.symm
  · next hfails =>
    rw [hplain]
    simpa using hfails

end Predicate

variable {model : Model α} {activations : List Activation} {condition : Predicate}

theorem counted_terminateEarly (proposed : List (Candidate α)) :
    (⟨model, activations, [terminateEarly condition]⟩ : Scenario α).counted proposed =
      ((⟨model, activations, []⟩ : Scenario α).counted proposed).map condition.redirect := by
  unfold Scenario.counted terminateEarly
  simp only [List.foldl_cons, List.foldl_nil]
  generalize (proposed.map fun candidate =>
    { candidate with label := model.label candidate.target }) = candidates
  rw [List.filter_map]
  have hvalid : ((fun candidate : Candidate α => candidate.valid) ∘ fun candidate =>
      if candidate.valid && condition.evaluate candidate.label then
        { candidate with stuttering := true }
      else candidate) = fun candidate => candidate.valid := by
    funext candidate
    dsimp only [Function.comp]
    split <;> rfl
  rw [hvalid]
  refine List.map_congr_left fun candidate hcandidate => ?_
  have hcounts : candidate.valid = true := (List.mem_filter.1 hcandidate).2
  have htest : (candidate.valid && condition.evaluate candidate.label) =
      condition.evaluate candidate.label := by rw [hcounts, Bool.true_and]
  rw [htest]
  rfl

theorem modifiers_cases {options : GenerateOptions} {parts : TraversalOptions α}
    (hparts : model.traversalOptions options = .ok parts) :
    parts.activations = options.activations ∧
      (options.terminateEarly = none ∧ parts.modifiers = [] ∨
        ∃ formula condition, options.terminateEarly = some formula ∧
          Predicate.compile formula model.propositions = .ok condition ∧
          parts.modifiers = [terminateEarly condition]) := by
  rw [Model.traversalOptions] at hparts
  split at hparts
  · next hnone =>
    cases hparts
    exact ⟨rfl, .inl ⟨hnone, rfl⟩⟩
  · next formula hsome =>
    split at hparts
    · cases hparts
    · next condition hcompile =>
      cases hparts
      exact ⟨rfl, .inr ⟨formula, condition, hsome, hcompile, rfl⟩⟩

theorem label_of_counted {options : GenerateOptions} {parts : TraversalOptions α}
    (hparts : model.traversalOptions options = .ok parts) {proposed : List (Candidate α)}
    {candidate : Candidate α} (hcandidate : candidate ∈
      (⟨model, activations, parts.modifiers⟩ : Scenario α).counted proposed) :
    candidate.label = model.label candidate.target := by
  obtain ⟨-, ⟨-, hmodifiers⟩ | ⟨-, condition, -, -, hmodifiers⟩⟩ := modifiers_cases hparts
  · rw [hmodifiers] at hcandidate
    obtain ⟨original, -, -, rfl⟩ := Model.mem_counted.1 hcandidate
    rfl
  · rw [hmodifiers, counted_terminateEarly] at hcandidate
    obtain ⟨plain, hplain, rfl⟩ := List.mem_map.1 hcandidate
    obtain ⟨original, -, -, rfl⟩ := Model.mem_counted.1 hplain
    rw [Predicate.label_redirect, Predicate.target_redirect]

/-! ## Batches -/

/-- The vector that early termination has in the place of a regular state. -/
def standIn (model : Model α) (condition : Predicate) (state : Bytes) : Bytes :=
  if condition.evaluate (model.label state) then
    (⟨model, [], []⟩ : Scenario α).stutter
  else regular :: state

/-- A transition to a state and the transition that early termination makes of it. -/
structure Counterpart (model : Model α) (condition : Predicate) (whole early : Array Bytes)
    (transition other : Transition α) (state : Bytes) : Prop where
  target : whole[transition.target]? = some (regular :: state)
  other_target : early[other.target]? = some (standIn model condition state)
  label : transition.label = model.label state
  other_label : other.label = model.label state
  probability : transition.probability = other.probability

variable {whole early : Array Bytes} {source : Option Bytes}

/-- Only candidates that satisfy the condition are led into the stuttering state. -/
theorem evaluate_of_redirected (hnever : model.NeverStutters) {proposed : List (Candidate α)}
    (hproposed : (⟨model, activations, []⟩ : Scenario α).proposes source = .ok proposed)
    {candidate : Candidate α} (hcandidate : candidate ∈
      (⟨model, activations, [terminateEarly condition]⟩ : Scenario α).counted proposed)
    (himage : image model candidate = (⟨model, [], []⟩ : Scenario α).stutter) :
    condition.evaluate candidate.label = true := by
  rw [counted_terminateEarly] at hcandidate
  obtain ⟨plain, hplain, rfl⟩ := List.mem_map.1 hcandidate
  obtain ⟨original, horiginal, -, rfl⟩ := Model.mem_counted.1 hplain
  have hstutters := condition.stuttering_redirect
    { original with label := model.label original.target }
    (hnever activations source proposed hproposed original horiginal)
  rw [Predicate.label_redirect]
  by_contra hfails
  rw [Bool.not_eq_true] at hfails
  rw [image, hstutters, hfails] at himage
  exact Scenario.stutter_ne_regular _ _ himage.symm

theorem counterpart_of_reports {candidate : Candidate α} {transition transition' : Transition α}
    (hplain : candidate.stuttering = false)
    (hlabel : candidate.label = model.label candidate.target)
    (hreport : (⟨model, activations, []⟩ : Scenario α).Reports whole candidate transition)
    (hreport' : (⟨model, activations, [terminateEarly condition]⟩ : Scenario α).Reports early
      (condition.redirect candidate) transition') :
    Counterpart model condition whole early transition transition' candidate.target := by
  have hstutters := condition.stuttering_redirect candidate hplain
  refine ⟨?_, ?_, hreport.label.trans hlabel, ?_, ?_⟩
  · rw [hreport.target]
    simp [image, hplain]
  · rw [hreport'.target, image, hstutters, Predicate.target_redirect, hlabel]
    rfl
  · rw [hreport'.label, Predicate.label_redirect, hlabel]
  · rw [hreport.probability, hreport'.probability, Predicate.probability_redirect]

variable [Scalar α] {origin other : Origin} {batch batch' : List (Transition α)}

theorem counterparts (hnever : model.NeverStutters)
    (hsource : Scenario.Source whole origin source) (hother : Scenario.Source early other source)
    (hbatch : (⟨model, activations, []⟩ : Scenario α).IsBatch whole origin batch)
    (hbatch' : (⟨model, activations, [terminateEarly condition]⟩ : Scenario α).IsBatch early other
      batch') :
    List.Forall₂ (fun transition other =>
      ∃ state, Counterpart model condition whole early transition other state) batch batch' := by
  obtain ⟨_, ⟨proposed, hproposed, rfl⟩, hreports⟩ := hbatch.reports_of_source hsource
  obtain ⟨_, ⟨again, hagain, rfl⟩, hreports'⟩ := hbatch'.reports_of_source hother
  cases hproposed.symm.trans hagain
  rw [counted_terminateEarly, List.forall₂_map_left_iff] at hreports'
  refine (forall₂_of_common hreports hreports').imp ?_
  rintro transition transition' ⟨candidate, hcandidate, hreport, hreport'⟩
  obtain ⟨original, horiginal, -, rfl⟩ := Model.mem_counted.1 hcandidate
  refine ⟨_, counterpart_of_reports ?_ rfl hreport hreport'⟩
  exact hnever activations source proposed hproposed original horiginal

end Hazard
