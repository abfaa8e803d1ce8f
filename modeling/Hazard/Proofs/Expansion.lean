import Hazard.Proofs.Except
import Hazard.Proofs.Storage
import Hazard.Traversal.Basic
import Mathlib.Data.List.Forall2
/-!
# One expansion

What an exploration is to find is said without it: the candidates of a source that count, the
vectors that can be reached by them, the batch of transitions that reports them. An expansion
stores the targets it has not met before, remembers where it met them, and reports one transition
for each candidate.
-/

namespace Hazard

/-! ## What there is to find -/

structure Scenario (α : Type) where
  model : Model α
  activations : List Activation
  modifiers : List (Modifier α)

namespace Scenario

variable {α : Type}

def proposes (scenario : Scenario α) : Option Bytes → Except StepError (List (Candidate α))
  | none => scenario.model.initial scenario.activations
  | some state => scenario.model.step scenario.activations state

/-- The candidates that count among those proposed: labelled, then modified, and valid. -/
def counted (scenario : Scenario α) (proposed : List (Candidate α)) : List (Candidate α) :=
  (scenario.modifiers.foldl (fun candidates modify => modify candidates)
    (proposed.map fun candidate =>
      { candidate with label := scenario.model.label candidate.target })).filter (·.valid)

def Offers (scenario : Scenario α) (source : Option Bytes) (candidates : List (Candidate α)) :
    Prop :=
  ∃ proposed, scenario.proposes source = .ok proposed ∧ candidates = scenario.counted proposed

def Yields (scenario : Scenario α) (source : Option Bytes) (vector : Bytes) : Prop :=
  ∃ candidates, scenario.Offers source candidates ∧
    ∃ candidate ∈ candidates, vector = Traversal.image scenario.model candidate

/-- The least set with the images of the initial candidates that is closed under the candidates of
its regular states. -/
inductive Reachable (scenario : Scenario α) : Bytes → Prop
  | initial {vector : Bytes} (hyields : scenario.Yields none vector) : Reachable scenario vector
  | step {state vector : Bytes} (hstate : Reachable scenario (Traversal.regular :: state))
      (hyields : scenario.Yields (some state) vector) : Reachable scenario vector

/-- The only vector that is not a regular state. -/
def stutter (scenario : Scenario α) : Bytes :=
  Traversal.stuttering :: List.replicate scenario.model.stateSize 0

inductive Source (vectors : Array Bytes) : Origin → Option Bytes → Prop
  | initial : Source vectors none none
  | state {index : Nat} {state : Bytes}
      (hindex : vectors[index]? = some (Traversal.regular :: state)) :
      Source vectors (some index) (some state)

/-- The transition stands for the candidate and leads to where its image is stored. -/
structure Reports (scenario : Scenario α) (vectors : Array Bytes) (candidate : Candidate α)
    (transition : Transition α) : Prop where
  target : vectors[transition.target]? = some (Traversal.image scenario.model candidate)
  probability : transition.probability = candidate.probability
  label : transition.label = candidate.label
  distribution : transition.distribution = candidate.distribution

/-- The transitions of an origin: one for each candidate that counts, in order; the stuttering
state leads to itself, surely and without a label. -/
inductive IsBatch [Scalar α] (scenario : Scenario α) (vectors : Array Bytes) :
    Origin → List (Transition α) → Prop
  | offered {origin : Origin} {source : Option Bytes} {candidates : List (Candidate α)}
      {batch : List (Transition α)} (hsource : Source vectors origin source)
      (hoffers : scenario.Offers source candidates)
      (hreports : List.Forall₂ (scenario.Reports vectors) candidates batch) :
      IsBatch scenario vectors origin batch
  | stuttering {index : Nat} (hindex : vectors[index]? = some scenario.stutter) :
      IsBatch scenario vectors (some index)
        [{ target := index, probability := 1, label := .empty, distribution := 0 }]

theorem Offers.unique {scenario : Scenario α} {source : Option Bytes}
    {left right : List (Candidate α)} (hleft : scenario.Offers source left)
    (hright : scenario.Offers source right) : left = right := by
  obtain ⟨proposed, hproposed, rfl⟩ := hleft
  obtain ⟨proposed', hproposed', rfl⟩ := hright
  rw [hproposed] at hproposed'
  cases hproposed'
  rfl

theorem Reachable.yields {scenario : Scenario α} {vector : Bytes}
    (hvector : scenario.Reachable vector) : ∃ source, scenario.Yields source vector := by
  cases hvector with
  | initial hyields => exact ⟨none, hyields⟩
  | step _ hyields => exact ⟨_, hyields⟩

theorem Yields.shape {scenario : Scenario α} {source : Option Bytes} {vector : Bytes}
    (hyields : scenario.Yields source vector) :
    vector = scenario.stutter ∨ ∃ state, vector = Traversal.regular :: state := by
  obtain ⟨_, -, candidate, -, rfl⟩ := hyields
  unfold Traversal.image
  split
  · exact .inl rfl
  · exact .inr ⟨candidate.target, rfl⟩

theorem stutter_ne_regular (scenario : Scenario α) (state : Bytes) :
    scenario.stutter ≠ Traversal.regular :: state := by
  unfold stutter
  intro heq
  exact absurd (List.cons.inj heq).1 (by decide)

theorem Source.unique {vectors : Array Bytes} {origin : Origin} {left right : Option Bytes}
    (hleft : Source vectors origin left) (hright : Source vectors origin right) :
    left = right := by
  cases hleft with
  | initial =>
      cases hright
      rfl
  | state hindex =>
      cases hright with
      | state hindex' =>
          rw [hindex] at hindex'
          cases hindex'
          rfl

theorem exists_related {β γ : Type} {related : β → γ → Prop} {left : List β} {right : List γ}
    (h : List.Forall₂ related left right) {item : β} (hitem : item ∈ left) :
    ∃ other ∈ right, related item other := by
  induction h with
  | nil => simp at hitem
  | @cons first other _ _ hfirst _ ih =>
      rcases List.mem_cons.1 hitem with rfl | hitem
      · exact ⟨other, by simp, hfirst⟩
      · obtain ⟨later, hlater, hrelated⟩ := ih hitem
        exact ⟨later, by simp [hlater], hrelated⟩

theorem IsBatch.reports_of_source [Scalar α] {scenario : Scenario α} {vectors : Array Bytes}
    {origin : Origin} {source : Option Bytes} {batch : List (Transition α)}
    (hbatch : scenario.IsBatch vectors origin batch) (hsource : Source vectors origin source) :
    ∃ candidates, scenario.Offers source candidates ∧
      List.Forall₂ (scenario.Reports vectors) candidates batch := by
  cases hbatch with
  | offered hsame hoffers hreports =>
      cases hsource.unique hsame
      exact ⟨_, hoffers, hreports⟩
  | stuttering hindex =>
      cases hsource with
      | state hindex' =>
          rw [hindex] at hindex'
          exact absurd (Option.some.inj hindex') (scenario.stutter_ne_regular _)

theorem IsBatch.exists_transition [Scalar α] {scenario : Scenario α} {vectors : Array Bytes}
    {origin : Origin} {source : Option Bytes} {batch : List (Transition α)} {vector : Bytes}
    (hbatch : scenario.IsBatch vectors origin batch) (hsource : Source vectors origin source)
    (hyields : scenario.Yields source vector) :
    ∃ transition ∈ batch, vectors[transition.target]? = some vector := by
  obtain ⟨candidates, hoffers, hreports⟩ := hbatch.reports_of_source hsource
  obtain ⟨others, hoffers', candidate, hcandidate, rfl⟩ := hyields
  cases hoffers.unique hoffers'
  obtain ⟨transition, htransition, hreport⟩ := exists_related hreports hcandidate
  exact ⟨transition, htransition, hreport.target⟩

/-! ## More vectors -/

theorem getElem?_of_append {β : Type} {first more : Array β} {added : List β}
    (hmore : more.toList = first.toList ++ added) {index : Nat} {item : β}
    (h : first[index]? = some item) : more[index]? = some item := by
  have hlt : index < first.toList.length := by
    simpa using (Array.getElem?_eq_some_iff.1 h).1
  rw [← Array.getElem?_toList] at h ⊢
  rw [hmore, List.getElem?_append_left hlt]
  exact h

theorem getElem?_append_cases {β : Type} {first more : Array β} {added : List β}
    (hmore : more.toList = first.toList ++ added) {index : Nat} {item : β}
    (h : more[index]? = some item) :
    first[index]? = some item ∨ item ∈ added ∧ first.size ≤ index := by
  rw [← Array.getElem?_toList, hmore] at h
  rcases Nat.lt_or_ge index first.toList.length with hlt | hge
  · rw [List.getElem?_append_left hlt, Array.getElem?_toList] at h
    exact .inl h
  · rw [List.getElem?_append_right hge] at h
    exact .inr ⟨List.mem_of_getElem? h, by simpa using hge⟩

variable {scenario : Scenario α} {vectors more : Array Bytes} {added : List Bytes}

theorem Source.append (hmore : more.toList = vectors.toList ++ added) {origin : Origin}
    {source : Option Bytes} (h : Source vectors origin source) : Source more origin source := by
  cases h with
  | initial => exact .initial
  | state hindex => exact .state (getElem?_of_append hmore hindex)

theorem Reports.append (hmore : more.toList = vectors.toList ++ added)
    {candidate : Candidate α} {transition : Transition α}
    (h : scenario.Reports vectors candidate transition) :
    scenario.Reports more candidate transition :=
  ⟨getElem?_of_append hmore h.target, h.probability, h.label, h.distribution⟩

theorem IsBatch.append [Scalar α] (hmore : more.toList = vectors.toList ++ added)
    {origin : Origin} {batch : List (Transition α)} (h : scenario.IsBatch vectors origin batch) :
    scenario.IsBatch more origin batch := by
  cases h with
  | offered hsource hoffers hreports =>
      exact .offered (hsource.append hmore) hoffers (hreports.imp fun _ _ h => h.append hmore)
  | stuttering hindex => exact .stuttering (getElem?_of_append hmore hindex)

end Scenario

def Plan.scenario {α σ : Type} (plan : Plan α σ) : Scenario α :=
  ⟨plan.model, plan.activations, plan.modifiers⟩

namespace Traversal

variable {α σ : Type} {plan : Plan α σ}

/-! ## Candidates -/

theorem labelled_eq_ok {model : Model α} {proposed candidates : List (Candidate α)}
    (h : labelled model proposed = .ok candidates) :
    candidates = proposed.map fun candidate =>
      { candidate with label := model.label candidate.target } := by
  induction proposed generalizing candidates with
  | nil =>
      cases h
      rfl
  | cons candidate rest ih =>
      rw [labelled] at h
      split at h
      · obtain ⟨others, hothers, hrest⟩ := bind_eq_ok.1 h
        cases hrest
        rw [List.map_cons, ← ih hothers]
      · cases h

theorem effective_labelled {proposed candidates : List (Candidate α)}
    (h : labelled plan.model proposed = .ok candidates) :
    effective plan candidates = plan.scenario.counted proposed := by
  rw [labelled_eq_ok h]
  rfl

/-! ## The targets of one source -/

/-- An intake that started from `storage` and `parents` has stored the targets of the candidates in
`done`, and `added` are those it had not met before. -/
structure Intake.Sound (scenario : Scenario α) (origin : Origin) (storage : Storage)
    (parents : Array Origin) (done : List (Candidate α)) (added : List Bytes)
    (intake : Intake α) : Prop where
  sound : intake.storage.Sound
  capacity : intake.storage.capacity = storage.capacity
  vectors : intake.storage.vectors.toList = storage.vectors.toList ++ added
  parents : intake.parents.toList = parents.toList ++ List.replicate added.length origin
  fresh : intake.fresh = List.range' storage.vectors.size added.length
  reports : List.Forall₂ (scenario.Reports intake.storage.vectors) done intake.transitions
  images : ∀ vector ∈ added, ∃ candidate ∈ done, vector = image scenario.model candidate

variable {scenario : Scenario α} {origin : Origin} {storage : Storage} {parents : Array Origin}
  {done : List (Candidate α)} {added : List Bytes} {intake next : Intake α}
  {candidate : Candidate α}

theorem Intake.Sound.start (hsound : storage.Sound) (parents : Array Origin) :
    Intake.Sound scenario origin storage parents [] [] (⟨storage, parents, [], []⟩ : Intake α) where
  sound := hsound
  capacity := rfl
  vectors := by simp
  parents := by simp
  fresh := by simp
  reports := .nil
  images := by simp

theorem Intake.store_eq_ok {model : Model α}
    (h : intake.store model origin candidate = .ok next) :
    ∃ later placement, intake.storage.place (image model candidate) = (later, .ok placement) ∧
      next = {
        storage := later
        parents := if placement.fresh then intake.parents.push origin else intake.parents
        fresh := if placement.fresh then intake.fresh ++ [placement.index] else intake.fresh
        transitions := intake.transitions ++ [⟨placement.index, candidate.probability,
          candidate.label, candidate.distribution⟩] } := by
  obtain ⟨storage, parents, fresh, transitions⟩ := intake
  rw [store] at h
  generalize storage.place (image model candidate) = placed at h ⊢
  obtain ⟨later, outcome⟩ := placed
  obtain ⟨placement, rfl, hnext⟩ := bind_eq_ok.1 h
  cases hnext
  exact ⟨later, placement, rfl, rfl⟩

theorem Intake.Sound.store
    (hintake : intake.Sound scenario origin storage parents done added)
    (hstore : intake.store scenario.model origin candidate = .ok next) :
    ∃ added', next.Sound scenario origin storage parents (done ++ [candidate]) added' := by
  obtain ⟨current, currentParents, fresh, transitions⟩ := intake
  obtain ⟨hsound, hcapacity, hvectors, hparents, hfresh, hreports, himages⟩ := hintake
  dsimp only at hsound hcapacity hvectors hparents hfresh hreports
  obtain ⟨later, placement, hplace, rfl⟩ := store_eq_ok hstore
  obtain ⟨hlater, hlaterCapacity, hcases⟩ := hsound.place hplace
  have himages' (vector : Bytes) (hvector : vector ∈ added) :
      ∃ other ∈ done ++ [candidate], vector = image scenario.model other := by
    obtain ⟨other, hother, himage⟩ := himages vector hvector
    exact ⟨other, by simp [hother], himage⟩
  rcases hcases with ⟨hknown, hindex, rfl⟩ | ⟨rfl, hnew, hpush⟩
  · refine ⟨added, hlater, hcapacity, hvectors, ?_, ?_, ?_, himages'⟩
    · simpa [hknown] using hparents
    · simpa [hknown] using hfresh
    · exact List.rel_append hreports (.cons ⟨hindex, rfl, rfl, rfl⟩ .nil)
  · have hsize : current.vectors.size = storage.vectors.size + added.length := by
      simpa using congrArg List.length hvectors
    have hmore :
        later.vectors.toList = current.vectors.toList ++ [image scenario.model candidate] := by
      rw [hpush, Array.toList_push]
    refine ⟨added ++ [image scenario.model candidate], hlater, hlaterCapacity.trans hcapacity,
      ?_, ?_, ?_, ?_, ?_⟩
    · rw [hmore, hvectors, List.append_assoc]
    · simp [hparents, List.replicate_succ']
    · simp [hfresh, hsize, List.range'_concat]
    · refine List.rel_append (hreports.imp fun _ _ h => h.append hmore)
        (.cons ⟨?_, rfl, rfl, rfl⟩ .nil)
      simp [hpush]
    · intro vector hvector
      rcases List.mem_append.1 hvector with hvector | hvector
      · exact himages' vector hvector
      · exact ⟨candidate, by simp, by simpa using hvector⟩

theorem Intake.sound_foldlM (hsound : storage.Sound) {candidates : List (Candidate α)}
    (hstored : candidates.foldlM (Intake.store scenario.model origin)
      (⟨storage, parents, [], []⟩ : Intake α) = .ok intake) :
    ∃ added, intake.Sound scenario origin storage parents candidates added := by
  have hkeeps := foldlM_keeps (motive := fun rest (intake : Intake α) =>
      ∃ done added, done ++ rest = candidates ∧
        intake.Sound scenario origin storage parents done added) ?_ ?_ hstored
  · obtain ⟨done, added, rfl, hintake⟩ := hkeeps
    exact ⟨added, by simpa using hintake⟩
  · rintro candidate rest intake next ⟨done, added, rfl, hintake⟩ hstore
    obtain ⟨added', hnext⟩ := hintake.store hstore
    exact ⟨done ++ [candidate], added', by simp, hnext⟩
  · exact ⟨[], [], rfl, .start hsound parents⟩

/-! ## The whole expansion -/

/-- What the expansion of an origin does: it adds vectors, with the origin as their parent, to the
storage and to the end of the queue, and shows one batch to the observer. -/
structure Expands [Scalar α] (plan : Plan α σ) (origin : Origin) (batch : List (Transition α))
    (added : List Bytes) (before after : Exploration σ) : Prop where
  sound : after.storage.Sound
  capacity : after.storage.capacity = before.storage.capacity
  vectors : after.storage.vectors.toList = before.storage.vectors.toList ++ added
  parents : after.parents.toList = before.parents.toList ++ List.replicate added.length origin
  pending : after.agenda.pending =
    before.agenda.pending ++ List.range' before.storage.vectors.size added.length
  count : after.agenda.transitionCount = before.agenda.transitionCount + batch.length
  shown : ∃ verdict, plan.observer.observe before.agenda.watcher origin batch =
      (after.agenda.watcher, .ok verdict) ∧
    after.agenda.stopped = (before.agenda.stopped || verdict = .stop)
  isBatch : plan.scenario.IsBatch after.storage.vectors origin batch
  yields : ∀ vector ∈ added, ∃ source, Scenario.Source before.storage.vectors origin source ∧
    plan.scenario.Yields source vector

theorem publish_eq_ok {agenda : Agenda σ} {after : Exploration σ}
    (h : publish plan origin intake agenda = .ok after) :
    after.storage = intake.storage ∧ after.parents = intake.parents ∧
      after.agenda.pending = agenda.pending ++ intake.fresh ∧
      after.agenda.transitionCount = agenda.transitionCount + intake.transitions.length ∧
      ∃ verdict, plan.observer.observe agenda.watcher origin intake.transitions =
          (after.agenda.watcher, .ok verdict) ∧
        after.agenda.stopped = (agenda.stopped || verdict = .stop) := by
  obtain ⟨pending, count, stopped, watcher⟩ := agenda
  rw [publish] at h
  split at h
  · cases h
  · split at h
    · cases h
    · next verdict hshown =>
      cases h
      exact ⟨rfl, rfl, rfl, rfl, verdict, hshown, rfl⟩

variable [Scalar α] {before after : Exploration σ} {source : Nat}

theorem expands_of_advance {state : Option Bytes} (hsound : before.storage.Sound)
    (hsource : Scenario.Source before.storage.vectors origin state)
    (h : advance plan origin (plan.scenario.proposes state) before = .ok after) :
    ∃ batch added, Expands plan origin batch added before after := by
  obtain ⟨storage, parents, agenda⟩ := before
  rw [advance] at h
  split at h
  · cases h
  · next candidates hlabelled =>
    obtain ⟨proposed, hproposed, hlabelled⟩ := bind_eq_ok.1 hlabelled
    rw [commit, effective_labelled hlabelled] at h
    split at h
    · cases h
    · next intake hstored =>
      have hstored : ∃ added, intake.Sound plan.scenario origin storage parents _ added :=
        Intake.sound_foldlM hsound hstored
      obtain ⟨added, hintake⟩ := hstored
      obtain ⟨hstorage, hparents, hpending, hcount, hshown⟩ := publish_eq_ok h
      have hoffers : plan.scenario.Offers state (plan.scenario.counted proposed) :=
        ⟨proposed, hproposed, rfl⟩
      refine ⟨intake.transitions, added, ?_⟩
      constructor
      · exact hstorage ▸ hintake.sound
      · exact hstorage ▸ hintake.capacity
      · exact hstorage ▸ hintake.vectors
      · exact hparents ▸ hintake.parents
      · rw [hpending, hintake.fresh]
      · exact hcount
      · exact hshown
      · rw [hstorage]
        exact .offered (hsource.append hintake.vectors) hoffers hintake.reports
      · intro vector hvector
        exact ⟨state, hsource, _, hoffers, hintake.images vector hvector⟩

theorem expands_of_expandInitial (hsound : before.storage.Sound)
    (h : expandInitial plan before = .ok after) :
    ∃ batch added, Expands plan none batch added before after :=
  expands_of_advance hsound .initial h

theorem expands_of_expand (hsound : before.storage.Sound)
    (hshape : ∀ vector ∈ before.storage.vectors,
      vector = plan.scenario.stutter ∨ ∃ state, vector = regular :: state)
    (h : expand plan before source = .ok after) :
    ∃ batch added, Expands plan (some source) batch added before after := by
  rw [expand] at h
  split at h
  · cases h
  · next vector hget =>
    have hvector : before.storage.vectors[source]? = some vector := by
      rw [Storage.get] at hget
      split at hget
      · next stored hstored =>
        cases hget
        exact hstored
      · cases hget
    rcases hshape vector (Array.mem_of_getElem? hvector) with rfl | ⟨state, rfl⟩
    · have hnone : modelState? plan.scenario.stutter = none := rfl
      rw [hnone] at h
      obtain ⟨hstorage, hparents, hpending, hcount, hshown⟩ := publish_eq_ok h
      dsimp only at hstorage hparents hpending hcount hshown
      refine ⟨[selfLoop source], [], ?_⟩
      constructor
      · exact hstorage ▸ hsound
      · rw [hstorage]
      · simp [hstorage]
      · simp [hparents]
      · simp [hpending]
      · exact hcount
      · exact hshown
      · rw [hstorage]
        exact .stuttering hvector
      · simp
    · have hsome : modelState? (regular :: state) = some state := rfl
      rw [hsome] at h
      exact expands_of_advance hsound (.state hvector) h

end Traversal

end Hazard
