import Hazard.Proofs.Exploration
/-!
# Who watches an exploration

What an exploration finds does not depend on its observer, except that the observer may refuse a
batch or end the exploration early. An exploration that comes to its end under an observer that
stops nothing therefore comes to an end under any observer that refuses nothing.
-/

namespace Hazard

variable {α σ τ : Type}

namespace Observer

def NeverStops (observer : Observer α σ) : Prop :=
  ∀ watcher origin batch next verdict,
    observer.observe watcher origin batch = (next, .ok verdict) → verdict = .proceed

def NeverRefuses (observer : Observer α σ) : Prop :=
  ∀ watcher origin batch, ∃ next verdict,
    observer.observe watcher origin batch = (next, .ok verdict)

end Observer

def Plan.watchedBy (plan : Plan α σ) (other : Observer α τ) : Plan α τ :=
  ⟨plan.model, plan.activations, plan.modifiers, other, plan.transitionCapacity⟩

namespace Traversal

/-- Two explorations have found the same, and the first one has not been stopped. -/
structure Abreast (left : Exploration σ) (right : Exploration τ) : Prop where
  storage : left.storage = right.storage
  parents : left.parents = right.parents
  pending : left.agenda.pending = right.agenda.pending
  count : left.agenda.transitionCount = right.agenda.transitionCount
  goes : left.agenda.stopped = false

variable {plan : Plan α σ} {other : Observer α τ} {origin : Origin} {left after : Exploration σ}
  {right : Exploration τ}

section Step

variable (hstops : plan.observer.NeverStops) (hrefuses : other.NeverRefuses)
include hstops hrefuses

theorem publish_abreast {intake : Intake α} {agenda : Agenda σ} {agenda' : Agenda τ}
    (hgoes : agenda.stopped = false) (hpending : agenda.pending = agenda'.pending)
    (hcount : agenda.transitionCount = agenda'.transitionCount)
    (h : publish plan origin intake agenda = .ok after) :
    ∃ after', publish (plan.watchedBy other) origin intake agenda' = .ok after' ∧
      Abreast after after' := by
  obtain ⟨hstorage, hparents, hqueue, htotal, verdict, hshown, hstopped⟩ := publish_eq_ok h
  obtain ⟨pending, count, stopped, watcher⟩ := agenda
  obtain ⟨pending', count', stopped', watcher'⟩ := agenda'
  dsimp only at hgoes hpending hcount hqueue htotal hshown hstopped
  subst hgoes hpending hcount
  cases hstops _ _ _ _ _ hshown
  obtain ⟨next, verdict', hother⟩ := hrefuses watcher' origin intake.transitions
  by_cases hroom : plan.transitionCapacity < count + intake.transitions.length
  · rw [publish, if_pos hroom] at h
    cases h
  · have hcapacity : (plan.watchedBy other).transitionCapacity = plan.transitionCapacity := rfl
    have hobserver : (plan.watchedBy other).observer = other := rfl
    rw [publish, hcapacity, if_neg hroom, hobserver, hother]
    refine ⟨_, rfl, hstorage, hparents, hqueue, htotal, ?_⟩
    rw [hstopped]
    rfl

theorem Abreast.advance {proposed : Except StepError (List (Candidate α))}
    (hbefore : Abreast left right) (h : advance plan origin proposed left = .ok after) :
    ∃ after', advance (plan.watchedBy other) origin proposed right = .ok after' ∧
      Abreast after after' := by
  obtain ⟨storage, parents, agenda⟩ := left
  obtain ⟨storage', parents', agenda'⟩ := right
  obtain ⟨hstorage, hparents, hpending, hcount, hgoes⟩ := hbefore
  dsimp only at hstorage hparents hpending hcount hgoes
  subst hstorage hparents
  have hmodel : (plan.watchedBy other).model = plan.model := rfl
  rw [Traversal.advance] at h ⊢
  rw [hmodel]
  cases hlabelled : proposed.bind (labelled plan.model) with
  | error error =>
      rw [hlabelled] at h
      cases h
  | ok candidates =>
      have heffective : effective (plan.watchedBy other) candidates = effective plan candidates :=
        rfl
      rw [hlabelled] at h
      dsimp only at h ⊢
      rw [commit] at h ⊢
      rw [heffective, hmodel]
      cases hstored : (effective plan candidates).foldlM (Intake.store plan.model origin)
          ⟨storage, parents, [], []⟩ with
      | error error =>
          rw [hstored] at h
          cases h
      | ok intake =>
          rw [hstored] at h
          exact publish_abreast hstops hrefuses hgoes hpending hcount h

variable [Scalar α]

theorem Abreast.expand {source : Nat} (hbefore : Abreast left right)
    (h : expand plan left source = .ok after) :
    ∃ after', expand (plan.watchedBy other) right source = .ok after' ∧ Abreast after after' := by
  rw [Traversal.expand] at h ⊢
  rw [← hbefore.storage]
  cases hget : left.storage.get source with
  | error misuse =>
      rw [hget] at h
      cases h
  | ok vector =>
      rw [hget] at h
      dsimp only at h ⊢
      cases hstate : modelState? vector with
      | some state =>
          rw [hstate] at h
          exact hbefore.advance hstops hrefuses h
      | none =>
          rw [hstate] at h
          rw [← hbefore.parents]
          exact publish_abreast hstops hrefuses hbefore.goes hbefore.pending hbefore.count h

/-- The second exploration may be stopped on the way, and then has come to its end too. -/
theorem Abreast.run {fuel : Nat} (hbefore : Abreast left right)
    (h : run plan fuel left = .ok after) :
    ∃ after', run (plan.watchedBy other) fuel right = .ok after' := by
  induction fuel generalizing left right with
  | zero => exact ⟨right, rfl⟩
  | succ fuel ih =>
      obtain ⟨storage', parents', pending', count', stopped', watcher'⟩ := right
      cases stopped' with
      | true => cases pending' <;> exact ⟨_, rfl⟩
      | false =>
          cases pending' with
          | nil => exact ⟨_, rfl⟩
          | cons source rest =>
              obtain ⟨storage, parents, pending, count, stopped, watcher⟩ := left
              obtain ⟨hstorage, hparents, hpending, hcount, hgoes⟩ := hbefore
              dsimp only at hstorage hparents hpending hcount hgoes
              subst hstorage hparents hpending hcount hgoes
              have hpopped : Abreast
                  (⟨storage, parents, ⟨rest, count, false, watcher⟩⟩ : Exploration σ)
                  (⟨storage, parents, ⟨rest, count, false, watcher'⟩⟩ : Exploration τ) :=
                ⟨rfl, rfl, rfl, rfl, rfl⟩
              rw [Traversal.run] at h ⊢
              cases hnext : Traversal.expand plan
                  ⟨storage, parents, ⟨rest, count, false, watcher⟩⟩ source with
              | error error =>
                  rw [hnext] at h
                  cases h
              | ok next =>
                  rw [hnext] at h
                  obtain ⟨next', hnext', habreast⟩ := hpopped.expand hstops hrefuses hnext
                  rw [hnext']
                  exact ih habreast h

end Step

section Whole

variable [Scalar α] {model : Model α} {config : TraversalConfig} {options : TraversalOptions α}
  {observer : Observer α σ} {watcher : σ} {space : StateSpace} {final : σ}

/-- What every batch that is shown keeps, of the watcher and of whether it ended the exploration,
holds at the end. -/
theorem traverse_keeps {motive : Bool → σ → Prop}
    (hshow : ∀ stopped watcher origin batch next verdict, motive stopped watcher →
      observer.observe watcher origin batch = (next, .ok verdict) →
        motive (stopped || verdict = .stop) next)
    (hstart : motive false watcher)
    (h : traverse model config options observer watcher = .ok (space, final)) :
    motive space.stopped final := by
  obtain ⟨activations, storage, started, done, -, -, hsound, hempty, -, hstarted, hdone, rfl,
    rfl⟩ := traverse_eq_ok h
  generalize hplan : planFor model activations config options observer = plan at hstarted hdone
  have hexpands {origin : Origin} {batch : List (Transition α)} {added : List Bytes}
      {before after : Exploration σ} (hexpands : Expands plan origin batch added before after)
      (hbefore : motive before.agenda.stopped before.agenda.watcher) :
      motive after.agenda.stopped after.agenda.watcher := by
    obtain ⟨verdict, hshown, hstopped⟩ := hexpands.shown
    rw [← hplan] at hshown
    rw [hstopped]
    exact hshow _ _ _ _ _ _ hbefore hshown
  obtain ⟨batch, added, hinitial⟩ := expands_of_expandInitial hsound hstarted
  have hkept := run_keeps (motive := fun steps exploration =>
      motive exploration.agenda.stopped exploration.agenda.watcher ∧
        ∃ stream, Explored plan watcher steps stream exploration) ?_
    ⟨hexpands hinitial hstart, _, explored_of_initial hinitial hempty rfl⟩ hdone
  · obtain ⟨-, ⟨hend, -⟩, -⟩ := hkept
    exact hend
  · rintro steps before source rest after ⟨hbefore, stream, hexplored⟩ hpending - hexpand
    obtain ⟨batch, added, hnext⟩ := hexplored.expands hexpand
    exact ⟨hexpands hnext hbefore, _, hexplored.step hpending hnext⟩

theorem traverse_goes (hstops : observer.NeverStops)
    (h : traverse model config options observer watcher = .ok (space, final)) :
    space.stopped = false := by
  refine traverse_keeps (motive := fun stopped _ => stopped = false) ?_ rfl h
  rintro _ watcher origin batch next verdict rfl hshown
  cases hstops _ _ _ _ _ hshown
  rfl

theorem traverse_succeeds (hstops : observer.NeverStops) (hrefuses : other.NeverRefuses)
    (h : traverse model config options observer watcher = .ok (space, final)) (start : τ) :
    ∃ space' final', traverse model config options other start = .ok (space', final') := by
  rw [traverse] at h ⊢
  cases hactivations : model.activateAll (options.activations.getD []) with
  | error misuse =>
      rw [hactivations] at h
      cases h
  | ok activations =>
      rw [hactivations] at h
      dsimp only at h ⊢
      by_cases hroom : IndexSet.limit < model.propositions.length
      · rw [if_pos hroom] at h
        cases h
      · rw [if_neg hroom] at h ⊢
        cases hcreate : Storage.create (model.stateSize + 1) config.stateCapacity with
        | error misuse =>
            rw [hcreate] at h
            cases h
        | ok storage =>
            rw [hcreate] at h
            obtain ⟨started, hstarted, h⟩ := bind_eq_ok.1 h
            obtain ⟨done, hdone, -⟩ := bind_eq_ok.1 h
            have hempty : Abreast (⟨storage, #[], ⟨[], 0, false, watcher⟩⟩ : Exploration σ)
                (⟨storage, #[], ⟨[], 0, false, start⟩⟩ : Exploration τ) :=
              ⟨rfl, rfl, rfl, rfl, rfl⟩
            obtain ⟨started', hstarted', habreast⟩ := hempty.advance hstops hrefuses hstarted
            obtain ⟨done', hdone'⟩ := habreast.run hstops hrefuses hdone
            exact ⟨_, _, bind_eq_ok.2 ⟨started', hstarted', bind_eq_ok.2 ⟨done', hdone', rfl⟩⟩⟩

end Whole

end Traversal

end Hazard
