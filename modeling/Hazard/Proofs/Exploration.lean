import Hazard.Proofs.Activations
import Hazard.Proofs.Expansion
/-!
# Explorations are exact

Expanding states in the order in which they were found, an exploration stores the vectors that can
be reached and no others, each once, and shows its observers the transitions of every one of them.
The invariant ties the queue to the storage: the states still to be expanded are those with the
highest indices.
-/

namespace Hazard

/-! ## What observers see -/

namespace Observer

variable {α σ : Type} {observer : Observer α σ} {watcher next final : σ} {origin : Origin}
  {batch : List (Transition α)} {stream : List (Origin × List (Transition α))}

/-- The watcher lets every batch of a stream pass, and what it sees turns it into another. -/
inductive Passes (observer : Observer α σ) : σ → List (Origin × List (Transition α)) → σ → Prop
  | nil {watcher : σ} : Passes observer watcher [] watcher
  | cons {watcher next final : σ} {origin : Origin} {batch : List (Transition α)}
      {rest : List (Origin × List (Transition α))}
      (hshown : observer.observe watcher origin batch = (next, .ok .proceed))
      (hrest : Passes observer next rest final) :
      Passes observer watcher ((origin, batch) :: rest) final

theorem Passes.snoc (hstream : observer.Passes watcher stream next)
    (hshown : observer.observe next origin batch = (final, .ok .proceed)) :
    observer.Passes watcher (stream ++ [(origin, batch)]) final := by
  induction hstream with
  | nil => exact .cons hshown .nil
  | cons hfirst _ ih => exact .cons hfirst (ih hshown)

theorem observeAll_proceed {observers : List (Observer α σ)} {watchers nexts : List σ}
    (h : observeAll origin batch observers watchers = (nexts, .ok .proceed)) {position : Nat}
    (hobserver : observers[position]? = some observer)
    (hwatcher : watchers[position]? = some watcher) :
    ∃ next, nexts[position]? = some next ∧
      observer.observe watcher origin batch = (next, .ok .proceed) := by
  induction observers generalizing watchers nexts position with
  | nil => simp at hobserver
  | cons first others ih =>
      cases watchers with
      | nil => simp at hwatcher
      | cons own rest =>
          rw [observeAll] at h
          split at h
          · cases h
          · next changed verdict hshown =>
            generalize hothers : observeAll origin batch others rest = outcome at h
            obtain ⟨later, result⟩ := outcome
            cases result with
            | error error => cases h
            | ok other =>
                simp only [Except.map, Prod.mk.injEq, Except.ok.injEq] at h
                obtain ⟨rfl, hverdict⟩ := h
                split at hverdict
                · cases hverdict
                · next hgoes =>
                  cases hverdict
                  cases position with
                  | zero =>
                      cases hobserver
                      cases hwatcher
                      cases verdict with
                      | stop => exact absurd rfl hgoes
                      | proceed => exact ⟨changed, rfl, hshown⟩
                  | succ position => exact ih hothers hobserver hwatcher

theorem passes_inTurn {observers : List (Observer α σ)} {watchers finals : List σ}
    (h : (inTurn observers).Passes watchers stream finals) {position : Nat}
    (hobserver : observers[position]? = some observer)
    (hwatcher : watchers[position]? = some watcher) :
    ∃ final, finals[position]? = some final ∧ observer.Passes watcher stream final := by
  induction stream generalizing watchers watcher with
  | nil =>
      cases h
      exact ⟨watcher, hwatcher, .nil⟩
  | cons entry rest ih =>
      cases h with
      | cons hshown hrest =>
          obtain ⟨next, hnext, hobserved⟩ := observeAll_proceed hshown hobserver hwatcher
          obtain ⟨final, hfinal, hpasses⟩ := ih hrest hnext
          exact ⟨final, hfinal, .cons hobserved hpasses⟩

end Observer

namespace Traversal

variable {α σ : Type} [Scalar α] {plan : Plan α σ} {watcher : σ} {steps : Nat}
  {stream : List (Origin × List (Transition α))} {origin : Origin}
  {batch : List (Transition α)} {added : List Bytes} {before after : Exploration σ}

/-! ## One expansion after another -/

/-- After the initial step and so many expansions, with the batches shown so far. -/
structure Explored (plan : Plan α σ) (watcher : σ) (steps : Nat)
    (stream : List (Origin × List (Transition α))) (exploration : Exploration σ) : Prop where
  sound : exploration.storage.Sound
  reachable : ∀ vector ∈ exploration.storage.vectors, plan.scenario.Reachable vector
  steps_le : steps ≤ exploration.storage.size
  pending : exploration.agenda.pending =
    List.range' steps (exploration.storage.size - steps)
  origins : stream.map (·.1) = none :: (List.range steps).map some
  batches : ∀ entry ∈ stream,
    plan.scenario.IsBatch exploration.storage.vectors entry.1 entry.2
  count : exploration.agenda.transitionCount = (stream.flatMap (·.2)).length
  passes : exploration.agenda.stopped = false →
    plan.observer.Passes watcher stream exploration.agenda.watcher

theorem Expands.size (h : Expands plan origin batch added before after) :
    after.storage.size = before.storage.vectors.size + added.length := by
  rw [h.sound.size_eq]
  simpa using congrArg List.length h.vectors

theorem Expands.reachable (h : Expands plan origin batch added before after)
    (hbefore : ∀ vector ∈ before.storage.vectors, plan.scenario.Reachable vector)
    (vector : Bytes) (hvector : vector ∈ after.storage.vectors) :
    plan.scenario.Reachable vector := by
  rw [← Array.mem_toList_iff, h.vectors, List.mem_append, Array.mem_toList_iff] at hvector
  rcases hvector with hvector | hvector
  · exact hbefore vector hvector
  · obtain ⟨source, hsource, hyields⟩ := h.yields vector hvector
    cases hsource with
    | initial => exact .initial hyields
    | state hindex => exact .step (hbefore _ (Array.mem_of_getElem? hindex)) hyields

theorem Expands.passes (h : Expands plan origin batch added before after)
    (hbefore : before.agenda.stopped = false →
      plan.observer.Passes watcher stream before.agenda.watcher)
    (hgoes : after.agenda.stopped = false) :
    plan.observer.Passes watcher (stream ++ [(origin, batch)]) after.agenda.watcher := by
  obtain ⟨verdict, hshown, hstopped⟩ := h.shown
  rw [hgoes] at hstopped
  cases verdict with
  | stop => simp at hstopped
  | proceed => exact (hbefore (by simpa using hstopped.symm)).snoc hshown

theorem explored_of_initial (h : Expands plan none batch added before after)
    (hempty : before.storage.vectors = #[]) (hagenda : before.agenda = ⟨[], 0, false, watcher⟩) :
    Explored plan watcher 0 [(none, batch)] after where
  sound := h.sound
  reachable := h.reachable (by simp [hempty])
  steps_le := Nat.zero_le _
  pending := by
    rw [h.pending, h.size, hagenda, hempty]
    simp
  origins := rfl
  batches := by simpa using h.isBatch
  count := by simp [h.count, hagenda]
  passes := by
    have hnil : before.agenda.stopped = false →
        plan.observer.Passes watcher [] before.agenda.watcher := by
      rw [hagenda]
      exact fun _ => .nil
    exact h.passes hnil

/-- The queue gives out the states in the order of their indices. -/
theorem Explored.source_eq {source : Nat} {rest : List Nat}
    (hbefore : Explored plan watcher steps stream before)
    (hpending : before.agenda.pending = source :: rest) :
    source = steps ∧ steps < before.storage.size ∧
      rest = List.range' (steps + 1) (before.storage.size - (steps + 1)) := by
  rw [hbefore.pending] at hpending
  cases hleft : before.storage.size - steps with
  | zero => simp [hleft] at hpending
  | succ left =>
      rw [hleft, List.range'_succ] at hpending
      cases hpending
      have hrest : left = before.storage.size - (steps + 1) := by omega
      exact ⟨rfl, by omega, by rw [hrest]⟩

def pop (exploration : Exploration σ) (rest : List Nat) : Exploration σ :=
  { exploration with agenda := { exploration.agenda with pending := rest } }

theorem Explored.step {source : Nat} {rest : List Nat}
    (hbefore : Explored plan watcher steps stream before)
    (hpending : before.agenda.pending = source :: rest)
    (h : Expands plan (some source) batch added (pop before rest) after) :
    Explored plan watcher (steps + 1) (stream ++ [(some source, batch)]) after := by
  obtain ⟨rfl, hlt, hrest⟩ := hbefore.source_eq hpending
  rw [hbefore.sound.size_eq] at hlt hrest
  have hsize : after.storage.size = before.storage.vectors.size + added.length := h.size
  have hvectors : after.storage.vectors.toList = before.storage.vectors.toList ++ added := h.vectors
  constructor
  · exact h.sound
  · exact h.reachable hbefore.reachable
  · omega
  · have hleft : after.storage.size - (source + 1) =
        before.storage.vectors.size - (source + 1) + added.length := by omega
    have hnext : before.storage.vectors.size =
        source + 1 + (before.storage.vectors.size - (source + 1)) := by omega
    calc after.agenda.pending = rest ++ List.range' before.storage.vectors.size added.length :=
          h.pending
      _ = _ := by rw [hrest, hleft, ← List.range'_append_1, ← hnext]
  · rw [List.map_append, hbefore.origins, List.range_succ]
    simp
  · intro entry hentry
    rcases List.mem_append.1 hentry with hentry | hentry
    · exact (hbefore.batches entry hentry).append hvectors
    · rw [List.mem_singleton.1 hentry]
      exact h.isBatch
  · have hcount : after.agenda.transitionCount = before.agenda.transitionCount + batch.length :=
      h.count
    rw [hcount, hbefore.count]
    simp
  · exact h.passes hbefore.passes

theorem Explored.shape (h : Explored plan watcher steps stream before) (vector : Bytes)
    (hvector : vector ∈ before.storage.vectors) :
    vector = plan.scenario.stutter ∨ ∃ state, vector = regular :: state := by
  obtain ⟨source, hyields⟩ := (h.reachable vector hvector).yields
  exact hyields.shape

theorem Explored.expands {source : Nat} {rest : List Nat}
    (hbefore : Explored plan watcher steps stream before)
    (hexpand : expand plan (pop before rest) source = .ok after) :
    ∃ batch added, Expands plan (some source) batch added (pop before rest) after := by
  apply expands_of_expand _ _ hexpand
  · exact hbefore.sound
  · exact hbefore.shape

/-! ## The whole run -/

/-- What every expansion hands on holds at the end of a run, which comes when the queue is empty,
when an observer stops it, or when the fuel is spent. -/
theorem run_keeps {motive : Nat → Exploration σ → Prop}
    (hstep : ∀ steps before source rest after, motive steps before →
      before.agenda.pending = source :: rest → before.agenda.stopped = false →
        expand plan (pop before rest) source = .ok after → motive (steps + 1) after)
    {fuel : Nat} {start final : Exploration σ} (hstart : motive steps start)
    (h : run plan fuel start = .ok final) :
    ∃ last, motive last final ∧ (final.agenda.pending = [] ∨ final.agenda.stopped = true ∨
      last = steps + fuel) := by
  induction fuel generalizing steps start with
  | zero =>
      cases h
      exact ⟨steps, hstart, .inr (.inr rfl)⟩
  | succ fuel ih =>
      obtain ⟨storage, parents, pending, count, stopped, current⟩ := start
      cases stopped with
      | true =>
          have hend : final = ⟨storage, parents, pending, count, true, current⟩ := by
            cases pending <;> cases h <;> rfl
          subst hend
          exact ⟨steps, hstart, .inr (.inl rfl)⟩
      | false =>
          cases pending with
          | nil =>
              cases h
              exact ⟨steps, hstart, .inl rfl⟩
          | cons source rest =>
              rw [run] at h
              split at h
              · cases h
              · next next hnext =>
                obtain ⟨last, hlast, hend⟩ :=
                  ih (hstep steps _ source rest next hstart rfl rfl hnext) h
                refine ⟨last, hlast, ?_⟩
                rcases hend with hempty | hstopped | hspent
                · exact .inl hempty
                · exact .inr (.inl hstopped)
                · exact .inr (.inr (by omega))

def planFor (model : Model α) (activations : List Activation) (config : TraversalConfig)
    (options : TraversalOptions α) (observer : Observer α σ) : Plan α σ :=
  ⟨model, activations, options.modifiers, observer, config.transitionCapacity⟩

variable {model : Model α} {config : TraversalConfig} {options : TraversalOptions α}
  {observer : Observer α σ} {space : StateSpace} {final : σ}

theorem traverse_parts (h : traverse model config options observer watcher = .ok (space, final)) :
    ∃ activations storage started done,
      model.activateAll (options.activations.getD []) = .ok activations ∧
      model.propositions.length ≤ IndexSet.limit ∧
      Storage.create (model.stateSize + 1) config.stateCapacity = .ok storage ∧
      expandInitial (planFor model activations config options observer)
        ⟨storage, #[], ⟨[], 0, false, watcher⟩⟩ = .ok started ∧
      run (planFor model activations config options observer) config.stateCapacity started =
        .ok done ∧
      space = ⟨done.storage, done.parents, done.agenda.transitionCount, done.agenda.stopped,
        model.propositions⟩ ∧ final = done.agenda.watcher := by
  rw [traverse] at h
  split at h
  · cases h
  · next activations hactivations =>
    split at h
    · cases h
    · next hroom =>
      split at h
      · cases h
      · next storage hcreate =>
        obtain ⟨started, hstarted, h⟩ := bind_eq_ok.1 h
        obtain ⟨done, hdone, h⟩ := bind_eq_ok.1 h
        cases h
        exact ⟨activations, storage, started, done, hactivations, Nat.le_of_not_lt hroom, hcreate,
          hstarted, hdone, rfl, rfl⟩

/-- The parts of an exploration, which begins with a storage that is empty and in order. -/
theorem traverse_eq_ok (h : traverse model config options observer watcher = .ok (space, final)) :
    ∃ activations storage started done,
      model.activateAll (options.activations.getD []) = .ok activations ∧
      model.propositions.length ≤ IndexSet.limit ∧
      storage.Sound ∧ storage.vectors = #[] ∧ storage.capacity = config.stateCapacity ∧
      expandInitial (planFor model activations config options observer)
        ⟨storage, #[], ⟨[], 0, false, watcher⟩⟩ = .ok started ∧
      run (planFor model activations config options observer) config.stateCapacity started =
        .ok done ∧
      space = ⟨done.storage, done.parents, done.agenda.transitionCount, done.agenda.stopped,
        model.propositions⟩ ∧ final = done.agenda.watcher := by
  obtain ⟨activations, storage, started, done, hactivations, hlabels, hcreate, hrest⟩ :=
    traverse_parts h
  obtain ⟨hsound, hempty, hcapacity⟩ := Storage.sound_create hcreate
  exact ⟨activations, storage, started, done, hactivations, hlabels, hsound, hempty, hcapacity,
    hrest⟩

/-! ## What a complete exploration has found -/

/-- A run that is not stopped ends when all states have been expanded: there is no room for more
states than the fuel allows for. -/
theorem Explored.steps_eq (h : Explored plan watcher steps stream after)
    (hgoes : after.agenda.stopped = false)
    (hend : after.agenda.pending = [] ∨ after.agenda.stopped = true ∨
      steps = 0 + after.storage.capacity) : steps = after.storage.size := by
  have hle := h.steps_le
  rcases hend with hempty | hstopped | hspent
  · rw [h.pending] at hempty
    have hleft : after.storage.size - steps = 0 := by simpa using hempty
    omega
  · exact absurd (hgoes.symm.trans hstopped) (by decide)
  · have hroom := after.storage.size_le
    omega

theorem Explored.origin_mem (h : Explored plan watcher steps stream after) {origin : Origin}
    (horigin : ∀ index ∈ origin, index < steps) : origin ∈ stream.map (·.1) := by
  rw [h.origins]
  cases origin with
  | none => simp
  | some index => simpa using horigin index rfl

theorem Explored.exists_batch (h : Explored plan watcher steps stream after) {origin : Origin}
    (horigin : ∀ index ∈ origin, index < steps) : ∃ batch, (origin, batch) ∈ stream := by
  obtain ⟨⟨_, batch⟩, hentry, rfl⟩ := List.mem_map.1 (h.origin_mem horigin)
  exact ⟨batch, hentry⟩

theorem Explored.mem_of_yields (h : Explored plan watcher steps stream after) {origin : Origin}
    {source : Option Bytes} {vector : Bytes} (horigin : ∀ index ∈ origin, index < steps)
    (hsource : Scenario.Source after.storage.vectors origin source)
    (hyields : plan.scenario.Yields source vector) : vector ∈ after.storage.vectors := by
  obtain ⟨batch, hentry⟩ := h.exists_batch horigin
  obtain ⟨transition, -, htarget⟩ :=
    (h.batches _ hentry).exists_transition hsource hyields
  exact Array.mem_of_getElem? htarget

theorem Explored.mem_of_reachable (h : Explored plan watcher steps stream after)
    (hall : steps = after.storage.size) {vector : Bytes}
    (hvector : plan.scenario.Reachable vector) : vector ∈ after.storage.vectors := by
  induction hvector with
  | initial hyields => exact h.mem_of_yields (by simp) .initial hyields
  | step _ hyields ih =>
      obtain ⟨index, hindex⟩ := Array.getElem?_of_mem ih
      have hlt : index < after.storage.size := by
        rw [h.sound.size_eq]
        exact (Array.getElem?_eq_some_iff.1 hindex).1
      exact h.mem_of_yields (by simpa [hall] using hlt) (.state hindex) hyields

theorem exists_explored
    (h : traverse model config options observer watcher = .ok (space, final))
    (hgoes : space.stopped = false) :
    ∃ activations done stream,
      model.activateAll (options.activations.getD []) = .ok activations ∧
      Explored (planFor model activations config options observer) watcher space.stateCount
        stream done ∧
      space = ⟨done.storage, done.parents, done.agenda.transitionCount, false,
        model.propositions⟩ ∧
      final = done.agenda.watcher ∧ done.agenda.stopped = false := by
  obtain ⟨activations, storage, started, done, hactivations, -, hsound, hempty, hcapacity,
    hstarted, hdone, rfl, rfl⟩ := traverse_eq_ok h
  generalize hplan : planFor model activations config options observer = plan at hstarted hdone
  obtain ⟨batch, added, hinitial⟩ := expands_of_expandInitial hsound hstarted
  have hstart : started.storage.capacity = config.stateCapacity ∧
      ∃ stream, Explored plan watcher 0 stream started :=
    ⟨hinitial.capacity.trans hcapacity, _, explored_of_initial hinitial hempty rfl⟩
  have hkept := run_keeps (motive := fun steps exploration =>
      exploration.storage.capacity = config.stateCapacity ∧
        ∃ stream, Explored plan watcher steps stream exploration) ?_ hstart hdone
  · obtain ⟨last, ⟨hroom, stream, hexplored⟩, hend⟩ := hkept
    rw [← hroom] at hend
    have hlast := hexplored.steps_eq hgoes hend
    refine ⟨activations, done, stream, hactivations, ?_, ?_, rfl, hgoes⟩
    · rw [hplan]
      subst hlast
      exact hexplored
    · rw [show done.agenda.stopped = false from hgoes]
  · rintro steps before source rest after ⟨hroom, stream, hexplored⟩ hpending _ hexpand
    obtain ⟨batch, added, hexpands⟩ := hexplored.expands hexpand
    exact ⟨hexpands.capacity.trans hroom, _, hexplored.step hpending hexpands⟩

/-- The space holds what can be reached, each vector once, and the stream has the initial batch and
then the batches of all states in the order of their indices. -/
structure IsSpace (scenario : Scenario α) (space : StateSpace)
    (stream : List (Origin × List (Transition α))) : Prop where
  mem_iff : ∀ vector, vector ∈ space.storage.vectors ↔ scenario.Reachable vector
  nodup : space.storage.vectors.toList.Nodup
  origins : stream.map (·.1) = none :: (List.range space.stateCount).map some
  batches : ∀ entry ∈ stream, scenario.IsBatch space.storage.vectors entry.1 entry.2
  count : space.transitionCount = (stream.flatMap (·.2)).length

/-- The activations are those given for the first faults and the declared ones for the others, and
the space is that of the model under them. -/
structure Finds (model : Model α) (options : TraversalOptions α) (space : StateSpace)
    (activations : List Activation) (stream : List (Origin × List (Transition α))) : Prop where
  activateAll_eq : model.activateAll (options.activations.getD []) = .ok activations
  activations_eq : activations = (options.activations.getD []).take model.faults.length ++
    model.declared.drop (options.activations.getD []).length
  isSpace : IsSpace ⟨model, activations, options.modifiers⟩ space stream

theorem exists_finds (hrun : traverse model config options observer watcher = .ok (space, final))
    (hgoes : space.stopped = false) :
    ∃ activations stream, Finds model options space activations stream ∧
      observer.Passes watcher stream final := by
  obtain ⟨activations, done, stream, hactivations, hexplored, rfl, rfl, hrunning⟩ :=
    exists_explored hrun hgoes
  refine ⟨activations, stream, ⟨hactivations, Model.activateAll_eq_ok hactivations, ?_⟩,
    hexplored.passes hrunning⟩
  constructor
  · exact fun vector => ⟨hexplored.reachable vector, hexplored.mem_of_reachable rfl⟩
  · exact hexplored.sound.nodup
  · exact hexplored.origins
  · exact hexplored.batches
  · exact hexplored.count

/-- An exploration that is not stopped finds exactly what can be reached, and its observer is shown
all of it. Of several observers in turn every one is. -/
theorem traverse_exact (model : Model α) (config : TraversalConfig)
    (options : TraversalOptions α) (space : StateSpace) (hgoes : space.stopped = false) :
    (∀ (observer : Observer α σ) (watcher final : σ),
      traverse model config options observer watcher = .ok (space, final) →
      ∃ activations stream, Finds model options space activations stream ∧
        observer.Passes watcher stream final) ∧
    ∀ (observers : List (Observer α σ)) (watchers finals : List σ),
      traverse model config options (.inTurn observers) watchers = .ok (space, finals) →
      ∃ activations stream, Finds model options space activations stream ∧
        ∀ (position : Nat) (observer : Observer α σ) (watcher : σ),
          observers[position]? = some observer → watchers[position]? = some watcher →
            ∃ final, finals[position]? = some final ∧ observer.Passes watcher stream final := by
  refine ⟨fun observer watcher final hrun => exists_finds hrun hgoes,
    fun observers watchers finals hrun => ?_⟩
  obtain ⟨activations, stream, hfinds, hpasses⟩ := exists_finds hrun hgoes
  exact ⟨activations, stream, hfinds, fun position observer watcher hobserver hwatcher =>
    Observer.passes_inTurn hpasses hobserver hwatcher⟩

/-- A lamp that blinks until it breaks, which it can only do by a fault; a lamp that is broken stays
so. -/
def blinker : Model Rat where
  stateSize := 1
  propositions := ["lit"]
  faults := [{ name := "Break" }, { name := "Dim" }]
  start := [0]
  holds state _ := state == [1]
  initial _ := .ok [{ target := [0], probability := 1 }]
  step activations state :=
    if state = [0] then
      .ok [{ target := [1], probability := 1 / 2 },
        { target := [7], probability := 1, valid := false },
        { target := [0], probability := 1 / 2 }]
    else .ok [{ target := [0], probability := 1 / 2 },
      { target := [1], probability := 1 / 2, stuttering := activations.head? == some .forced }]
  refuse _ := none

def recorder : Observer Rat (List (Origin × List (Transition Rat))) :=
  ⟨fun seen origin batch => (seen ++ [(origin, batch)], .ok .proceed)⟩

/-- Two recorders in turn are both shown everything, where the first fault is forced and the second
is as declared. -/
theorem traverse_exact_blinker :
    ∃ space finals stream,
      traverse blinker { stateCapacity := 4 } { activations := some [.forced] }
        (.inTurn [recorder, recorder]) [[], []] = .ok (space, finals) ∧
      space.stopped = false ∧ space.stateCount = 3 ∧
      IsSpace ⟨blinker, [.forced, .nondeterministic], []⟩ space stream ∧
      ∃ final, finals[1]? = some final ∧ recorder.Passes [] stream final := by
  have hrun : ∃ space finals,
      traverse blinker { stateCapacity := 4 } { activations := some [.forced] }
        (.inTurn [recorder, recorder]) [[], []] = .ok (space, finals) ∧
      space.stopped = false ∧ space.stateCount = 3 := by
    refine ⟨_, _, rfl, ?_, ?_⟩ <;> decide +kernel
  obtain ⟨space, finals, hok, hgoes, hcount⟩ := hrun
  obtain ⟨activations, stream, hfinds, hpasses⟩ :=
    (traverse_exact blinker { stateCapacity := 4 } { activations := some [.forced] } space
      hgoes).2 [recorder, recorder] [[], []] finals hok
  have hspace := hfinds.isSpace
  rw [hfinds.activations_eq] at hspace
  exact ⟨space, finals, stream, hok, hgoes, hcount, hspace, hpasses 1 recorder [] rfl rfl⟩

end Traversal

end Hazard
