import Hazard.Proofs.Exploration
import Mathlib.Logic.Relation
/-!
# The order of expansions does not matter

Several workers take pending states as they come, so the states of a model may be expanded in any
order. Indices, parents and the order of the batches then differ from run to run. What is found does
not: named by their vectors, the states and the transitions of each of them are the same after all
runs that come to their end.
-/

namespace Hazard

open Relation (ReflTransGen)

variable {α σ : Type}

abbrev Keeping (α σ : Type) := σ × List (Origin × List (Transition α))

def Observer.keeping (observer : Observer α σ) : Observer α (Keeping α σ) :=
  ⟨fun kept origin batch =>
    (((observer.observe kept.1 origin batch).1, kept.2 ++ [(origin, batch)]),
      (observer.observe kept.1 origin batch).2)⟩

/-! ## Transitions without indices -/

structure Passage (α : Type) where
  target : Option Bytes
  probability : α
  label : Label
  distribution : Nat
  deriving DecidableEq, Repr

def Transition.passage (vectors : Array Bytes) (transition : Transition α) : Passage α :=
  ⟨vectors[transition.target]?, transition.probability, transition.label, transition.distribution⟩

def named (vectors : Array Bytes) (entry : Origin × List (Transition α)) :
    Option (Option Bytes) × List (Passage α) :=
  (entry.1.map (vectors[·]?), entry.2.map (·.passage vectors))

namespace Scenario

variable {scenario : Scenario α} {vectors : Array Bytes} {origin : Origin}
  {batch : List (Transition α)}

def passage (scenario : Scenario α) (candidate : Candidate α) : Passage α :=
  ⟨some (Traversal.image scenario.model candidate), candidate.probability, candidate.label,
    candidate.distribution⟩

inductive Leaves [Scalar α] (scenario : Scenario α) :
    Option (Option Bytes) → List (Passage α) → Prop
  | initial {candidates : List (Candidate α)} (hoffers : scenario.Offers none candidates) :
      Leaves scenario none (candidates.map scenario.passage)
  | regular {state : Bytes} {candidates : List (Candidate α)}
      (hoffers : scenario.Offers (some state) candidates) :
      Leaves scenario (some (some (Traversal.regular :: state)))
        (candidates.map scenario.passage)
  | stuttering :
      Leaves scenario (some (some scenario.stutter)) [⟨some scenario.stutter, 1, .empty, 0⟩]

theorem Leaves.unique [Scalar α] {source : Option (Option Bytes)} {left right : List (Passage α)}
    (hleft : scenario.Leaves source left) (hright : scenario.Leaves source right) :
    left = right := by
  cases hleft with
  | initial hoffers =>
      cases hright with
      | initial hoffers' => rw [hoffers.unique hoffers']
  | @regular state candidates hoffers =>
      generalize hsource : some (some (Traversal.regular :: state)) = source at hright
      cases hright with
      | initial => cases hsource
      | regular hoffers' =>
          cases hsource
          rw [hoffers.unique hoffers']
      | stuttering =>
          have heq := (Option.some.inj (Option.some.inj hsource)).symm
          exact absurd heq (scenario.stutter_ne_regular state)
  | stuttering =>
      generalize hsource : some (some scenario.stutter) = source at hright
      cases hright with
      | initial => cases hsource
      | @regular state =>
          have heq := Option.some.inj (Option.some.inj hsource)
          exact absurd heq (scenario.stutter_ne_regular state)
      | stuttering => rfl

theorem passage_of_reports {candidate : Candidate α} {transition : Transition α}
    (h : scenario.Reports vectors candidate transition) :
    transition.passage vectors = scenario.passage candidate := by
  rw [Transition.passage, h.target, h.probability, h.label, h.distribution]
  rfl

theorem map_passage_of_reports {candidates : List (Candidate α)}
    (h : List.Forall₂ (scenario.Reports vectors) candidates batch) :
    batch.map (·.passage vectors) = candidates.map scenario.passage := by
  induction h with
  | nil => rfl
  | cons hfirst _ ih => rw [List.map_cons, List.map_cons, passage_of_reports hfirst, ih]

/-- Named by vectors, a batch depends on its source alone. -/
theorem IsBatch.leaves [Scalar α] (h : scenario.IsBatch vectors origin batch) :
    scenario.Leaves (named vectors (origin, batch)).1 (named vectors (origin, batch)).2 := by
  rw [named]
  cases h with
  | offered hsource hoffers hreports =>
      rw [map_passage_of_reports hreports]
      cases hsource with
      | initial => exact .initial hoffers
      | state hindex =>
          simp only [Option.map_some, hindex]
          exact .regular hoffers
  | @stuttering index hindex =>
      simp only [Option.map_some, hindex, List.map_cons, List.map_nil, Transition.passage]
      exact .stuttering

end Scenario

namespace Traversal

variable [Scalar α] {plan : Plan α σ} {origin : Origin} {batch : List (Transition α)}
  {added : List Bytes} {before after done : Exploration σ}
  {stream : List (Origin × List (Transition α))}

/-! ## Runs in any order -/

/-- One expansion of a pending state, be it the oldest or not. -/
inductive Proceeds (plan : Plan α σ) (before after : Exploration σ) : Prop
  | expand {earlier later : List Nat} {source : Nat} (hgoes : before.agenda.stopped = false)
      (hpending : before.agenda.pending = earlier ++ source :: later)
      (hexpand : Traversal.expand plan (pop before (earlier ++ later)) source = .ok after) :
      Proceeds plan before after

/-- An exploration that expands pending states one after another until none is left. No error
occurs, and no observer stops it. -/
inductive CompleteRun (model : Model α) (config : TraversalConfig) (options : TraversalOptions α)
    (observer : Observer α σ) (watcher : σ) (done : Exploration σ) : Prop
  | intro {activations : List Activation} {storage : Storage} {started : Exploration σ}
      (hactivations : model.activateAll (options.activations.getD []) = .ok activations)
      (hlabels : model.propositions.length ≤ IndexSet.limit)
      (hcreate : Storage.create (model.stateSize + 1) config.stateCapacity = .ok storage)
      (hinitial : expandInitial (planFor model activations config options observer)
        ⟨storage, #[], ⟨[], 0, false, watcher⟩⟩ = .ok started)
      (hsteps : ReflTransGen (Proceeds (planFor model activations config options observer))
        started done)
      (hempty : done.agenda.pending = [])
      (hgoes : done.agenda.stopped = false) :
      CompleteRun model config options observer watcher done

/-! ## What every expansion keeps -/

/-- The states found so far have either been expanded, each once, or are pending, whatever the
order was. -/
structure Gathered (plan : Plan α σ) (stream : List (Origin × List (Transition α)))
    (exploration : Exploration σ) : Prop where
  sound : exploration.storage.Sound
  reachable : ∀ vector ∈ exploration.storage.vectors, plan.scenario.Reachable vector
  origins : ∃ expanded : List Nat, stream.map (·.1) = none :: expanded.map some ∧
    (expanded ++ exploration.agenda.pending).Perm (List.range exploration.storage.vectors.size)
  batches : ∀ entry ∈ stream,
    plan.scenario.IsBatch exploration.storage.vectors entry.1 entry.2
  count : exploration.agenda.transitionCount = (stream.flatMap (·.2)).length

theorem Expands.size_vectors (h : Expands plan origin batch added before after) :
    after.storage.vectors.size = before.storage.vectors.size + added.length := by
  simpa using congrArg List.length h.vectors

theorem gathered_initial {watcher : σ} (h : Expands plan none batch added before after)
    (hempty : before.storage.vectors = #[]) (hagenda : before.agenda = ⟨[], 0, false, watcher⟩) :
    Gathered plan [(none, batch)] after where
  sound := h.sound
  reachable := h.reachable (by simp [hempty])
  origins := by
    refine ⟨[], rfl, ?_⟩
    rw [h.pending, h.size_vectors, hagenda, hempty]
    simp [List.range_eq_range']
  batches := by simpa using h.isBatch
  count := by simp [h.count, hagenda]

theorem Gathered.step {earlier later : List Nat} {source : Nat}
    (hbefore : Gathered plan stream before)
    (hpending : before.agenda.pending = earlier ++ source :: later)
    (h : Expands plan (some source) batch added (pop before (earlier ++ later)) after) :
    Gathered plan (stream ++ [(some source, batch)]) after := by
  have hsize : after.storage.vectors.size = before.storage.vectors.size + added.length :=
    h.size_vectors
  have hvectors : after.storage.vectors.toList = before.storage.vectors.toList ++ added := h.vectors
  constructor
  · exact h.sound
  · exact h.reachable hbefore.reachable
  · obtain ⟨expanded, horigins, hall⟩ := hbefore.origins
    refine ⟨expanded ++ [source], by simp [horigins], ?_⟩
    have hnext : after.agenda.pending =
        earlier ++ later ++ List.range' before.storage.vectors.size added.length := h.pending
    have hmoved : (expanded ++ [source] ++ (earlier ++ later)).Perm
        (expanded ++ before.agenda.pending) := by
      rw [hpending, List.append_assoc, List.singleton_append]
      exact List.Perm.append_left expanded List.perm_middle.symm
    rw [hnext, hsize, List.range_eq_range', ← List.range'_append_1, ← List.append_assoc,
      Nat.zero_add, ← List.range_eq_range']
    exact (hmoved.trans hall).append_right _
  · intro entry hentry
    rcases List.mem_append.1 hentry with hentry | hentry
    · exact (hbefore.batches entry hentry).append hvectors
    · rw [List.mem_singleton.1 hentry]
      exact h.isBatch
  · have hcount : after.agenda.transitionCount = before.agenda.transitionCount + batch.length :=
      h.count
    rw [hcount, hbefore.count]
    simp

theorem Gathered.expands {pending : List Nat} {source : Nat}
    (hbefore : Gathered plan stream before)
    (hexpand : expand plan (pop before pending) source = .ok after) :
    ∃ batch added, Expands plan (some source) batch added (pop before pending) after := by
  refine expands_of_expand hbefore.sound ?_ hexpand
  intro vector hvector
  obtain ⟨source, hyields⟩ := (hbefore.reachable vector hvector).yields
  exact hyields.shape

/-! ## The end of a run -/

section Done

variable (h : Gathered plan stream done) (hempty : done.agenda.pending = [])

include h hempty

theorem Gathered.perm_origins : (stream.map (·.1)).Perm
    (none :: (List.range done.storage.vectors.size).map some) := by
  obtain ⟨expanded, horigins, hall⟩ := h.origins
  rw [hempty, List.append_nil] at hall
  rw [horigins]
  exact (hall.map some).cons none

theorem Gathered.exists_batch {origin : Origin}
    (horigin : ∀ index ∈ origin, index < done.storage.vectors.size) :
    ∃ batch, (origin, batch) ∈ stream := by
  have hmem : origin ∈ stream.map (·.1) := by
    rw [(h.perm_origins hempty).mem_iff]
    cases origin with
    | none => exact List.mem_cons_self
    | some index => simpa using horigin index rfl
  obtain ⟨⟨_, batch⟩, hentry, rfl⟩ := List.mem_map.1 hmem
  exact ⟨batch, hentry⟩

theorem Gathered.mem_of_yields {source : Option Bytes} {vector : Bytes} {origin : Origin}
    (hsource : Scenario.Source done.storage.vectors origin source)
    (hyields : plan.scenario.Yields source vector) : vector ∈ done.storage.vectors := by
  have horigin : ∀ index ∈ origin, index < done.storage.vectors.size := by
    cases hsource with
    | initial => simp
    | state hindex => simpa using (Array.getElem?_eq_some_iff.1 hindex).1
  obtain ⟨batch, hentry⟩ := h.exists_batch hempty horigin
  obtain ⟨transition, -, htarget⟩ := (h.batches _ hentry).exists_transition hsource hyields
  exact Array.mem_of_getElem? htarget

theorem Gathered.mem_iff (vector : Bytes) :
    vector ∈ done.storage.vectors ↔ plan.scenario.Reachable vector := by
  refine ⟨h.reachable vector, fun hvector => ?_⟩
  induction hvector with
  | initial hyields => exact h.mem_of_yields hempty .initial hyields
  | step _ hyields ih =>
      obtain ⟨index, hindex⟩ := Array.getElem?_of_mem ih
      exact h.mem_of_yields hempty (.state hindex) hyields

/-- The sources of the named batches are distinct, as stored vectors are. -/
theorem Gathered.nodup_sources :
    ((stream.map (named done.storage.vectors)).map (·.1)).Nodup := by
  have hsources : (stream.map (named done.storage.vectors)).map (·.1) =
      (stream.map (·.1)).map (Option.map (done.storage.vectors[·]?)) := by
    rw [List.map_map, List.map_map]
    rfl
  have hvectors : (List.range done.storage.vectors.size).map (done.storage.vectors[·]?) =
      done.storage.vectors.toList.map some := by
    apply List.ext_getElem <;> simp
  have hall : ((List.range done.storage.vectors.size).map some).map
      (Option.map (done.storage.vectors[·]?)) =
      (done.storage.vectors.toList.map some).map some := by
    rw [← hvectors, List.map_map, List.map_map]
    rfl
  rw [hsources, ((h.perm_origins hempty).map _).nodup_iff, List.map_cons, hall, List.nodup_cons]
  constructor
  · simp
  · refine (h.sound.nodup.map ?_).map ?_
    · exact fun _ _ => Option.some.inj
    · exact fun _ _ => Option.some.inj

/-- The named batches are those that lead from the start and from the vectors that can be
reached. -/
theorem Gathered.mem_named_iff (source : Option (Option Bytes)) (passages : List (Passage α)) :
    (source, passages) ∈ stream.map (named done.storage.vectors) ↔
      plan.scenario.Leaves source passages ∧
        ∀ vector ∈ source, ∃ reached, vector = some reached ∧ plan.scenario.Reachable reached := by
  constructor
  · intro hmem
    obtain ⟨⟨origin, batch⟩, hentry, heq⟩ := List.mem_map.1 hmem
    have hleaves := (h.batches _ hentry).leaves
    rw [heq] at hleaves
    refine ⟨hleaves, fun vector hvector => ?_⟩
    obtain ⟨rfl, -⟩ := Prod.mk.inj heq
    obtain ⟨index, rfl, rfl⟩ := Option.map_eq_some_iff.1 hvector
    have horigin : some index ∈ stream.map (·.1) := List.mem_map.2 ⟨_, hentry, rfl⟩
    rw [(h.perm_origins hempty).mem_iff] at horigin
    have hlt : index < done.storage.vectors.size := by simpa using horigin
    have hindex := Array.getElem?_eq_getElem hlt
    exact ⟨_, hindex, h.reachable _ (Array.mem_of_getElem? hindex)⟩
  · rintro ⟨hleaves, hreached⟩
    obtain ⟨origin, horigin, rfl⟩ : ∃ origin : Origin,
        (∀ index ∈ origin, index < done.storage.vectors.size) ∧
          source = origin.map (done.storage.vectors[·]?) := by
      cases source with
      | none => exact ⟨none, by simp, rfl⟩
      | some vector =>
          obtain ⟨reached, rfl, hvector⟩ := hreached vector rfl
          obtain ⟨index, hindex⟩ :=
            Array.getElem?_of_mem ((h.mem_iff hempty reached).2 hvector)
          exact ⟨some index, by simpa using (Array.getElem?_eq_some_iff.1 hindex).1,
            by simp [hindex]⟩
    obtain ⟨batch, hentry⟩ := h.exists_batch hempty horigin
    have hsame := (h.batches _ hentry).leaves.unique hleaves
    exact List.mem_map.2 ⟨(origin, batch), hentry, Prod.ext rfl hsame⟩

end Done

omit [Scalar α] in
theorem length_flatMap_named (vectors : Array Bytes)
    (stream : List (Origin × List (Transition α))) :
    ((stream.map (named vectors)).flatMap (·.2)).length = (stream.flatMap (·.2)).length := by
  simp [List.length_flatMap, named, Function.comp_def]

variable {model : Model α} {config : TraversalConfig} {options : TraversalOptions α}
  {observer : Observer α σ} {watcher : σ}

theorem Expands.keeping {plan : Plan α (Keeping α σ)} {before after : Exploration (Keeping α σ)}
    (hobserver : plan.observer = observer.keeping)
    (h : Expands plan origin batch added before after) :
    after.agenda.watcher.2 = before.agenda.watcher.2 ++ [(origin, batch)] := by
  obtain ⟨verdict, hshown, -⟩ := h.shown
  rw [hobserver] at hshown
  exact (congrArg (·.1.2) hshown).symm

/-- A complete run ends with all origins expanded, and what its observer has been shown is what it
has gathered. -/
theorem CompleteRun.gathered {done : Exploration (Keeping α σ)}
    (h : CompleteRun model config options observer.keeping (watcher, []) done) :
    ∃ activations, model.activateAll (options.activations.getD []) = .ok activations ∧
      Gathered (planFor model activations config options observer.keeping) done.agenda.watcher.2
        done ∧ done.agenda.pending = [] := by
  obtain ⟨hactivations, -, hcreate, hinitial, hsteps, hempty, -⟩ := h
  refine ⟨_, hactivations, ?_, hempty⟩
  obtain ⟨hsound, hnothing, -⟩ := Storage.sound_create hcreate
  clear hempty
  induction hsteps with
  | refl =>
      obtain ⟨batch, added, hexpands⟩ := expands_of_expandInitial hsound hinitial
      rw [hexpands.keeping rfl]
      exact gathered_initial hexpands hnothing rfl
  | tail _ hstep ih =>
      obtain ⟨-, hpending, hexpand⟩ := hstep
      obtain ⟨batch, added, hexpands⟩ := ih.expands hexpand
      rw [hexpands.keeping rfl]
      exact ih.step hpending hexpands

/-- Two complete runs of a model, in whatever order they expand states and within whatever limits,
store the same vectors and count the same states and transitions. Named by vectors, they show the
same batches, one for each source. -/
theorem completeRuns_agree (model : Model α) (config config' : TraversalConfig)
    (options : TraversalOptions α) (observer : Observer α σ) (watcher : σ)
    {left right : Exploration (Keeping α σ)}
    (hleft : CompleteRun model config options observer.keeping (watcher, []) left)
    (hright : CompleteRun model config' options observer.keeping (watcher, []) right) :
    (∀ vector, vector ∈ left.storage.vectors ↔ vector ∈ right.storage.vectors) ∧
      left.storage.size = right.storage.size ∧
      left.agenda.transitionCount = right.agenda.transitionCount ∧
      ((left.agenda.watcher.2.map (named left.storage.vectors)).map (·.1)).Nodup ∧
      (left.agenda.watcher.2.map (named left.storage.vectors)).Perm
        (right.agenda.watcher.2.map (named right.storage.vectors)) := by
  obtain ⟨activations, hactivations, hleft, hleftDone⟩ := hleft.gathered
  obtain ⟨activations', hactivations', hright, hrightDone⟩ := hright.gathered
  rw [hactivations] at hactivations'
  cases hactivations'
  have hsame (vector : Bytes) : vector ∈ left.storage.vectors ↔ vector ∈ right.storage.vectors :=
    (hleft.mem_iff hleftDone vector).trans (hright.mem_iff hrightDone vector).symm
  have hvectors : left.storage.vectors.toList.Perm right.storage.vectors.toList := by
    rw [List.perm_ext_iff_of_nodup hleft.sound.nodup hright.sound.nodup]
    simpa using hsame
  have hsources := hleft.nodup_sources hleftDone
  have hbatches : (left.agenda.watcher.2.map (named left.storage.vectors)).Perm
      (right.agenda.watcher.2.map (named right.storage.vectors)) := by
    rw [List.perm_ext_iff_of_nodup (hsources.of_map _)
      ((hright.nodup_sources hrightDone).of_map _)]
    rintro ⟨source, passages⟩
    exact (hleft.mem_named_iff hleftDone source passages).trans
      (hright.mem_named_iff hrightDone source passages).symm
  refine ⟨hsame, ?_, ?_, hsources, hbatches⟩
  · rw [hleft.sound.size_eq, hright.sound.size_eq]
    simpa using hvectors.length_eq
  · have hlength := (hbatches.flatMap_right (·.2)).length_eq
    rwa [length_flatMap_named, length_flatMap_named, ← hleft.count, ← hright.count] at hlength

/-! ## Orders that are carried out -/

theorem completeRun_of_traverse {space : StateSpace} {final : σ}
    (h : traverse model config options observer watcher = .ok (space, final))
    (hgoes : space.stopped = false) :
    ∃ done, CompleteRun model config options observer watcher done ∧
      space = ⟨done.storage, done.parents, done.agenda.transitionCount, done.agenda.stopped,
        model.propositions⟩ ∧ final = done.agenda.watcher := by
  obtain ⟨activations, storage, started, done, hactivations, hlabels, hcreate, hstarted, hdone,
    rfl, rfl⟩ := traverse_parts h
  obtain ⟨hsound, hnothing, hcapacity⟩ := Storage.sound_create hcreate
  obtain ⟨batch, added, hinitial⟩ := expands_of_expandInitial hsound hstarted
  have hkept := run_keeps (motive := fun steps exploration =>
      ReflTransGen (Proceeds (planFor model activations config options observer)) started
        exploration ∧ exploration.storage.capacity = config.stateCapacity ∧
      ∃ stream, Explored (planFor model activations config options observer) watcher steps stream
        exploration) ?_
    ⟨.refl, hinitial.capacity.trans hcapacity, _, explored_of_initial hinitial hnothing rfl⟩ hdone
  · obtain ⟨last, ⟨hsteps, hroom, stream, hexplored⟩, hend⟩ := hkept
    rw [← hroom] at hend
    have hempty : done.agenda.pending = [] := by
      rw [hexplored.pending, hexplored.steps_eq hgoes hend, Nat.sub_self]
      rfl
    exact ⟨done, .intro hactivations hlabels hcreate hstarted hsteps hempty hgoes, rfl, rfl⟩
  · rintro steps before source rest after ⟨hsteps, hroom, stream, hexplored⟩ hpending hgoes hexpand
    obtain ⟨batch, added, hexpands⟩ := hexplored.expands hexpand
    have holdest : before.agenda.pending = [] ++ source :: rest := hpending
    exact ⟨hsteps.tail (.expand hgoes holdest hexpand), hexpands.capacity.trans hroom, _,
      hexplored.step hpending hexpands⟩

/-- Expands states in the given order; a state whose turn has come must be pending. -/
def runInOrder (plan : Plan α σ) : List Nat → Exploration σ → Option (Exploration σ)
  | [], exploration => some exploration
  | source :: rest, exploration =>
    if exploration.agenda.stopped = false ∧ source ∈ exploration.agenda.pending then
      match expand plan (pop exploration (exploration.agenda.pending.erase source)) source with
      | .ok next => runInOrder plan rest next
      | .error _ => none
    else none

theorem proceeds_of_runInOrder {order : List Nat} (h : runInOrder plan order before = some after) :
    ReflTransGen (Proceeds plan) before after := by
  induction order generalizing before with
  | nil =>
      cases h
      exact .refl
  | cons source rest ih =>
      rw [runInOrder] at h
      split at h
      · next hready =>
        obtain ⟨earlier, later, -, hpending, herase⟩ := List.exists_erase_eq hready.2
        split at h
        · next next hexpand =>
          rw [herase] at hexpand
          exact .head (.expand hready.1 hpending hexpand) (ih h)
        · cases h
      · cases h

/-- Two initial states, of which one leads to a third state and the other one back or nowhere. -/
def crossroads : Model Rat where
  stateSize := 1
  propositions := ["left"]
  faults := []
  start := [0]
  holds state _ := state == [1]
  initial _ :=
    .ok [{ target := [1], probability := 1 / 2 }, { target := [2], probability := 1 / 2 }]
  step _ state :=
    if state = [1] then .ok [{ target := [3], probability := 1 }]
    else if state = [2] then
      .ok [{ target := [1], probability := 1 / 4 },
        { target := [2], probability := 3 / 4, stuttering := true }]
    else .ok [{ target := state, probability := 1 }]
  refuse _ := none

def CompleteAtCrossroads (done : Exploration (Keeping Rat Unit)) : Prop :=
  CompleteRun crossroads { stateCapacity := 4 } {} Observer.idle.keeping ((), []) done

/-- The second initial state is expanded first, and then the state that was found last. -/
theorem completeRun_crossroads : ∃ done, CompleteAtCrossroads done ∧
    done.storage.vectors = #[[0, 1], [0, 2], [1, 0], [0, 3]] := by
  have hrun : ((Storage.create 2 4).toOption.bind fun storage =>
      (expandInitial (planFor crossroads [] { stateCapacity := 4 } {} Observer.idle.keeping)
        ⟨storage, #[], ⟨[], 0, false, ((), [])⟩⟩).toOption.bind fun started =>
      (runInOrder (planFor crossroads [] { stateCapacity := 4 } {} Observer.idle.keeping)
        [1, 2, 0, 3] started).map fun done =>
        (done.agenda.pending, done.agenda.stopped, done.storage.vectors)) =
      some ([], false, #[[0, 1], [0, 2], [1, 0], [0, 3]]) := by
    decide +kernel
  obtain ⟨storage, hcreate, hrun⟩ := Option.bind_eq_some_iff.1 hrun
  obtain ⟨started, hstarted, hrun⟩ := Option.bind_eq_some_iff.1 hrun
  obtain ⟨done, hdone, hreport⟩ := Option.map_eq_some_iff.1 hrun
  obtain ⟨hempty, hrest⟩ := Prod.mk.inj hreport
  obtain ⟨hgoes, hvectors⟩ := Prod.mk.inj hrest
  refine ⟨done, ?_, hvectors⟩
  exact .intro rfl (by decide) (toOption_eq_some.1 hcreate) (toOption_eq_some.1 hstarted)
    (proceeds_of_runInOrder hdone) hempty hgoes

/-- Oldest states first, the third state is found before the stuttering one. -/
theorem completeRuns_agree_crossroads : ∃ left right,
    CompleteAtCrossroads left ∧ CompleteAtCrossroads right ∧
    left.storage.vectors = #[[0, 1], [0, 2], [0, 3], [1, 0]] ∧
    right.storage.vectors = #[[0, 1], [0, 2], [1, 0], [0, 3]] ∧
    left.agenda.transitionCount = right.agenda.transitionCount ∧
    (left.agenda.watcher.2.map (named left.storage.vectors)).Perm
      (right.agenda.watcher.2.map (named right.storage.vectors)) := by
  have hrun : ∃ space final, traverse crossroads { stateCapacity := 4 } {}
      Observer.idle.keeping ((), []) = .ok (space, final) ∧ space.stopped = false ∧
        space.storage.vectors = #[[0, 1], [0, 2], [0, 3], [1, 0]] := by
    refine ⟨_, _, rfl, ?_, ?_⟩ <;> decide +kernel
  obtain ⟨space, final, hok, hgoes, hvectors⟩ := hrun
  obtain ⟨left, hleft, rfl, -⟩ := completeRun_of_traverse hok hgoes
  obtain ⟨right, hright, hvectors'⟩ := completeRun_crossroads
  obtain ⟨-, -, hcount, -, hbatches⟩ :=
    completeRuns_agree crossroads { stateCapacity := 4 } { stateCapacity := 4 } {} Observer.idle ()
      hleft hright
  exact ⟨left, right, hleft, hright, hvectors, hvectors', hcount, hbatches⟩

end Traversal

end Hazard
