import Hazard.Proofs.FailedExplorations
import Hazard.Proofs.FaultNames
import Hazard.Proofs.InvariantAgreement
import Hazard.Proofs.KeptFindings
import Hazard.Proofs.MinimalCriticalSets
import Hazard.Proofs.ReplayedRuns
/-!
# Recorded counterexamples can be replayed

What an analysis or an invariant check records is a run of the model: to a state that violates the
invariant, or to the state in which the model failed.
-/

namespace Hazard

/-! ## What is recorded -/

namespace Model

variable {α : Type} [Scalar α] {model : Model α} {config : TraversalConfig} {invariant : Formula}
  {given : Option (List Activation)} {activations : List Activation}

omit [Scalar α] in
theorem activateAll_used (h : model.activateAll (given.getD []) = .ok activations) :
    model.activateAll (given.getD model.declared) = .ok activations := by
  cases given with
  | some used => exact h
  | none =>
      cases h
      exact activateAll_declared model

theorem recorded_of_violation (hnever : model.NeverStutters) {result : InvariantResult}
    {counterexample : Counterexample}
    (hrun : model.checkInvariant config invariant given = .ok result)
    (hsome : result.counterexample = some counterexample) :
    ∃ activations names states last, model.activateAll (given.getD []) = .ok activations ∧
      counterexample =
        .create invariant.render names model.faults (given.getD model.declared) states ∧
      model.Run activations states last ∧
      ¬ invariant.HoldsAt (model.system activations) last := by
  rw [checkInvariant] at hrun
  split at hrun
  · cases hrun
  · next predicate hcompile =>
    obtain ⟨⟨space, violation⟩, hsearch, hresult⟩ := bind_eq_ok.1 hrun
    cases hresult
    obtain ⟨activations, hactivations, hend⟩ := exists_searched hnever hcompile hsearch
    obtain ⟨index, rfl, rfl⟩ := Option.map_eq_some_iff.1 hsome
    rcases hend with ⟨hnone, -⟩ | ⟨other, hother, ⟨last, hlast, hviolates⟩, -⟩
    · cases hnone
    · cases hother
      exact ⟨activations, _, _, last, hactivations, rfl, hlast, hviolates⟩

theorem run_of_failure (hnever : model.NeverStutters) {origin : Origin} {path : List Bytes}
    {error : ModelError}
    (hfailed : model.checkInvariant config invariant given = .error (.model origin path error))
    (hpath : path ≠ []) :
    ∃ activations last, model.activateAll (given.getD []) = .ok activations ∧
      model.Run activations path last := by
  rw [checkInvariant] at hfailed
  split at hfailed
  · cases hfailed
  · next predicate _ =>
    rcases bind_eq_error.1 hfailed with hsearch | ⟨_, -, hresult⟩
    · rcases Traversal.traverse_eq_error (neverRefuses_violationObserver predicate) hsearch with
        hobstructed | ⟨-, hcause⟩ | ⟨activations, hactivations, -, hblames⟩
      · cases hobstructed
      · cases hcause
      · obtain ⟨_, _, _, hcause, done, storage, parents, source, hdiscovered, hsource, -, rfl⟩ :=
          hblames
        cases hcause
        cases hsource with
        | initial => exact absurd rfl hpath
        | @state index state hindex =>
            exact ⟨activations, state, hactivations, hdiscovered.run_trace hnever hindex⟩
    · cases hresult

end Model

namespace Findings

variable {β : Type} {entries : List (FaultSet × β)} {set other : FaultSet} {entry value : β}

theorem mem_keep : (other, value) ∈ keep entries set entry ↔
    (other, value) ∈ entries ∧ other ≠ set ∨ other = set ∧ value = entry := by
  simp [keep]

theorem mem_map_keep (h : other ∈ entries.map (·.1) ∨ other = set) :
    other ∈ (keep entries set entry).map (·.1) := by
  by_cases hset : other = set
  · subst hset
    exact List.mem_map.2 ⟨(other, entry), mem_keep.2 (.inr ⟨rfl, rfl⟩), rfl⟩
  · obtain ⟨⟨same, value⟩, hmem, rfl⟩ := List.mem_map.1 (h.resolve_right hset)
    exact List.mem_map.2 ⟨(same, value), mem_keep.2 (.inl ⟨hmem, hset⟩), rfl⟩

variable {α : Type}

/-- The counterexample of a set of declared faults is the record of a run under some activations.
The run ends in the hazard, unless the set is known for a failure of the model. -/
def Recorded (model : Model α) (hazard : Formula) (failures : List (FaultSet × ModelError))
    (set : FaultSet) (counterexample : Counterexample) : Prop :=
  (∀ position, set.contains position = true → position < model.faults.length) ∧
  ∃ used activations states last,
    counterexample = .create hazard.not.render (set.names model.faults) model.faults used states ∧
    model.activateAll used = .ok activations ∧ model.Run activations states last ∧
    (set ∈ failures.map (·.1) ∨ hazard.HoldsAt (model.system activations) last)

theorem Recorded.mono {model : Model α} {hazard : Formula}
    {failures more : List (FaultSet × ModelError)} {counterexample : Counterexample}
    (h : Recorded model hazard failures set counterexample)
    (hmore : set ∈ failures.map (·.1) → set ∈ more.map (·.1)) :
    Recorded model hazard more set counterexample := by
  obtain ⟨hdeclared, used, activations, states, last, heq, hactivations, hrun, hend⟩ := h
  exact ⟨hdeclared, used, activations, states, last, heq, hactivations, hrun, hend.imp_left hmore⟩

def AllRecorded (model : Model α) (hazard : Formula) (findings : Findings) : Prop :=
  ∀ set counterexample, (set, counterexample) ∈ findings.counterexamples →
    Recorded model hazard findings.exceptions set counterexample

end Findings

namespace Inquiry

variable {α : Type} [Scalar α] {model : Model α} {inquiry : Inquiry α} {hazard : Formula}

theorem allRecorded_of_explores (hnever : model.NeverStutters) (hmodel : inquiry.model = model)
    (hinvariant : inquiry.invariant = hazard.not) {findings after : Findings} {set : FaultSet}
    {used : List Activation} {safe : Bool}
    (hdeclared : ∀ position, set.contains position = true → position < model.faults.length)
    (hfindings : findings.AllRecorded model hazard)
    (hexplores : inquiry.Explores set used findings safe after) :
    after.AllRecorded model hazard := by
  intro other counterexample hother
  cases hexplores with
  | safe => exact hfindings other counterexample hother
  | violated hchecked hsome =>
      rw [hmodel, hinvariant] at hchecked
      rcases Findings.mem_keep.1 hother with ⟨hold, -⟩ | ⟨rfl, rfl⟩
      · exact hfindings other counterexample hold
      · obtain ⟨activations, names, states, last, hactivations, rfl, hrun, hviolates⟩ :=
          Model.recorded_of_violation hnever hchecked hsome
        rw [hmodel]
        exact ⟨hdeclared, used, activations, states, last, rfl, hactivations, hrun,
          .inr (not_not.1 hviolates)⟩
  | @failed origin path error critical hfailed =>
      rw [hmodel, hinvariant] at hfailed
      have hknown (known : FaultSet) (h : known ∈ findings.exceptions.map (·.1) ∨ known = set) :
          known ∈ (Findings.keep findings.exceptions set error).map (·.1) :=
        Findings.mem_map_keep h
      by_cases hpath : path = []
      · subst hpath
        exact (hfindings other counterexample hother).mono fun h => hknown other (.inl h)
      · have hfull : path.isEmpty = false := by simpa using hpath
        rw [hfull] at hother ⊢
        rcases Findings.mem_keep.1 hother with ⟨hold, -⟩ | ⟨rfl, rfl⟩
        · exact (hfindings other counterexample hold).mono fun h => hknown other (.inl h)
        · obtain ⟨activations, last, hactivations, hrun⟩ :=
            Model.run_of_failure hnever hfailed hpath
          rw [hmodel, hinvariant]
          exact ⟨hdeclared, used, activations, path, last, rfl, hactivations, hrun,
            .inl (hknown other (.inr rfl))⟩

theorem keeps_allRecorded {config : AnalysisConfig} (hnever : model.NeverStutters)
    (hinquiry : model.inquire config hazard = .ok inquiry) :
    inquiry.Keeps (Findings.AllRecorded model hazard) := by
  have hdescribes := describes_of_inquire hinquiry
  refine keeps_of_explores (fun _ _ h => h) (fun _ _ h => h) ?_
  intro findings set mode safe after hset hfindings hok
  exact allRecorded_of_explores hnever hdescribes.model_eq hdescribes.invariant_eq
    (hdescribes.excludes_eq_false.1 hset).declared hfindings (explores_of_explore hok)

end Inquiry

namespace Model

variable {α : Type} [Scalar α]

/-- Every counterexample of an analysis is replayed to its end, and lists the names of the faults of
its set, in the order of declaration; where the model did not fail it ends in the hazard. The
counterexamples of invariants are replayed as well. -/
theorem counterexamples_replay (model : Model α)
    (hnames : (model.faults.map (·.name)).Nodup) (hnever : model.NeverStutters) :
    (∀ (η : Type) (config : AnalysisConfig) (hazard : Formula) (heuristic : Heuristic η)
      (heuristics : List η) (fuel : Nat) (results : AnalysisResults α),
      (model.analyze config hazard heuristic heuristics fuel).2 = .ok results →
      ∀ set counterexample, (set, counterexample) ∈ results.counterexamples →
        (∀ position, set.contains position = true → position < model.faults.length) ∧
        counterexample.faultSet.Sublist (model.faults.map (·.name)) ∧
        (∀ position fault, model.faults[position]? = some fault →
          (fault.name ∈ counterexample.faultSet ↔ set.contains position = true)) ∧
        ∃ replay, Replay.start model counterexample = .ok replay ∧
          replay.finish.2 = .ok counterexample.states.length ∧
          (set ∉ results.exceptions.map (·.1) →
            ∃ last, counterexample.states.getLast? = some last ∧
              hazard.HoldsAt (model.system replay.activations) last)) ∧
    ∀ (config : TraversalConfig) (invariant : Formula) (given : Option (List Activation))
      (result : InvariantResult) (counterexample : Counterexample),
      model.checkInvariant config invariant given = .ok result →
      result.counterexample = some counterexample →
        ∃ replay, Replay.start model counterexample = .ok replay ∧
          replay.finish.2 = .ok counterexample.states.length := by
  constructor
  · intro η config hazard heuristic heuristics fuel results hok set counterexample hmem
    obtain ⟨inquiry, findings, complete, -, hrecorded, rfl⟩ :=
      exists_findings (fun inquiry => Inquiry.keeps_allRecorded hnever)
        (show (Findings.start model.faults.length).AllRecorded model hazard by
          intro set counterexample hmem
          cases hmem) hok
    obtain ⟨hfound, hminimal⟩ := List.mem_filter.1 hmem
    obtain ⟨hdeclared, used, activations, states, last, rfl, hactivations, hrun, hend⟩ :=
      hrecorded set counterexample hfound
    obtain ⟨replay, hstart, hfinish, hsame⟩ :=
      Replay.exists_replay hnames hactivations hazard.not.render (set.names model.faults) hrun
    refine ⟨hdeclared, FaultSet.names_sublist set model.faults,
      fun position fault hfault => FaultSet.name_mem_names_iff hnames hfault,
      replay, hstart, hfinish, fun hclean => ⟨last, hrun.getLast?, ?_⟩⟩
    rw [hsame]
    refine hend.resolve_left fun hfailed => hclean ?_
    obtain ⟨⟨same, error⟩, hentry, rfl⟩ := List.mem_map.1 hfailed
    exact List.mem_map.2 ⟨_, List.mem_filter.2 ⟨hentry, hminimal⟩, rfl⟩
  · intro config invariant given result counterexample hrun hsome
    obtain ⟨activations, names, states, last, hactivations, rfl, hrun, -⟩ :=
      recorded_of_violation hnever hrun hsome
    obtain ⟨replay, hstart, hfinish, -⟩ :=
      Replay.exists_replay hnames (activateAll_used hactivations) invariant.render names hrun
    exact ⟨replay, hstart, hfinish⟩

theorem candidates_crashOrDrift {activations : List Activation} {source : Option Bytes}
    {proposed : List (Candidate Rat)}
    (hproposed : (⟨crashOrDrift, activations, []⟩ : Scenario Rat).proposes source = .ok proposed) :
    ∀ candidate ∈ proposed, candidate.stuttering = false ∧ candidate.target.length = 1 := by
  intro candidate hcandidate
  cases source with
  | none =>
      cases hproposed
      rw [List.mem_singleton.1 hcandidate]
      exact ⟨rfl, rfl⟩
  | some state =>
      unfold Scenario.proposes crashOrDrift controller at hproposed
      dsimp only at hproposed
      split at hproposed
      · cases hproposed
        obtain ⟨strikes, -, rfl⟩ := List.mem_map.1 hcandidate
        split <;> exact ⟨rfl, rfl⟩
      · split at hproposed
        · cases hproposed
        · cases hproposed
          rw [List.mem_singleton.1 hcandidate]
          exact ⟨rfl, rfl⟩

theorem neverStutters_crashOrDrift : crashOrDrift.NeverStutters :=
  fun _ _ _ hproposed candidate hcandidate =>
    (candidates_crashOrDrift hproposed candidate hcandidate).1

/-- The first fault makes the model fail after two states, the second one leads to the hazard. -/
theorem counterexamples_replay_crashOrDrift :
    (crashOrDrift.faults.map (·.name)).Nodup ∧ crashOrDrift.NeverStutters ∧
      ∃ results crash drift,
        (crashOrDrift.analyze { traversal := smallRuns } (.atom "hazard")
          MaximalSafeSet.heuristic [] 0).2 = .ok results ∧
        results.counterexamples = [crash, drift] ∧
        crash.1.toList = [0] ∧ crash.2.faultSet = ["Crash"] ∧ crash.2.states = [[0], [2]] ∧
        drift.1.toList = [1] ∧ drift.2.faultSet = ["Drift"] ∧ drift.2.states = [[0], [3]] ∧
        ("Drift" ∈ drift.2.faultSet ↔ drift.1.contains 1 = true) ∧
        (∃ replay, Replay.start crashOrDrift crash.2 = .ok replay ∧ replay.finish.2 = .ok 2) ∧
        ∃ replay, Replay.start crashOrDrift drift.2 = .ok replay ∧ replay.finish.2 = .ok 2 ∧
          (Formula.atom "hazard").HoldsAt (crashOrDrift.system replay.activations) [3] := by
  have hreport : (crashOrDrift.analyze { traversal := smallRuns } (.atom "hazard")
      MaximalSafeSet.heuristic [] 0).2.map (fun results =>
        (results.exceptions.map (·.1.toList), results.counterexamples.map fun entry =>
          (entry.1.toList, entry.2.states))) =
      .ok ([[0]], [([0], [[0], [2]]), ([1], [[0], [3]])]) := by
    decide +kernel
  have hlisted : (crashOrDrift.analyze { traversal := smallRuns } (.atom "hazard")
      MaximalSafeSet.heuristic [] 0).2.map (fun results =>
        results.counterexamples.map (·.2.faultSet)) = .ok [["Crash"], ["Drift"]] := by
    decide +kernel
  obtain ⟨results, hok, hreport⟩ := map_eq_ok.1 hreport
  rw [hok] at hlisted
  have hnames := Except.ok.inj hlisted
  obtain ⟨hfailed, hfound⟩ := Prod.mk.inj hreport
  obtain ⟨crash, rest, hcounterexamples, hcrash, hrest⟩ := List.map_eq_cons_iff.1 hfound
  obtain ⟨drift, _, rfl, hdrift, hnone⟩ := List.map_eq_cons_iff.1 hrest
  cases List.map_eq_nil_iff.1 hnone
  obtain ⟨hcrashSet, hcrash⟩ := Prod.mk.inj hcrash
  obtain ⟨hset, hdrift⟩ := Prod.mk.inj hdrift
  simp only [hcounterexamples, List.map_cons, List.map_nil, List.cons.injEq, and_true] at hnames
  have hunique : (crashOrDrift.faults.map (·.name)).Nodup := by decide
  have hreplay := (counterexamples_replay crashOrDrift hunique neverStutters_crashOrDrift).1 _
    { traversal := smallRuns } (.atom "hazard") MaximalSafeSet.heuristic [] 0 results hok
  obtain ⟨-, -, -, first, hfirst, hcount, -⟩ :=
    hreplay crash.1 crash.2 (by simp [hcounterexamples])
  obtain ⟨-, -, hnamed, second, hsecond, hcount', hhazard⟩ :=
    hreplay drift.1 drift.2 (by simp [hcounterexamples])
  rw [hcrash] at hcount
  rw [hdrift] at hcount' hhazard
  obtain ⟨last, hlast, hholds⟩ := hhazard (by
    intro hmem
    obtain ⟨entry, hentry, heq⟩ := List.mem_map.1 hmem
    have hlisted : drift.1.toList ∈ results.exceptions.map (·.1.toList) :=
      List.mem_map.2 ⟨entry, hentry, by rw [heq]⟩
    rw [hfailed, hset] at hlisted
    simp at hlisted)
  cases hlast
  exact ⟨hunique, neverStutters_crashOrDrift, results, crash, drift, hok, hcounterexamples,
    hcrashSet, hnames.1, hcrash, hset, hnames.2, hdrift, hnamed 1 { name := "Drift" } rfl,
    ⟨first, hfirst, hcount⟩, second, hsecond, hcount', hholds⟩

end Model

end Hazard
