import Hazard.Proofs.AnalysisRun
/-!
# What every check keeps

The findings of an analysis change by checks alone. Heuristics decide which sets are checked and
when, but not what a check does, and a set that can never be activated is not checked whoever
suggests it. So whatever every check of another set keeps holds of the findings with which an
analysis ends, under any heuristics.
-/

namespace Hazard

variable {α η : Type} [Scalar α]

namespace Inquiry

variable {inquiry : Inquiry α} {motive : Findings → Prop}

/-- What an exploration with the given activations adds to the findings: that a set was looked at,
and a counterexample or a failure that shows it critical. -/
inductive Explores (inquiry : Inquiry α) (set : FaultSet) (used : List Activation)
    (findings : Findings) : Bool → Findings → Prop
  | safe {result : InvariantResult}
      (hchecked : inquiry.model.checkInvariant inquiry.traversal inquiry.invariant (some used) =
        .ok result)
      (hnone : result.counterexample = none) :
      Explores inquiry set used findings true (findings.explored set)
  | violated {result : InvariantResult} {counterexample : Counterexample}
      {critical : FaultSetCollection}
      (hchecked : inquiry.model.checkInvariant inquiry.traversal inquiry.invariant (some used) =
        .ok result)
      (hsome : result.counterexample = some counterexample)
      (hadd : findings.critical.add set = .ok critical) :
      Explores inquiry set used findings false
        ((Findings.explored { findings with critical } set).addCounterexample set
          { counterexample with faultSet := set.names inquiry.model.faults })
  | failed {origin : Origin} {trace : List Bytes} {error : ModelError}
      {critical : FaultSetCollection}
      (hfailed : inquiry.model.checkInvariant inquiry.traversal inquiry.invariant (some used) =
        .error (.model origin trace error))
      (hadd : findings.critical.add set = .ok critical) :
      Explores inquiry set used findings false
        (Findings.addException
          (if trace.isEmpty then { findings.explored set with critical }
          else Findings.addCounterexample { findings.explored set with critical } set
            (.create inquiry.invariant.render (set.names inquiry.model.faults)
              inquiry.model.faults used trace))
          set error)

theorem explores_of_explore {findings after : Findings} {set : FaultSet} {mode : Activation}
    {safe : Bool} (hok : inquiry.explore findings set mode = .ok (safe, after)) :
    inquiry.Explores set (set.activations inquiry.model.faults inquiry.nondeterministic mode)
      findings safe after := by
  rw [explore_eq] at hok
  unfold conclude at hok
  split at hok
  · next result hchecked =>
    split at hok
    · next hnone =>
      cases hok
      exact .safe hchecked hnone
    · next counterexample hsome =>
      obtain ⟨marked, hmarked, hpure⟩ := bind_eq_ok.1 hok
      obtain ⟨critical, hadd, rfl⟩ := map_eq_ok.1 (mapError_eq_ok.1 hmarked)
      cases hpure
      exact .violated hchecked hsome hadd
  · next origin trace error hfailed =>
    obtain ⟨marked, hmarked, hpure⟩ := bind_eq_ok.1 hok
    obtain ⟨critical, hadd, rfl⟩ := map_eq_ok.1 (mapError_eq_ok.1 hmarked)
    cases hpure
    exact .failed hfailed hadd
  · cases hok

/-- Every check that succeeds keeps it, if the set can be activated. -/
def Keeps (inquiry : Inquiry α) (motive : Findings → Prop) : Prop :=
  ∀ cardinality findings set safe after, inquiry.excludes set = false → motive findings →
    inquiry.check cardinality findings set = .ok (safe, after) → motive after

theorem exploreModes_keeps {set : FaultSet}
    (hexplores : ∀ findings mode safe after, motive findings →
      inquiry.explore findings set mode = .ok (safe, after) → motive after)
    {findings after : Findings} {safe : Bool} (hfindings : motive findings)
    (hok : inquiry.exploreModes findings set = .ok (safe, after)) : motive after := by
  rw [exploreModes_eq] at hok
  split at hok
  · exact hexplores _ _ _ _ hfindings hok
  · exact hexplores _ _ _ _ hfindings hok
  · obtain ⟨⟨forced, between⟩, hforced, hrest⟩ := bind_eq_ok.1 hok
    have hbetween := hexplores _ _ _ _ hfindings hforced
    cases forced with
    | true => exact hexplores _ _ _ _ hbetween hrest
    | false =>
        cases hrest
        exact hbetween

/-- A check keeps what explorations keep, if it is about neither the safe sets nor the counts. -/
theorem keeps_of_explores
    (hsafe : ∀ findings safe, motive findings → motive { findings with safe })
    (hcounts : ∀ findings counts, motive findings → motive { findings with counts })
    (hexplores : ∀ findings set mode safe after, inquiry.excludes set = false → motive findings →
      inquiry.explore findings set mode = .ok (safe, after) → motive after) :
    inquiry.Keeps motive := by
  intro cardinality findings set safe after hset hfindings hok
  have hmodes {findings between : Findings} {safe : Bool} (hfindings : motive findings)
      (hmodes : inquiry.exploreModes findings set = .ok (safe, between)) : motive between :=
    exploreModes_keeps (fun _ _ _ _ => hexplores _ _ _ _ _ hset) hfindings hmodes
  cases checks_of_check hok with
  | decided => exact hcounts _ _ hfindings
  | condemned _ hshown => exact hmodes (hcounts _ _ hfindings) hshown
  | cleared _ _ hshown => exact hcounts _ _ (hsafe _ _ (hmodes (hcounts _ _ hfindings) hshown))

namespace Keeps

variable {heuristic : Heuristic η} {fuel cardinality : Nat} {work next : LevelWork η}
  {before after : Progress η} (hkeeps : inquiry.Keeps motive)

include hkeeps

theorem takeFirst {set : FaultSet} {queue : Queue}
    (hopen : ∀ other ∈ work.unchecked, inquiry.excludes other = false)
    (hwork : motive work.findings)
    (hok : inquiry.takeFirst heuristic cardinality work set queue = (next, .ok ())) :
    (∀ other ∈ next.unchecked, inquiry.excludes other = false) ∧ motive next.findings := by
  have hfewer (other : FaultSet) (hother : other ∈ work.unchecked.erase set) :
      inquiry.excludes other = false := hopen other (List.mem_of_mem_erase hother)
  rcases takeFirst_eq_ok hok with ⟨-, rfl⟩ | ⟨hkeep, _, _, _, _, hcheck, -, rfl⟩
  · exact ⟨hfewer, hwork⟩
  · refine ⟨hfewer, hkeeps _ _ _ _ _ ?_ hwork hcheck⟩
    by_cases hcurrent : set ∈ work.unchecked
    · exact hopen set hcurrent
    · simpa [hcurrent] using hkeep

theorem drain (hopen : ∀ other ∈ work.unchecked, inquiry.excludes other = false)
    (hwork : motive work.findings)
    (hok : inquiry.drain heuristic cardinality fuel work = (next, .ok ())) :
    (∀ other ∈ next.unchecked, inquiry.excludes other = false) ∧ motive next.findings := by
  induction fuel generalizing work with
  | zero =>
      rcases drain_eq_ok hok with ⟨-, rfl⟩ | ⟨_, _, _, _, hfuel, -⟩
      · exact ⟨hopen, hwork⟩
      · cases hfuel
  | succ fuel ih =>
      rcases drain_eq_ok hok with ⟨-, rfl⟩ | ⟨_, _, _, _, ⟨⟩, -, hstep, hrest⟩
      · exact ⟨hopen, hwork⟩
      · obtain ⟨hopen', hnext⟩ := hkeeps.takeFirst hopen hwork hstep
        exact ih hopen' hnext hrest

theorem checkOpen (hopen : ∀ other ∈ work.unchecked, inquiry.excludes other = false)
    (hwork : motive work.findings) (hok : inquiry.checkOpen cardinality work = .ok next) :
    motive next.findings := by
  unfold Inquiry.checkOpen at hok
  refine (foldlM_keeps (motive := fun rest work =>
    (∀ other ∈ rest, inquiry.excludes other = false) ∧ motive work.findings)
    ?_ ⟨hopen, hwork⟩ hok).2
  rintro set rest work next ⟨hrest, hwork⟩ hstep
  obtain ⟨⟨safe, findings⟩, hcheck, hpure⟩ := bind_eq_ok.1 hstep
  cases hpure
  exact ⟨fun other hother => hrest other (List.mem_cons_of_mem set hother),
    hkeeps _ _ _ _ _ (hrest set List.mem_cons_self) hwork hcheck⟩

theorem checkLevel {sets excluded : List FaultSet}
    (hsets : ∀ set ∈ sets, inquiry.excludes set = false) (hbefore : motive before.findings)
    (hok : inquiry.checkLevel heuristic fuel cardinality sets excluded before = (after, .ok ())) :
    motive after.findings := by
  obtain ⟨_, _, drained, done, -, hdrain, hdone, rfl⟩ := checkLevel_eq_ok hok
  obtain ⟨hopen, hdrained⟩ := hkeeps.drain hsets hbefore hdrain
  exact hkeeps.checkOpen hopen hdrained hdone

theorem climb {greatest : Option Nat} {levels : List Nat} (hbefore : motive before.findings)
    (hok : inquiry.climb heuristic fuel greatest levels before = (after, .ok ())) :
    motive after.findings := by
  induction levels generalizing before with
  | nil =>
      cases hok
      exact hbefore
  | cons cardinality rest ih =>
      rw [climb_cons_eq] at hok
      split at hok
      · refine ih ?_ hok
        exact hbefore
      · split at hok
        · cases hok
          exact hbefore
        · split at hok
          · cases hok
          · next between hlevel =>
            refine ih (hkeeps.checkLevel ?_ hbefore hlevel) hok
            intro set hset
            simpa using (List.mem_filter.1 hset).2

end Keeps

end Inquiry

theorem Model.exists_findings {model : Model α} {config : AnalysisConfig} {hazard : Formula}
    {heuristic : Heuristic η} {heuristics : List η} {fuel : Nat} {results : AnalysisResults α}
    {motive : Findings → Prop}
    (hkeeps : ∀ inquiry, model.inquire config hazard = .ok inquiry → inquiry.Keeps motive)
    (hstart : motive (.start model.faults.length))
    (hok : (model.analyze config hazard heuristic heuristics fuel).2 = .ok results) :
    ∃ (inquiry : Inquiry α) (findings : Findings) (complete : Bool),
      model.inquire config hazard = .ok inquiry ∧ motive findings ∧
      results = findings.results inquiry complete heuristics.length := by
  obtain ⟨inquiry, progress, hinquiry, hclimb, rfl⟩ := exists_climb hok
  exact ⟨inquiry, progress.findings, progress.complete, hinquiry,
    (hkeeps inquiry hinquiry).climb hstart hclimb, rfl⟩

end Hazard
