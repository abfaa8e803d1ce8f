import Hazard.Proofs.FaultMonotonicity
/-!
# Two ways to activate the faults of a set

Forcing the faults of a set before leaving them to chance saves work where the hazard shows early.
If forced faults do nothing that free ones could not do, it changes neither a verdict nor, since the
verdicts steer the search, which sets are looked at. Two analyses whose checks agree go through the
same sets in step.
-/

namespace Hazard

open Traversal Model

/-! ## Analyses in step -/

structure Findings.Alike (left right : Findings) : Prop where
  safe_eq : left.safe = right.safe
  critical_eq : left.critical = right.critical
  checked_eq : left.checked = right.checked

variable {α η : Type}

structure LevelWork.Alike (left right : LevelWork η) : Prop where
  unchecked_eq : left.unchecked = right.unchecked
  queue_eq : left.queue = right.queue
  safe_eq : left.safe = right.safe
  findings : left.findings.Alike right.findings
  heuristics_eq : left.heuristics = right.heuristics

structure Progress.Alike (left right : Progress η) : Prop where
  safe_eq : left.safe = right.safe
  findings : left.findings.Alike right.findings
  heuristics_eq : left.heuristics = right.heuristics
  complete_eq : left.complete = right.complete

namespace Inquiry

variable [Scalar α] {left right : Inquiry α} {heuristic : Heuristic η} {fuel cardinality : Nat}

/-- On findings that are alike, the inquiries come to the same verdicts. -/
structure Agrees (left right : Inquiry α) : Prop where
  model_eq : left.model = right.model
  excludes_eq : left.excludes = right.excludes
  check : ∀ cardinality findings findings' set safe safe' after after',
    findings.Alike findings' → left.check cardinality findings set = .ok (safe, after) →
      right.check cardinality findings' set = .ok (safe', after') →
        safe = safe' ∧ after.Alike after'

namespace Agrees

variable (hagrees : left.Agrees right)

include hagrees

theorem takeFirst {work work' next next' : LevelWork η} {set : FaultSet} {queue : Queue}
    (hwork : work.Alike work')
    (h : left.takeFirst heuristic cardinality work set queue = (next, .ok ()))
    (h' : right.takeFirst heuristic cardinality work' set queue = (next', .ok ())) :
    next.Alike next' := by
  have hdrop : (!work'.unchecked.contains set && right.excludes set) =
      (!work.unchecked.contains set && left.excludes set) := by
    rw [hwork.unchecked_eq, hagrees.excludes_eq]
  rcases takeFirst_eq_ok h with
    ⟨hleft, rfl⟩ | ⟨hleft, safe, after, heuristics, later, hcheck, hupdate, rfl⟩
  · rcases takeFirst_eq_ok h' with ⟨-, rfl⟩ | ⟨hright, -⟩
    · exact ⟨by rw [hwork.unchecked_eq], rfl, hwork.safe_eq, hwork.findings, hwork.heuristics_eq⟩
    · rw [hdrop, hleft] at hright
      cases hright
  · rcases takeFirst_eq_ok h' with
      ⟨hright, -⟩ | ⟨-, safe', after', heuristics', later', hcheck', hupdate', rfl⟩
    · rw [hdrop, hleft] at hright
      cases hright
    · obtain ⟨rfl, hafter⟩ := hagrees.check _ _ _ _ _ _ _ _ hwork.findings hcheck hcheck'
      rw [← hwork.heuristics_eq, hupdate] at hupdate'
      cases hupdate'
      exact ⟨by rw [hwork.unchecked_eq], rfl, by rw [hwork.unchecked_eq, hwork.safe_eq], hafter,
        rfl⟩

theorem drain {work work' next next' : LevelWork η} (hwork : work.Alike work')
    (h : left.drain heuristic cardinality fuel work = (next, .ok ()))
    (h' : right.drain heuristic cardinality fuel work' = (next', .ok ())) :
    next.Alike next' := by
  induction fuel generalizing work work' with
  | zero =>
      rcases drain_eq_ok h with ⟨-, rfl⟩ | ⟨_, _, _, _, hfuel, -⟩
      · rcases drain_eq_ok h' with ⟨-, rfl⟩ | ⟨_, _, _, _, hfuel, -⟩
        · exact hwork
        · cases hfuel
      · cases hfuel
  | succ fuel ih =>
      rcases drain_eq_ok h with ⟨hnil, rfl⟩ | ⟨_, set, queue, between, ⟨⟩, hcons, hstep, hrest⟩
      · rcases drain_eq_ok h' with ⟨-, rfl⟩ | ⟨_, _, _, _, -, hcons', -⟩
        · exact hwork
        · rw [← hwork.queue_eq, hnil] at hcons'
          cases hcons'
      · rcases drain_eq_ok h' with
          ⟨hnil', -⟩ | ⟨_, _, _, between', ⟨⟩, hcons', hstep', hrest'⟩
        · rw [← hwork.queue_eq, hcons] at hnil'
          cases hnil'
        · rw [← hwork.queue_eq, hcons] at hcons'
          cases hcons'
          exact ih (hagrees.takeFirst hwork hstep hstep') hrest hrest'

theorem checkOpen {work work' next next' : LevelWork η} (hwork : work.Alike work')
    (h : left.checkOpen cardinality work = .ok next)
    (h' : right.checkOpen cardinality work' = .ok next') : next.Alike next' := by
  unfold Inquiry.checkOpen at h h'
  rw [← hwork.unchecked_eq] at h'
  refine foldlM_related ?_ hwork h h'
  intro set work work' next next' hwork hstep hstep'
  obtain ⟨⟨safe, after⟩, hcheck, hpure⟩ := bind_eq_ok.1 hstep
  obtain ⟨⟨safe', after'⟩, hcheck', hpure'⟩ := bind_eq_ok.1 hstep'
  cases hpure
  cases hpure'
  obtain ⟨rfl, hafter⟩ := hagrees.check _ _ _ _ _ _ _ _ hwork.findings hcheck hcheck'
  exact ⟨hwork.unchecked_eq, hwork.queue_eq, by rw [hwork.safe_eq], hafter, hwork.heuristics_eq⟩

theorem checkLevel {before before' after after' : Progress η} {sets excluded : List FaultSet}
    (hbefore : before.Alike before')
    (h : left.checkLevel heuristic fuel cardinality sets excluded before = (after, .ok ()))
    (h' : right.checkLevel heuristic fuel cardinality sets excluded before' = (after', .ok ())) :
    after.Alike after' := by
  obtain ⟨heuristics, queue, drained, done, haugment, hdrain, hdone, rfl⟩ := checkLevel_eq_ok h
  obtain ⟨_, _, drained', done', haugment', hdrain', hdone', rfl⟩ := checkLevel_eq_ok h'
  rw [← hbefore.heuristics_eq, haugment] at haugment'
  cases haugment'
  have hdrained : drained.Alike drained' := by
    refine hagrees.drain ?_ hdrain hdrain'
    exact ⟨rfl, rfl, rfl, hbefore.findings, rfl⟩
  have hend := hagrees.checkOpen hdrained hdone hdone'
  exact ⟨hend.safe_eq, hend.findings, hend.heuristics_eq, hbefore.complete_eq⟩

theorem levelStart_eq {before before' : Progress η} (hbefore : before.Alike before') :
    left.levelStart cardinality before = right.levelStart cardinality before' := by
  unfold levelStart
  rw [hagrees.model_eq, hagrees.excludes_eq, hbefore.safe_eq, hbefore.findings.critical_eq]

theorem climb {before before' after after' : Progress η} {greatest : Option Nat}
    {levels : List Nat} (hbefore : before.Alike before')
    (h : left.climb heuristic fuel greatest levels before = (after, .ok ()))
    (h' : right.climb heuristic fuel greatest levels before' = (after', .ok ())) :
    after.Alike after' := by
  induction levels generalizing before before' with
  | nil =>
      cases h
      cases h'
      exact hbefore
  | cons cardinality rest ih =>
      rw [climb_cons_eq] at h h'
      rw [← hagrees.levelStart_eq hbefore] at h'
      by_cases hempty : (left.levelStart cardinality before).sets.isEmpty = true
      · rw [if_pos hempty] at h h'
        refine ih ?_ h h'
        exact ⟨rfl, hbefore.findings, hbefore.heuristics_eq, hbefore.complete_eq⟩
      · rw [if_neg hempty] at h h'
        by_cases hcut : greatest.any (· < cardinality) = true
        · rw [if_pos hcut] at h h'
          cases h
          cases h'
          exact ⟨hbefore.safe_eq, hbefore.findings, hbefore.heuristics_eq, rfl⟩
        · rw [if_neg hcut] at h h'
          split at h
          · cases h
          · next between hlevel =>
            split at h'
            · cases h'
            · next between' hlevel' => exact ih (hagrees.checkLevel hbefore hlevel hlevel') h h'

end Agrees

end Inquiry

theorem Model.analyze_alike [Scalar α] {model : Model α} {config config' : AnalysisConfig}
    {hazard : Formula} {heuristic : Heuristic η} {heuristics : List η} {fuel : Nat}
    {results results' : AnalysisResults α}
    (hgreatest : config.maxCardinality = config'.maxCardinality)
    (hagrees : ∀ left right, model.inquire config hazard = .ok left →
      model.inquire config' hazard = .ok right → left.Agrees right)
    (h : (model.analyze config hazard heuristic heuristics fuel).2 = .ok results)
    (h' : (model.analyze config' hazard heuristic heuristics fuel).2 = .ok results') :
    results.minimal = results'.minimal ∧ results.checked = results'.checked ∧
      results.complete = results'.complete := by
  obtain ⟨left, after, hleft, hclimb, rfl⟩ := exists_climb h
  obtain ⟨right, after', hright, hclimb', rfl⟩ := exists_climb h'
  rw [← hgreatest] at hclimb'
  have hend := (hagrees left right hleft hright).climb
    ⟨rfl, ⟨rfl, rfl, rfl⟩, rfl, rfl⟩ hclimb hclimb'
  refine ⟨?_, hend.findings.checked_eq, hend.complete_eq⟩
  simp only [Findings.results, hend.findings.critical_eq]

/-! ## Forcing first -/

namespace Model

def NeverGivesUp (model : Model α) : Prop :=
  ∀ activations source error,
    (⟨model, activations, []⟩ : Scenario α).proposes source ≠ .error (.failure error)

/-- In a state, or initially, faults that are forced lead only to where they lead if they are
free. -/
def FreeAsForced (model : Model α) (source : Option Bytes) : Prop :=
  ∀ tight loose target, tight.length = model.faults.length → Freed .forced tight loose →
    model.Leads tight source target → model.Leads loose source target

theorem freed_forced (model : Model α) (set : FaultSet) :
    Freed .forced (model.activationsUnder set .forced)
      (model.activationsUnder set .nondeterministic) := by
  unfold Freed activationsUnder
  rw [List.forall₂_map_left_iff, List.forall₂_map_right_iff, List.forall₂_same]
  rintro ⟨fault, position⟩ -
  by_cases hfree : fault.activation = .nondeterministic
  · cases hmember : set.contains position <;> simp [hfree, hmember]
  · simp [hfree]

theorem covers_forced {model : Model α} (hfree : ∀ source, model.FreeAsForced source)
    (set : FaultSet) :
    model.Covers (model.activationsUnder set .forced)
      (model.activationsUnder set .nondeterministic) :=
  fun source target hleads =>
    .inl (hfree source _ _ target (by simp [activationsUnder]) (model.freed_forced set) hleads)

end Model

namespace Inquiry

variable [Scalar α] {inquiry left right : Inquiry α} {model : Model α} {config : AnalysisConfig}
  {hazard : Formula} {predicate : Predicate} {findings findings' after after' : Findings}
  {set : FaultSet} {safe safe' : Bool}

theorem checked_of_explore {mode : Activation}
    (h : inquiry.explore findings set mode = .ok (safe, after)) :
    after.checked = FaultSet.insertSorted set findings.checked := by
  cases explores_of_explore h with
  | safe => rfl
  | violated => rfl
  | failed =>
      split
      · rfl
      · rfl

/-- Explorations with the same verdict on a set leave findings that are alike, if they started from
such findings. -/
theorem Marked.alike (h : Marked findings after set safe) (h' : Marked findings' after' set safe)
    (hchecked : after.checked = FaultSet.insertSorted set findings.checked)
    (hchecked' : after'.checked = FaultSet.insertSorted set findings'.checked)
    (hfindings : findings.Alike findings') : after.Alike after' := by
  refine ⟨?_, ?_, ?_⟩
  · rw [h.safe_eq, h'.safe_eq, hfindings.safe_eq]
  · cases safe with
    | true => rw [h.critical_eq rfl, h'.critical_eq rfl, hfindings.critical_eq]
    | false =>
        have hadd := h.critical_add rfl
        rw [hfindings.critical_eq, h'.critical_add rfl] at hadd
        exact (Except.ok.inj hadd).symm
  · rw [hchecked, hchecked', hfindings.checked_eq]

section Behaviours

variable (h : left.Describes model { config with behaviour := .nondeterministic } hazard)
  (h' : right.Describes model { config with behaviour := .forceThenFallback } hazard)
  (hcompile : Predicate.compile hazard.not model.propositions = .ok predicate)
  (hnever : model.NeverStutters) (hsized : model.WellSized) (hgives : model.NeverGivesUp)
  (hfree : ∀ source, model.FreeAsForced source)

include h h' hcompile hnever hsized hgives hfree

theorem critical_of_forced {between : Findings}
    (hok : left.explore findings set .nondeterministic = .ok (safe, after))
    (hforced : right.explore findings' set .forced = .ok (false, between)) : safe = false := by
  obtain ⟨-, hsafe, -⟩ := h.explore_verdict hcompile hnever hsized hok
  obtain ⟨-, -, hwrong⟩ := h'.explore_verdict hcompile hnever hsized hforced
  have hendangered :
      model.Endangered (model.activationsUnder set .nondeterministic) predicate := by
    rcases hwrong rfl with hviolates | ⟨source, error, -, hfailure⟩
    · exact (covers_forced hfree set).endangered hviolates
    · exact absurd hfailure (hgives _ source error)
  cases safe with
  | false => rfl
  | true => exact absurd hendangered (hsafe rfl)

theorem exploreModes_alike (hfindings : findings.Alike findings')
    (hok : left.exploreModes findings set = .ok (safe, after))
    (hok' : right.exploreModes findings' set = .ok (safe', after')) :
    safe = safe' ∧ after.Alike after' := by
  rw [exploreModes_eq, h.behaviour_eq] at hok
  rw [exploreModes_eq, h'.behaviour_eq] at hok'
  dsimp only at hok hok'
  obtain ⟨hverdict, hmarked⟩ := h.of_explore hok
  obtain ⟨⟨forcedSafe, between⟩, hforced, hrest⟩ := bind_eq_ok.1 hok'
  obtain ⟨-, hmarkedForced⟩ := h'.of_explore hforced
  cases forcedSafe with
  | false =>
      cases hrest
      have hsafe := critical_of_forced h h' hcompile hnever hsized hgives hfree hok hforced
      subst hsafe
      exact ⟨rfl, hmarked.alike hmarkedForced (checked_of_explore hok) (checked_of_explore hforced)
        hfindings⟩
  | true =>
      obtain ⟨hverdict', hmarked'⟩ := h'.of_explore hrest
      have hsame : safe = safe' := Option.some.inj (hverdict.symm.trans hverdict')
      subst hsame
      refine ⟨rfl, hmarked.alike ⟨?_, ?_, ?_⟩ (checked_of_explore hok) ?_ hfindings⟩
      · rw [hmarked'.safe_eq, hmarkedForced.safe_eq]
      · intro hsafe
        rw [hmarked'.critical_eq hsafe, hmarkedForced.critical_eq rfl]
      · intro hsafe
        rw [← hmarkedForced.critical_eq rfl]
        exact hmarked'.critical_add hsafe
      · rw [checked_of_explore hrest, checked_of_explore hforced,
          FaultSet.insertSorted_insertSorted]

theorem check_alike {cardinality : Nat} (hfindings : findings.Alike findings')
    (hok : left.check cardinality findings set = .ok (safe, after))
    (hok' : right.check cardinality findings' set = .ok (safe', after')) :
    safe = safe' ∧ after.Alike after' := by
  have hknown : findings'.verdict? set = findings.verdict? set := by
    rw [Findings.verdict?, Findings.verdict?, hfindings.safe_eq, hfindings.critical_eq]
  have hcounted (counts counts' : CheckCounts) :
      Findings.Alike { findings with counts } { findings' with counts := counts' } :=
    ⟨hfindings.safe_eq, hfindings.critical_eq, hfindings.checked_eq⟩
  have hagree {counts counts' : CheckCounts} {safe safe' : Bool} {after after' : Findings}
      (hmodes : left.exploreModes { findings with counts } set = .ok (safe, after))
      (hmodes' : right.exploreModes { findings' with counts := counts' } set =
        .ok (safe', after')) : safe = safe' ∧ after.Alike after' :=
    exploreModes_alike h h' hcompile hnever hsized hgives hfree (hcounted _ _) hmodes hmodes'
  cases checks_of_check hok with
  | decided hverdict =>
      cases checks_of_check hok' with
      | decided hverdict' =>
          rw [hknown, hverdict] at hverdict'
          cases hverdict'
          exact ⟨rfl, hcounted _ _⟩
      | condemned hnone =>
          rw [hknown, hverdict] at hnone
          cases hnone
      | cleared _ hnone =>
          rw [hknown, hverdict] at hnone
          cases hnone
  | condemned hnone hmodes =>
      cases checks_of_check hok' with
      | decided hverdict' =>
          rw [hknown, hnone] at hverdict'
          cases hverdict'
      | condemned _ hmodes' => exact hagree hmodes hmodes'
      | cleared _ _ hmodes' => cases (hagree hmodes hmodes').1
  | cleared between hnone hmodes hadd =>
      cases checks_of_check hok' with
      | decided hverdict' =>
          rw [hknown, hnone] at hverdict'
          cases hverdict'
      | condemned _ hmodes' => cases (hagree hmodes hmodes').1
      | cleared between' _ hmodes' hadd' =>
          obtain ⟨-, hbetween⟩ := hagree hmodes hmodes'
          rw [hbetween.safe_eq, hadd'] at hadd
          exact ⟨rfl, (Except.ok.inj hadd).symm, hbetween.critical_eq, hbetween.checked_eq⟩

theorem agrees_of_describes : left.Agrees right where
  model_eq := h.model_eq.trans h'.model_eq.symm
  excludes_eq := by
    funext set
    rw [Bool.eq_iff_iff, ← not_iff_not, Bool.not_eq_true, Bool.not_eq_true, h.excludes_eq_false,
      h'.excludes_eq_false]
  check := fun _ _ _ _ _ _ _ _ =>
    check_alike h h' hcompile hnever hsized hgives hfree

end Behaviours

end Inquiry

namespace Model

variable [Scalar α]

/-- A component that a fault pushes from 0 to 1 and back again; left alone at 1 it ends at 2, which
is the hazard. A second fault does nothing. -/
def flicker : Model Rat where
  stateSize := 1
  propositions := ["hazard"]
  faults := [{ name := "Push" }, { name := "Noise" }]
  start := [0]
  holds state _ := state == [2]
  initial _ := .ok [{ target := [0], probability := 1 }]
  step activations state := .ok <| (Activation.combinations activations).map fun strikes =>
    { target := [if strikes.getD 0 false then (if state == [0] then 1 else 0)
        else if state == [0] then 0 else 2]
      probability := 1 }
  refuse _ := none

theorem leads_flicker {activations : List Activation} {state target : Bytes} :
    flicker.Leads activations (some state) target ↔
      ∃ strikes ∈ Activation.combinations activations,
        [if strikes.getD 0 false then (if state == [0] then 1 else 0)
          else if state == [0] then 0 else 2] = target := by
  constructor
  · rintro ⟨proposed, hproposed, candidate, hcandidate, -, rfl⟩
    cases hproposed
    obtain ⟨strikes, hstrikes, rfl⟩ := List.mem_map.1 hcandidate
    exact ⟨strikes, hstrikes, rfl⟩
  · rintro ⟨strikes, hstrikes, rfl⟩
    exact ⟨_, rfl, _, List.mem_map.2 ⟨strikes, hstrikes, rfl⟩, rfl, rfl⟩

theorem candidates_flicker {activations : List Activation} {source : Option Bytes}
    {proposed : List (Candidate Rat)}
    (hproposed : (⟨flicker, activations, []⟩ : Scenario Rat).proposes source = .ok proposed) :
    ∀ candidate ∈ proposed, candidate.stuttering = false ∧ candidate.target.length = 1 := by
  intro candidate hcandidate
  cases source with
  | none =>
      cases hproposed
      rw [List.mem_singleton.1 hcandidate]
      exact ⟨rfl, rfl⟩
  | some state =>
      cases hproposed
      obtain ⟨strikes, -, rfl⟩ := List.mem_map.1 hcandidate
      exact ⟨rfl, rfl⟩

/-- A component that starts in the hazard only if its fault is forced, and stays where it is. -/
def lateStart : Model Rat where
  stateSize := 1
  propositions := ["hazard"]
  faults := [{ name := "Fault" }]
  start := [0]
  holds state _ := state == [0]
  initial activations :=
    .ok [{ target := [if activations == [.forced] then 0 else 1], probability := 1 }]
  step _ state := .ok [{ target := [state.getD 0 0], probability := 1 }]
  refuse _ := none

end Model

end Hazard
