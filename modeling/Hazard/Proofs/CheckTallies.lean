import Hazard.Proofs.ConsistentResults
/-!
# The books of an analysis

Sets come to be checked from the level, from suggestions and from what heuristics took out of the
queue, in any order and more than once. A check that earlier findings decide is counted; every other
one explores a set that has not been explored before, and files it as safe or as critical. So after
any number of checks the counts add up, and the model is never explored twice for the same set in
the same mode.
-/

namespace Hazard

namespace FaultSet

theorem perm_insertSorted {set : FaultSet} {sets : List FaultSet} (hnew : set ∉ sets) :
    (insertSorted set sets).Perm (set :: sets) := by
  induction sets with
  | nil => exact List.Perm.refl _
  | cons first rest ih =>
      rw [List.mem_cons, not_or] at hnew
      rw [insertSorted]
      split
      · exact List.Perm.refl _
      · rw [if_neg hnew.1]
        exact ((ih hnew.2).cons first).trans (List.Perm.swap set first rest)

end FaultSet

/-! ## Calls and trials -/

structure CheckCall where
  /-- The size of the sets of the level. -/
  cardinality : Nat
  set : FaultSet
  /-- The findings before the check. -/
  known : Findings

structure Trial where
  set : FaultSet
  mode : Activation
  /-- The findings when it starts. -/
  known : Findings

namespace Inquiry

variable {α η : Type} [Scalar α]

def answer (inquiry : Inquiry α) (call : CheckCall) : Except (AnalysisError α) (Bool × Findings) :=
  inquiry.check call.cardinality call.known call.set

def notingExplorer (inquiry : Inquiry α) : Explorer (StateM (List Trial)) α :=
  fun findings set mode => do
    modify fun trials => trials ++ [⟨set, mode, findings⟩]
    return inquiry.explorer findings set mode

/-- The check of a call with a note of every exploration that it starts. -/
def recordedCheck (inquiry : Inquiry α) (call : CheckCall) :
    Except (AnalysisError α) (Bool × Findings) × List Trial :=
  (inquiry.checkBy inquiry.notingExplorer call.cardinality call.known call.set).run.run []

def trials (inquiry : Inquiry α) (call : CheckCall) : List Trial := (inquiry.recordedCheck call).2

/-! The calls follow the run: a step on the queue makes one, unless the suggestion is dropped, and
after an error there are no more. -/

def takeFirstCalls (inquiry : Inquiry α) (cardinality : Nat) (work : LevelWork η)
    (set : FaultSet) : List CheckCall :=
  if !work.unchecked.contains set && inquiry.excludes set then []
  else [⟨cardinality, set, work.findings⟩]

def drainCalls (inquiry : Inquiry α) (heuristic : Heuristic η) (cardinality : Nat) :
    Nat → LevelWork η → List CheckCall
  | 0, _ => []
  | fuel + 1, work =>
    match work.queue with
    | [] => []
    | set :: queue =>
      inquiry.takeFirstCalls cardinality work set ++
        match inquiry.takeFirst heuristic cardinality work set queue with
        | (_, .error _) => []
        | (next, .ok ()) => inquiry.drainCalls heuristic cardinality fuel next

def openCalls (inquiry : Inquiry α) (cardinality : Nat) : List FaultSet → Findings → List CheckCall
  | [], _ => []
  | set :: rest, findings =>
    ⟨cardinality, set, findings⟩ ::
      match inquiry.check cardinality findings set with
      | .error _ => []
      | .ok (_, after) => inquiry.openCalls cardinality rest after

def levelCalls (inquiry : Inquiry α) (heuristic : Heuristic η) (fuel cardinality : Nat)
    (sets excluded : List FaultSet) (progress : Progress η) : List CheckCall :=
  match heuristic.augmentAll progress.heuristics cardinality sets with
  | (_, .error _) => []
  | (heuristics, .ok queue) =>
    let work : LevelWork η := ⟨sets, queue, excluded, progress.findings, heuristics⟩
    inquiry.drainCalls heuristic cardinality (fuel + queue.length) work ++
      match inquiry.drain heuristic cardinality (fuel + queue.length) work with
      | (_, .error _) => []
      | (work, .ok ()) => inquiry.openCalls cardinality work.unchecked work.findings

def climbCalls (inquiry : Inquiry α) (heuristic : Heuristic η) (fuel : Nat)
    (maxCardinality : Option Nat) : List Nat → Progress η → List CheckCall
  | [], _ => []
  | cardinality :: rest, progress =>
    let level := inquiry.levelStart cardinality progress
    if level.sets.isEmpty then
      inquiry.climbCalls heuristic fuel maxCardinality rest { progress with safe := level.excluded }
    else if maxCardinality.any (· < cardinality) then []
    else
      inquiry.levelCalls heuristic fuel cardinality level.sets level.excluded progress ++
        match inquiry.checkLevel heuristic fuel cardinality level.sets level.excluded progress with
        | (_, .error _) => []
        | (progress, .ok ()) => inquiry.climbCalls heuristic fuel maxCardinality rest progress

/-- Calls each of which starts from what the one before found. A call that fails is the last one;
if there is none, the findings after the calls are known. -/
inductive Chained (inquiry : Inquiry α) : Findings → List CheckCall → Option Findings → Prop
  | nil {findings : Findings} : Chained inquiry findings [] (some findings)
  | failed {call : CheckCall} {error : AnalysisError α}
      (hanswer : inquiry.answer call = .error error) : Chained inquiry call.known [call] none
  | cons {call : CheckCall} {safe : Bool} {after : Findings} {rest : List CheckCall}
      {last : Option Findings} (hanswer : inquiry.answer call = .ok (safe, after))
      (hrest : Chained inquiry after rest last) : Chained inquiry call.known (call :: rest) last

namespace Chained

variable {inquiry : Inquiry α} {heuristic : Heuristic η} {findings between : Findings}
  {calls more : List CheckCall} {last : Option Findings}

theorem append (h : inquiry.Chained findings calls (some between))
    (hmore : inquiry.Chained between more last) :
    inquiry.Chained findings (calls ++ more) last := by
  generalize hend : some between = known at h
  induction h with
  | nil =>
      cases hend
      exact hmore
  | failed => cases hend
  | cons hanswer _ ih => exact .cons hanswer (ih hend)

end Chained

section

variable (inquiry : Inquiry α) (heuristic : Heuristic η)

theorem chained_takeFirstCalls (cardinality : Nat) (work : LevelWork η) (set : FaultSet)
    (queue : Queue) :
    ∃ last, inquiry.Chained work.findings (inquiry.takeFirstCalls cardinality work set) last ∧
      ∀ next, inquiry.takeFirst heuristic cardinality work set queue = (next, .ok ()) →
        last = some next.findings := by
  unfold takeFirstCalls
  split
  · next hdrop =>
    refine ⟨_, .nil, fun next hok => ?_⟩
    rcases takeFirst_eq_ok hok with ⟨-, rfl⟩ | ⟨hkeep, -⟩
    · rfl
    · rw [hdrop] at hkeep
      cases hkeep
  · next hkeep =>
    cases hcheck : inquiry.check cardinality work.findings set with
    | error error =>
        have hanswer : inquiry.answer ⟨cardinality, set, work.findings⟩ = .error error := hcheck
        refine ⟨none, .failed hanswer, fun next hok => ?_⟩
        rcases takeFirst_eq_ok hok with ⟨hdrop, -⟩ | ⟨-, _, _, _, _, hcheck', -⟩
        · exact absurd hdrop hkeep
        · rw [hcheck] at hcheck'
          cases hcheck'
    | ok answer =>
        have hanswer : inquiry.answer ⟨cardinality, set, work.findings⟩ = .ok answer := hcheck
        refine ⟨some answer.2, .cons hanswer .nil, fun next hok => ?_⟩
        rcases takeFirst_eq_ok hok with ⟨hdrop, -⟩ | ⟨-, _, _, _, _, hcheck', -, rfl⟩
        · exact absurd hdrop hkeep
        · rw [hcheck] at hcheck'
          cases hcheck'
          rfl

theorem chained_drainCalls (cardinality fuel : Nat) (work : LevelWork η) :
    ∃ last,
      inquiry.Chained work.findings (inquiry.drainCalls heuristic cardinality fuel work) last ∧
      ∀ next, inquiry.drain heuristic cardinality fuel work = (next, .ok ()) →
        last = some next.findings := by
  induction fuel generalizing work with
  | zero =>
      refine ⟨_, .nil, fun next hok => ?_⟩
      rcases drain_eq_ok hok with ⟨-, rfl⟩ | ⟨_, _, _, _, hfuel, -⟩
      · rfl
      · cases hfuel
  | succ fuel ih =>
      rw [drainCalls]
      split
      · next hnil =>
        refine ⟨_, .nil, fun next hok => ?_⟩
        rcases drain_eq_ok hok with ⟨-, rfl⟩ | ⟨_, _, _, _, -, hcons, -⟩
        · rfl
        · rw [hnil] at hcons
          cases hcons
      · next set queue hcons =>
        obtain ⟨first, hfirst, hknown⟩ :=
          inquiry.chained_takeFirstCalls heuristic cardinality work set queue
        have hinverse {next : LevelWork η}
            (hok : inquiry.drain heuristic cardinality (fuel + 1) work = (next, .ok ())) :
            ∃ between, inquiry.takeFirst heuristic cardinality work set queue = (between, .ok ()) ∧
              inquiry.drain heuristic cardinality fuel between = (next, .ok ()) := by
          rcases drain_eq_ok hok with ⟨hnil, -⟩ | ⟨_, _, _, between, ⟨⟩, hcons', hstep, hrest⟩
          · rw [hnil] at hcons
            cases hcons
          · rw [hcons] at hcons'
            cases hcons'
            exact ⟨between, hstep, hrest⟩
        split
        · next failed error hstep =>
          rw [List.append_nil]
          refine ⟨first, hfirst, fun next hok => ?_⟩
          obtain ⟨_, hstep', -⟩ := hinverse hok
          rw [hstep] at hstep'
          cases hstep'
        · next between hstep =>
          obtain ⟨last, hlast, hend⟩ := ih between
          rw [hknown between hstep] at hfirst
          refine ⟨last, hfirst.append hlast, fun next hok => ?_⟩
          obtain ⟨_, hstep', hrest⟩ := hinverse hok
          rw [hstep] at hstep'
          cases hstep'
          exact hend next hrest

theorem chained_openCalls (cardinality : Nat) (sets : List FaultSet) (work : LevelWork η) :
    ∃ last, inquiry.Chained work.findings (inquiry.openCalls cardinality sets work.findings) last ∧
      ∀ next, sets.foldlM (fun (work : LevelWork η) set => do
          let (safe, findings) ← inquiry.check cardinality work.findings set
          return { work with
            findings, safe := if safe then FaultSet.insertSorted set work.safe else work.safe })
          work = .ok next →
        last = some next.findings := by
  induction sets generalizing work with
  | nil =>
      refine ⟨_, .nil, fun next hok => ?_⟩
      cases hok
      rfl
  | cons set rest ih =>
      rw [openCalls, List.foldlM_cons]
      cases hcheck : inquiry.check cardinality work.findings set with
      | error error =>
          have hanswer : inquiry.answer ⟨cardinality, set, work.findings⟩ = .error error := hcheck
          exact ⟨none, .failed hanswer, fun next hok => by cases hok⟩
      | ok answer =>
          have hanswer : inquiry.answer ⟨cardinality, set, work.findings⟩ = .ok answer := hcheck
          obtain ⟨last, hlast, hend⟩ := ih { work with
            findings := answer.2
            safe := if answer.1 then FaultSet.insertSorted set work.safe else work.safe }
          exact ⟨last, .cons hanswer hlast, hend⟩

theorem chained_levelCalls (fuel cardinality : Nat) (sets excluded : List FaultSet)
    (progress : Progress η) :
    ∃ last, inquiry.Chained progress.findings
        (inquiry.levelCalls heuristic fuel cardinality sets excluded progress) last ∧
      ∀ next, inquiry.checkLevel heuristic fuel cardinality sets excluded progress =
        (next, .ok ()) → last = some next.findings := by
  unfold levelCalls
  split
  · next heuristics misuse haugment =>
    refine ⟨_, .nil, fun next hok => ?_⟩
    obtain ⟨_, _, _, _, haugment', -⟩ := checkLevel_eq_ok hok
    rw [haugment] at haugment'
    cases haugment'
  · next heuristics queue haugment =>
    obtain ⟨first, hfirst, hknown⟩ := inquiry.chained_drainCalls heuristic cardinality
      (fuel + queue.length) ⟨sets, queue, excluded, progress.findings, heuristics⟩
    dsimp only at hfirst ⊢
    split
    · next failed error hdrain =>
      rw [List.append_nil]
      refine ⟨first, hfirst, fun next hok => ?_⟩
      obtain ⟨_, _, _, _, haugment', hdrain', -⟩ := checkLevel_eq_ok hok
      rw [haugment] at haugment'
      cases haugment'
      rw [hdrain] at hdrain'
      cases hdrain'
    · next drained hdrain =>
      obtain ⟨last, hlast, hend⟩ := inquiry.chained_openCalls cardinality drained.unchecked drained
      rw [hknown drained hdrain] at hfirst
      refine ⟨last, hfirst.append hlast, fun next hok => ?_⟩
      obtain ⟨_, _, _, _, haugment', hdrain', hopen, rfl⟩ := checkLevel_eq_ok hok
      rw [haugment] at haugment'
      cases haugment'
      rw [hdrain] at hdrain'
      cases hdrain'
      exact hend _ hopen

theorem chained_climbCalls (fuel : Nat) (greatest : Option Nat) (levels : List Nat)
    (progress : Progress η) :
    ∃ last, inquiry.Chained progress.findings
        (inquiry.climbCalls heuristic fuel greatest levels progress) last ∧
      ∀ next, inquiry.climb heuristic fuel greatest levels progress = (next, .ok ()) →
        last = some next.findings := by
  induction levels generalizing progress with
  | nil =>
      refine ⟨_, .nil, fun next hok => ?_⟩
      cases hok
      rfl
  | cons cardinality rest ih =>
      rw [climbCalls, climb_cons_eq]
      split
      · exact ih { progress with safe := (inquiry.levelStart cardinality progress).excluded }
      · split
        · refine ⟨_, .nil, fun next hok => ?_⟩
          cases hok
          rfl
        · obtain ⟨first, hfirst, hknown⟩ := inquiry.chained_levelCalls heuristic fuel cardinality
            (inquiry.levelStart cardinality progress).sets
            (inquiry.levelStart cardinality progress).excluded progress
          cases hlevel : inquiry.checkLevel heuristic fuel cardinality
              (inquiry.levelStart cardinality progress).sets
              (inquiry.levelStart cardinality progress).excluded progress with
          | mk between outcome =>
              cases outcome with
              | error error =>
                  dsimp only
                  rw [List.append_nil]
                  exact ⟨first, hfirst, fun next hok => by cases hok⟩
              | ok =>
                  obtain ⟨last, hlast, hend⟩ := ih between
                  rw [hknown between hlevel] at hfirst
                  exact ⟨last, hfirst.append hlast, hend⟩

end

/-! ## What one check books -/

/-- An exploration books its set as checked, and as critical if it is. -/
structure Noted (before after : Findings) (set : FaultSet) (safe : Bool) : Prop
    extends Marked before after set safe where
  counts_eq : after.counts = before.counts
  checked_eq : after.checked = FaultSet.insertSorted set before.checked

variable {inquiry : Inquiry α} {findings after : Findings} {set : FaultSet} {safe : Bool}
  {cardinality made : Nat}

theorem noted_of_explores {used : List Activation}
    (h : inquiry.Explores set used findings safe after) : Noted findings after set safe := by
  cases h with
  | safe => exact ⟨⟨rfl, fun _ => rfl, by simp⟩, rfl, rfl⟩
  | violated _ _ hadd => exact ⟨⟨rfl, by simp, fun _ => hadd⟩, rfl, rfl⟩
  | @failed _ path _ _ _ hadd =>
      by_cases hpath : path.isEmpty = true
      · rw [if_pos hpath]
        exact ⟨⟨rfl, by simp, fun _ => hadd⟩, rfl, rfl⟩
      · rw [if_neg hpath]
        exact ⟨⟨rfl, by simp, fun _ => hadd⟩, rfl, rfl⟩

theorem Noted.trans {between : Findings} (hfirst : Noted findings between set true)
    (hsecond : Noted between after set safe) : Noted findings after set safe where
  safe_eq := hsecond.safe_eq.trans hfirst.safe_eq
  critical_eq hsafe := (hsecond.critical_eq hsafe).trans (hfirst.critical_eq rfl)
  critical_add hsafe := hfirst.critical_eq rfl ▸ hsecond.critical_add hsafe
  counts_eq := hsecond.counts_eq.trans hfirst.counts_eq
  checked_eq := by
    rw [hsecond.checked_eq, hfirst.checked_eq, FaultSet.insertSorted_insertSorted]

theorem noted_of_exploreModes (h : inquiry.exploreModes findings set = .ok (safe, after)) :
    Noted findings after set safe := by
  rw [exploreModes_eq] at h
  split at h
  · exact noted_of_explores (explores_of_explore h)
  · exact noted_of_explores (explores_of_explore h)
  · obtain ⟨⟨forced, between⟩, hforced, hrest⟩ := bind_eq_ok.1 h
    have hfirst := noted_of_explores (explores_of_explore hforced)
    cases forced with
    | true => exact hfirst.trans (noted_of_explores (explores_of_explore hrest))
    | false =>
        cases hrest
        exact hfirst

theorem check_eq_ok (h : inquiry.check cardinality findings set = .ok (safe, after)) :
    (findings.verdict? set = some safe ∧
      after = { findings with
        counts := (findings.counts.suggestion (set.card != cardinality)).decided
          (set.card != cardinality) }) ∨
    (findings.verdict? set = none ∧ ∃ between,
      Noted { findings with counts := findings.counts.suggestion (set.card != cardinality) }
        between set safe ∧
      ((safe = false ∧ after = between) ∨
        (safe = true ∧ ∃ larger, between.safe.add set = .ok larger ∧
          after = { between with
            safe := larger
            counts := between.counts.shownSafe (set.card != cardinality) }))) := by
  rw [check_eq] at h
  dsimp only at h
  split at h
  · next verdict hverdict =>
    cases h
    exact .inl ⟨hverdict, rfl⟩
  · next hnone =>
    obtain ⟨⟨shown, between⟩, hmodes, hrest⟩ := bind_eq_ok.1 h
    have hnoted := noted_of_exploreModes hmodes
    cases shown with
    | true =>
        obtain ⟨last, hadd, hpure⟩ := bind_eq_ok.1 hrest
        obtain ⟨larger, hlarger, rfl⟩ := map_eq_ok.1 (mapError_eq_ok.1 hadd)
        cases hpure
        exact .inr ⟨hnone, between, hnoted, .inr ⟨rfl, larger, hlarger, rfl⟩⟩
    | false =>
        cases hrest
        exact .inr ⟨hnone, between, hnoted, .inl ⟨rfl, rfl⟩⟩

end Inquiry

/-! ## The books after any number of checks -/

namespace CheckCounts

theorem trivial_suggestion (counts : CheckCounts) (suggested : Bool) :
    (counts.suggestion suggested).trivial = counts.trivial := by
  cases suggested with
  | true => rfl
  | false => rfl

/-- A suggestion makes room for what is counted about it later. -/
theorem suggestion_le {counts : CheckCounts}
    (h : counts.suggestedTrivial + counts.suggestedSafe ≤ counts.suggested) (suggested : Bool) :
    (counts.suggestion suggested).suggestedTrivial + (counts.suggestion suggested).suggestedSafe +
      suggested.toNat ≤ (counts.suggestion suggested).suggested := by
  cases suggested with
  | true => exact Nat.succ_le_succ h
  | false => exact h

end CheckCounts

namespace Findings

/-- The books after a number of checks: every check was trivial or explored one more set; the
explored sets are parted into the safe and the critical ones, each filed once; and no suggestion
counts twice. -/
structure Tallied (findings : Findings) (made : Nat) : Prop where
  made_eq : made = findings.counts.trivial + findings.checked.length
  once : findings.checked.Nodup
  parted : findings.checked.Perm (findings.safe.toList ++ findings.critical.toList)
  suggested_le : findings.counts.suggestedTrivial + findings.counts.suggestedSafe ≤
    findings.counts.suggested

/-- The books add up, and the collections can be searched. -/
structure Balanced (findings : Findings) (made : Nat) : Prop extends findings.Tallied made where
  safe_bucketed : findings.safe.Bucketed
  critical_bucketed : findings.critical.Bucketed

variable {findings after : Findings} {set : FaultSet} {safe : Bool} {made : Nat}

theorem balanced_start (count : Nat) : (start count).Balanced 0 where
  made_eq := rfl
  once := List.nodup_nil
  parted := by simp [start]
  suggested_le := Nat.le_refl 0
  safe_bucketed := FaultSetCollection.bucketed_empty count
  critical_bucketed := FaultSetCollection.bucketed_empty count

namespace Balanced

/-- A set is undecided if no safe set contains it and it contains no critical one. -/
theorem undecided_iff (h : findings.Balanced made) :
    findings.verdict? set = none ↔
      (∀ member ∈ findings.safe.toList, set.isSubset member = false) ∧
        ∀ member ∈ findings.critical.toList, member.isSubset set = false := by
  have hsafe : (∀ member ∈ findings.safe.toList, set.isSubset member = false) ↔
      findings.safe.hasSupersetOf set = false := by
    rw [← Bool.not_eq_true, FaultSetCollection.hasSupersetOf_iff h.safe_bucketed]
    simp
  have hcritical : (∀ member ∈ findings.critical.toList, member.isSubset set = false) ↔
      findings.critical.hasSubsetOf set = false := by
    rw [← Bool.not_eq_true, FaultSetCollection.hasSubsetOf_iff h.critical_bucketed]
    simp
  rw [hsafe, hcritical, verdict?]
  cases findings.safe.hasSupersetOf set with
  | true => simp
  | false => simp

/-- A set that was explored is decided from then on. -/
theorem not_mem_checked (h : findings.Balanced made) (hnone : findings.verdict? set = none) :
    set ∉ findings.checked := by
  obtain ⟨hsafe, hcritical⟩ := h.undecided_iff.1 hnone
  intro hchecked
  rw [h.parted.mem_iff, List.mem_append] at hchecked
  have hself := IndexSet.isSubset_refl set
  rcases hchecked with hmember | hmember
  · rw [hsafe set hmember] at hself
    cases hself
  · rw [hcritical set hmember] at hself
    cases hself

theorem file (h : findings.Balanced made) (hnew : set ∉ findings.checked)
    (hchecked : after.checked = FaultSet.insertSorted set findings.checked)
    (htrivial : after.counts.trivial = findings.counts.trivial)
    (hsuggested : after.counts.suggestedTrivial + after.counts.suggestedSafe ≤
      after.counts.suggested)
    (hfiled : (after.safe.toList ++ after.critical.toList).Perm
      (set :: (findings.safe.toList ++ findings.critical.toList)))
    (hsafe : after.safe.Bucketed) (hcritical : after.critical.Bucketed) :
    after.Balanced (made + 1) := by
  have hperm := FaultSet.perm_insertSorted hnew
  refine ⟨⟨?_, ?_, ?_, hsuggested⟩, hsafe, hcritical⟩
  · rw [hchecked, htrivial, hperm.length_eq, List.length_cons, h.made_eq]
    omega
  · rw [hchecked, hperm.nodup_iff]
    exact List.nodup_cons.2 ⟨hnew, h.once⟩
  · rw [hchecked]
    exact (hperm.trans (h.parted.cons set)).trans hfiled.symm

theorem file_critical (h : findings.Balanced made) {counts : CheckCounts}
    (hnew : set ∉ findings.checked) (htrivial : counts.trivial = findings.counts.trivial)
    (hsuggested : counts.suggestedTrivial + counts.suggestedSafe ≤ counts.suggested)
    (hnoted : Inquiry.Noted { findings with counts } after set false) :
    after.Balanced (made + 1) := by
  have hadd := hnoted.critical_add rfl
  have hmember : set ∉ findings.critical.toList := fun hmember =>
    hnew (h.parted.mem_iff.2 (List.mem_append_right _ hmember))
  have hfiled := (FaultSetCollection.perm_toList_of_add hadd hmember).append_left
    findings.safe.toList
  refine h.file hnew hnoted.checked_eq ?_ ?_ ?_ ?_ ?_
  · rw [hnoted.counts_eq]
    exact htrivial
  · rw [hnoted.counts_eq]
    exact hsuggested
  · rw [hnoted.safe_eq]
    exact hfiled.trans List.perm_middle
  · rw [hnoted.safe_eq]
    exact h.safe_bucketed
  · exact FaultSetCollection.bucketed_of_add h.critical_bucketed hadd

theorem file_safe (h : findings.Balanced made) {counts later : CheckCounts} {between : Findings}
    {larger : FaultSetCollection} (hnew : set ∉ findings.checked)
    (htrivial : later.trivial = findings.counts.trivial)
    (hsuggested : later.suggestedTrivial + later.suggestedSafe ≤ later.suggested)
    (hnoted : Inquiry.Noted { findings with counts } between set true)
    (hadd : between.safe.add set = .ok larger) :
    ({ between with safe := larger, counts := later } : Findings).Balanced (made + 1) := by
  rw [hnoted.safe_eq] at hadd
  have hmember : set ∉ findings.safe.toList := fun hmember =>
    hnew (h.parted.mem_iff.2 (List.mem_append_left _ hmember))
  have hcritical : between.critical = findings.critical := hnoted.critical_eq rfl
  refine h.file hnew hnoted.checked_eq htrivial hsuggested ?_ ?_ ?_
  · dsimp only
    rw [hcritical]
    exact (FaultSetCollection.perm_toList_of_add hadd hmember).append_right _
  · exact FaultSetCollection.bucketed_of_add h.safe_bucketed hadd
  · dsimp only
    rw [hcritical]
    exact h.critical_bucketed

theorem check {α : Type} [Scalar α] {inquiry : Inquiry α} {cardinality : Nat} {safe : Bool}
    (h : findings.Balanced made)
    (hcheck : inquiry.check cardinality findings set = .ok (safe, after)) :
    after.Balanced (made + 1) ∧ (∀ other ∈ findings.checked, other ∈ after.checked) ∧
      (findings.verdict? set = none → set ∈ after.checked) := by
  have hroom := CheckCounts.suggestion_le h.suggested_le (set.card != cardinality)
  have htrivial := findings.counts.trivial_suggestion (set.card != cardinality)
  rcases Inquiry.check_eq_ok hcheck with ⟨hverdict, rfl⟩ | ⟨hnone, between, hnoted, hfiled⟩
  · refine ⟨⟨⟨?_, h.once, h.parted, ?_⟩, h.safe_bucketed, h.critical_bucketed⟩,
      fun _ hother => hother, fun hnone => ?_⟩
    · simp only [CheckCounts.decided, htrivial, h.made_eq]
      omega
    · simp only [CheckCounts.decided]
      omega
    · rw [hverdict] at hnone
      cases hnone
  · have hnew := h.not_mem_checked hnone
    have hbooked (other : FaultSet) :
        other ∈ between.checked ↔ other = set ∨ other ∈ findings.checked := by
      rw [hnoted.checked_eq, FaultSet.mem_insertSorted]
    rcases hfiled with ⟨rfl, rfl⟩ | ⟨rfl, larger, hadd, rfl⟩
    · exact ⟨h.file_critical hnew htrivial (by omega) hnoted,
        fun other hother => (hbooked other).2 (.inr hother), fun _ => (hbooked set).2 (.inl rfl)⟩
    · refine ⟨h.file_safe hnew ?_ ?_ hnoted hadd,
        fun other hother => (hbooked other).2 (.inr hother), fun _ => (hbooked set).2 (.inl rfl)⟩
      · simp only [CheckCounts.shownSafe, hnoted.counts_eq, htrivial]
      · simp only [CheckCounts.shownSafe, hnoted.counts_eq]
        omega

end Balanced

end Findings

/-! ## Whole runs -/

namespace Inquiry

variable {α η : Type} [Scalar α] {inquiry : Inquiry α} {findings : Findings} {made : Nat}
  {call : CheckCall} {calls : List CheckCall} {last : Option Findings} {trial : Trial}

/-- A trial is about the set of its call, which no finding decides; an earlier trial of the call has
changed neither collection. -/
structure Undecided (call : CheckCall) (trial : Trial) : Prop where
  set_eq : trial.set = call.set
  none : call.known.verdict? call.set = none
  safe_eq : trial.known.safe = call.known.safe
  critical_eq : trial.known.critical = call.known.critical

theorem run_exploreBy (findings : Findings) (set : FaultSet) (mode : Activation)
    (trials : List Trial) :
    (inquiry.exploreBy inquiry.notingExplorer findings set mode).run.run trials =
      (inquiry.explore findings set mode, trials ++ [⟨set, mode, findings⟩]) := rfl

/-- A set is explored once per mode, and a second exploration finds the collections as they were. -/
theorem run_exploreModesBy (inquiry : Inquiry α) (findings : Findings) (set : FaultSet) :
    ∃ trials : List Trial,
      (inquiry.exploreModesBy inquiry.notingExplorer findings set).run.run [] =
        (inquiry.exploreModes findings set, trials) ∧
      (trials.map (·.mode)).Nodup ∧
      ∀ trial ∈ trials, trial.set = set ∧ trial.known.safe = findings.safe ∧
        trial.known.critical = findings.critical := by
  rw [exploreModesBy, exploreModes_eq]
  cases inquiry.behaviour with
  | forceOnly => exact ⟨_, run_exploreBy findings set .forced [], by simp, by simp⟩
  | nondeterministic =>
      exact ⟨_, run_exploreBy findings set .nondeterministic [], by simp, by simp⟩
  | forceThenFallback =>
      dsimp only
      rw [ExceptT.run_bind, StateT.run_bind, run_exploreBy]
      cases hforced : inquiry.explore findings set .forced with
      | error error => exact ⟨_, rfl, by simp, by simp⟩
      | ok answer =>
          obtain ⟨safe, between⟩ := answer
          cases safe with
          | false => exact ⟨_, rfl, by simp, by simp⟩
          | true =>
              have hnoted := noted_of_explores (explores_of_explore hforced)
              refine ⟨_, run_exploreBy between set .nondeterministic _, by simp, ?_⟩
              simp [hnoted.safe_eq, hnoted.critical_eq rfl]

/-- Noting the explorations changes no answer; and the trials of a call are of one mode each. -/
theorem recordedCheck_spec (inquiry : Inquiry α) (call : CheckCall) :
    (inquiry.recordedCheck call).1 = inquiry.answer call ∧
      ((inquiry.trials call).map (·.mode)).Nodup ∧
      ∀ trial ∈ inquiry.trials call, Undecided call trial := by
  rw [trials, recordedCheck, checkBy, answer, check_eq]
  dsimp only
  cases hverdict : Findings.verdict? _ call.set with
  | some safe => exact ⟨rfl, List.nodup_nil, fun trial htrial => absurd htrial List.not_mem_nil⟩
  | none =>
      obtain ⟨trials, hrun, honce, hknown⟩ := inquiry.run_exploreModesBy
        { call.known with
          counts := call.known.counts.suggestion (call.set.card != call.cardinality) } call.set
      have hundecided (trial : Trial) (htrial : trial ∈ trials) : Undecided call trial := by
        obtain ⟨hset, hsafe, hcritical⟩ := hknown trial htrial
        exact ⟨hset, hverdict, hsafe, hcritical⟩
      dsimp only
      rw [ExceptT.run_bind, StateT.run_bind, hrun]
      cases inquiry.exploreModes _ call.set with
      | error error => exact ⟨rfl, honce, hundecided⟩
      | ok answer => exact ⟨rfl, honce, hundecided⟩

namespace Chained

theorem balanced (h : inquiry.Chained findings calls last) (hfindings : findings.Balanced made) :
    (∀ index call, calls[index]? = some call → call.known.Balanced (made + index) ∧
      ∀ safe after, inquiry.answer call = .ok (safe, after) → after.Balanced (made + index + 1)) ∧
    ∀ final, last = some final → final.Balanced (made + calls.length) := by
  induction h generalizing made with
  | nil =>
      refine ⟨by simp, fun final hfinal => ?_⟩
      cases hfinal
      exact hfindings
  | @failed call error hanswer =>
      refine ⟨fun index other hother => ?_, fun final hfinal => by cases hfinal⟩
      rw [List.getElem?_singleton] at hother
      split at hother
      · next hzero =>
        cases hother
        subst hzero
        refine ⟨hfindings, fun safe after hok => ?_⟩
        rw [hanswer] at hok
        cases hok
      · cases hother
  | @cons call safe after rest last hanswer hrest ih =>
      have hnext := (hfindings.check hanswer).1
      obtain ⟨hcalls, hend⟩ := ih hnext
      refine ⟨fun index other hother => ?_, fun final hfinal => ?_⟩
      · cases index with
        | zero =>
            cases hother
            refine ⟨hfindings, fun safe' after' hok => ?_⟩
            rw [hanswer] at hok
            cases hok
            exact hnext
        | succ index =>
            have hother' := hcalls index other (by simpa using hother)
            rwa [Nat.add_assoc, Nat.add_comm 1 index] at hother'
      · have hfinal' := hend final hfinal
        rwa [Nat.add_assoc, Nat.add_comm 1 rest.length] at hfinal'

theorem trials_once (h : inquiry.Chained findings calls last)
    (hfindings : findings.Balanced made) :
    ((calls.flatMap inquiry.trials).map fun trial => (trial.set, trial.mode)).Nodup ∧
      ∀ trial ∈ calls.flatMap inquiry.trials, trial.set ∉ findings.checked := by
  have hnew {call : CheckCall} {made : Nat} (hknown : call.known.Balanced made)
      (trial : Trial) (htrial : trial ∈ inquiry.trials call) : trial.set ∉ call.known.checked := by
    have hundecided := (inquiry.recordedCheck_spec call).2.2 trial htrial
    rw [hundecided.set_eq]
    exact hknown.not_mem_checked hundecided.none
  have honce (call : CheckCall) :
      ((inquiry.trials call).map fun trial => (trial.set, trial.mode)).Nodup := by
    apply List.Nodup.of_map Prod.snd
    rw [List.map_map]
    exact (inquiry.recordedCheck_spec call).2.1
  induction h generalizing made with
  | nil => exact ⟨List.nodup_nil, by simp⟩
  | @failed call error hanswer =>
      rw [List.flatMap_singleton]
      exact ⟨honce call, hnew hfindings⟩
  | @cons call safe after rest last hanswer hrest ih =>
      obtain ⟨hnext, hgrown, hbooked⟩ := hfindings.check hanswer
      obtain ⟨hrestOnce, hrestNew⟩ := ih hnext
      rw [List.flatMap_cons, List.map_append]
      refine ⟨(honce call).append hrestOnce fun pair hfirst hlater => ?_, fun trial htrial => ?_⟩
      · obtain ⟨trial, htrial, rfl⟩ := List.mem_map.1 hfirst
        obtain ⟨later, hlater, heq⟩ := List.mem_map.1 hlater
        have hundecided := (inquiry.recordedCheck_spec call).2.2 trial htrial
        refine hrestNew later hlater ?_
        rw [(Prod.mk.inj heq).1, hundecided.set_eq]
        exact hbooked hundecided.none
      · rcases List.mem_append.1 htrial with htrial | htrial
        · exact hnew hfindings trial htrial
        · exact fun hchecked => hrestNew trial htrial (hgrown _ hchecked)

/-- When a trial starts, no safe set contains its set and no critical set lies inside it. -/
theorem trials_needed (h : inquiry.Chained findings calls last) (hfindings : findings.Balanced made)
    (htrial : trial ∈ calls.flatMap inquiry.trials) :
    (∀ member ∈ trial.known.safe.toList, trial.set.isSubset member = false) ∧
      ∀ member ∈ trial.known.critical.toList, member.isSubset trial.set = false := by
  obtain ⟨call, hcall, htrial⟩ := List.mem_flatMap.1 htrial
  obtain ⟨index, hindex⟩ := List.mem_iff_getElem?.1 hcall
  have hknown := ((h.balanced hfindings).1 index call hindex).1
  have hundecided := (inquiry.recordedCheck_spec call).2.2 trial htrial
  rw [hundecided.set_eq, hundecided.safe_eq, hundecided.critical_eq]
  exact hknown.undecided_iff.1 hundecided.none

end Chained

end Inquiry

namespace Model

variable {α η : Type} [Scalar α]

def checkCalls (model : Model α) (config : AnalysisConfig) (hazard : Formula)
    (heuristic : Heuristic η) (heuristics : List η) (fuel : Nat) : List CheckCall :=
  match model.inquire config hazard with
  | .error _ => []
  | .ok inquiry =>
    inquiry.climbCalls heuristic fuel config.maxCardinality (List.range (model.faults.length + 1))
      { safe := [], findings := .start model.faults.length, heuristics }

end Model

end Hazard
