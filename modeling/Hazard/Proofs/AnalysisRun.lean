import Hazard.Proofs.Findings
/-!
# Runs of the safety analysis

What one step on the queue of a level keeps, hence what the work on a level keeps, hence what a
climb through all levels finds.
-/

namespace Hazard

theorem FaultSet.mem_insertSorted {set member : FaultSet} {sets : List FaultSet} :
    member ∈ FaultSet.insertSorted set sets ↔ member = set ∨ member ∈ sets := by
  induction sets with
  | nil => simp [FaultSet.insertSorted]
  | cons first rest ih =>
      rw [FaultSet.insertSorted]
      split
      · simp
      · split
        · rename_i heq
          subst heq
          simp
        · simp only [List.mem_cons, ih]
          tauto

theorem FaultSet.insertSorted_insertSorted (set : FaultSet) (sets : List FaultSet) :
    insertSorted set (insertSorted set sets) = insertSorted set sets := by
  induction sets with
  | nil => simp [insertSorted]
  | cons first rest ih =>
      by_cases hlt : set.bits < first.bits
      · simp [insertSorted, hlt]
      · by_cases heq : set = first
        · simp [insertSorted, heq]
        · simp [insertSorted, hlt, heq, ih]

variable {α η : Type} [Scalar α] {model : Model α} {config : AnalysisConfig} {hazard : Formula}
  {fit : FaultSet → Prop} {inquiry : Inquiry α}

/-! ## One level -/

structure LevelStart where
  /-- The valid sets of the level. -/
  sets : List FaultSet
  /-- The other sets of the level. -/
  excluded : List FaultSet
  /-- The critical sets found at earlier levels. -/
  known : List FaultSet

/-- What holds while a level is worked through and the sets in `pending` have yet to be checked. -/
structure LevelWork.Sound (work : LevelWork η) (model : Model α) (config : AnalysisConfig)
    (hazard : Formula) (fit : FaultSet → Prop) (level : LevelStart) (pending : List FaultSet) :
    Prop where
  honest : work.findings.Honest model config hazard fit
  /-- Heuristics may put any set into the queue, so all valid sets must be fit if there are any. -/
  unmoved : work.heuristics = [] ∨ ∀ set, model.Valid set → fit set
  queue : ∀ set ∈ work.queue, model.Valid set → fit set
  known_subset : ∀ set ∈ level.known, set ∈ work.findings.critical.toList
  pending_subset : ∀ set ∈ pending, set ∈ level.sets
  excluded_subset : ∀ set ∈ level.excluded, set ∈ work.safe
  safe : ∀ set ∈ work.safe,
    set ∈ level.excluded ∨ set ∈ level.sets ∧ ¬model.Critical config hazard set
  settled : ∀ set ∈ level.sets, set ∈ pending ∨
    (¬model.Critical config hazard set → set ∈ work.safe) ∧
      (model.Critical config hazard set → work.findings.Condemn set)

namespace LevelWork.Sound

variable {work next : LevelWork η} {level : LevelStart} {pending rest : List FaultSet}
  {after : Findings} {set : FaultSet} {safe : Bool}

/-- A pending set has been checked: it joins the safe sets if it is safe, and is no longer
pending. -/
theorem check_pending (h : work.Sound model config hazard fit level pending)
    (hchecked : CheckedRightly model config hazard fit work.findings after set safe)
    (hset : set ∈ pending) (hrest : ∀ other ∈ rest, other ∈ pending)
    (hmissing : ∀ other ∈ pending, other ∉ rest → other = set)
    (hunmoved : next.heuristics = [] ∨ ∀ set, model.Valid set → fit set)
    (hqueue : ∀ set ∈ next.queue, model.Valid set → fit set)
    (hfindings : next.findings = after)
    (hsafe : next.safe = if safe then FaultSet.insertSorted set work.safe else work.safe) :
    next.Sound model config hazard fit level rest := by
  have hsets := h.pending_subset set hset
  have hmem : ∀ other, other ∈ next.safe ↔ (safe = true ∧ other = set) ∨ other ∈ work.safe := by
    intro other
    rw [hsafe]
    cases safe with
    | true => simp [FaultSet.mem_insertSorted]
    | false => simp
  refine ⟨by rw [hfindings]; exact hchecked.honest, hunmoved, hqueue, ?_, ?_, ?_, ?_, ?_⟩
  · rw [hfindings]
    exact fun other hother => hchecked.grown other (h.known_subset other hother)
  · exact fun other hother => h.pending_subset other (hrest other hother)
  · exact fun other hother => (hmem other).2 (Or.inr (h.excluded_subset other hother))
  · intro other hother
    rcases (hmem other).1 hother with ⟨hshown, rfl⟩ | hother
    · exact Or.inr ⟨hsets, hchecked.verdict.1 hshown⟩
    · exact h.safe other hother
  · intro other hother
    by_cases hpending : other ∈ rest
    · exact Or.inl hpending
    · refine Or.inr ⟨fun hnot => (hmem other).2 ?_, fun hcritical => ?_⟩
      · rcases h.settled other hother with hold | hold
        · rw [hmissing other hold hpending] at hnot
          exact Or.inl ⟨hchecked.verdict.2 hnot, hmissing other hold hpending⟩
        · exact Or.inr (hold.1 hnot)
      · rw [hfindings]
        rcases h.settled other hother with hold | hold
        · rw [hmissing other hold hpending] at hcritical ⊢
          apply hchecked.condemned
          by_contra hshown
          exact hchecked.verdict.1 (by simpa using hshown) hcritical
        · obtain ⟨member, hmember, hsub⟩ := hold.2 hcritical
          exact ⟨member, hchecked.grown member hmember, hsub⟩

/-- A set out of turn has been checked: the level's own sets are where they were. -/
theorem check_other (h : work.Sound model config hazard fit level pending)
    (hchecked : CheckedRightly model config hazard fit work.findings after set safe)
    (hunmoved : next.heuristics = [] ∨ ∀ set, model.Valid set → fit set)
    (hqueue : ∀ set ∈ next.queue, model.Valid set → fit set)
    (hfindings : next.findings = after) (hsafe : next.safe = work.safe) :
    next.Sound model config hazard fit level pending := by
  refine ⟨by rw [hfindings]; exact hchecked.honest, hunmoved, hqueue, ?_, h.pending_subset, ?_, ?_,
    ?_⟩
  · rw [hfindings]
    exact fun other hother => hchecked.grown other (h.known_subset other hother)
  · rw [hsafe]
    exact h.excluded_subset
  · rw [hsafe]
    exact h.safe
  · intro other hother
    rw [hsafe, hfindings]
    refine (h.settled other hother).imp_right fun hold => ⟨hold.1, fun hcritical => ?_⟩
    obtain ⟨member, hmember, hsub⟩ := hold.2 hcritical
    exact ⟨member, hchecked.grown member hmember, hsub⟩

end LevelWork.Sound

namespace Inquiry

variable {heuristic : Heuristic η} {fuel cardinality : Nat} {work next : LevelWork η}
  {level : LevelStart}

/-- What a step on the queue does: it drops a suggestion that can never be activated, or it checks
the set and tells the heuristics. -/
theorem takeFirst_eq_ok {set : FaultSet} {queue : Queue}
    (h : inquiry.takeFirst heuristic cardinality work set queue = (next, .ok ())) :
    ((!work.unchecked.contains set && inquiry.excludes set) = true ∧
      next = { work with unchecked := work.unchecked.erase set, queue }) ∨
    ((!work.unchecked.contains set && inquiry.excludes set) = false ∧
      ∃ safe after heuristics later,
        inquiry.check cardinality work.findings set = .ok (safe, after) ∧
        heuristic.updateAll work.heuristics queue set safe = (heuristics, .ok later) ∧
        next = ⟨work.unchecked.erase set, later,
          if safe && work.unchecked.contains set then FaultSet.insertSorted set work.safe
          else work.safe, after, heuristics⟩) := by
  unfold takeFirst at h
  dsimp only at h
  split at h
  · rename_i hdrop
    cases h
    exact .inl ⟨hdrop, rfl⟩
  · rename_i hkeep
    split at h
    · cases h
    · rename_i safe after hcheck
      split at h
      · cases h
      · rename_i heuristics later hupdate
        cases h
        exact .inr ⟨Bool.eq_false_iff.2 hkeep, safe, after, heuristics, later, hcheck, hupdate,
          rfl⟩

theorem drain_eq_ok (h : inquiry.drain heuristic cardinality fuel work = (next, .ok ())) :
    (work.queue = [] ∧ next = work) ∨
    ∃ fewer set queue between, fuel = fewer + 1 ∧ work.queue = set :: queue ∧
      inquiry.takeFirst heuristic cardinality work set queue = (between, .ok ()) ∧
      inquiry.drain heuristic cardinality fewer between = (next, .ok ()) := by
  unfold drain at h
  split at h
  · rename_i hnil
    cases h
    exact .inl ⟨hnil, rfl⟩
  · cases h
  · rename_i set queue fewer hcons
    split at h
    · cases h
    · rename_i between hstep
      exact .inr ⟨fewer, set, queue, between, rfl, hcons, hstep, h⟩

theorem checkLevel_eq_ok {before after : Progress η} {sets excluded : List FaultSet}
    (h : inquiry.checkLevel heuristic fuel cardinality sets excluded before = (after, .ok ())) :
    ∃ heuristics queue drained done,
      heuristic.augmentAll before.heuristics cardinality sets = (heuristics, .ok queue) ∧
      inquiry.drain heuristic cardinality (fuel + queue.length)
        ⟨sets, queue, excluded, before.findings, heuristics⟩ = (drained, .ok ()) ∧
      inquiry.checkOpen cardinality drained = .ok done ∧
      after = ⟨done.safe, done.findings, done.heuristics, before.complete⟩ := by
  unfold checkLevel at h
  split at h
  · cases h
  · rename_i heuristics queue haugment
    dsimp only at h
    split at h
    · cases h
    · rename_i drained hdrain
      split at h
      · cases h
      · rename_i done hdone
        cases h
        exact ⟨heuristics, queue, drained, done, haugment, hdrain, hdone, rfl⟩

omit [Scalar α] in
theorem fit_of_inTurn {act : η → Queue → η × Except Misuse Queue} {heuristics later : List η}
    {queue queue' : Queue} (hunmoved : heuristics = [] ∨ ∀ set, model.Valid set → fit set)
    (hqueue : ∀ set ∈ queue, model.Valid set → fit set)
    (hact : Heuristic.inTurn act heuristics queue = (later, .ok queue')) :
    (later = [] ∨ ∀ set, model.Valid set → fit set) ∧
      ∀ set ∈ queue', model.Valid set → fit set := by
  rcases hunmoved with rfl | hall
  · cases hact
    exact ⟨Or.inl rfl, hqueue⟩
  · exact ⟨Or.inr hall, fun set _ => hall set⟩

theorem Describes.takeFirst_keeps (h : inquiry.Describes model config hazard)
    (hfit : model.MonotoneOn config hazard fit) (hsets : ∀ set ∈ level.sets, fit set)
    {set : FaultSet} {queue : Queue} (hcons : work.queue = set :: queue)
    (hwork : work.Sound model config hazard fit level work.unchecked)
    (hok : inquiry.takeFirst heuristic cardinality work set queue = (next, .ok ())) :
    next.Sound model config hazard fit level next.unchecked := by
  have hqueue : ∀ other ∈ queue, model.Valid other → fit other := by
    intro other hother
    exact hwork.queue other (by simp [hcons, hother])
  rcases takeFirst_eq_ok hok with
    ⟨hdrop, rfl⟩ | ⟨hkeep, safe, after, heuristics, later, hcheck, hupdate, rfl⟩
  · obtain ⟨hother, -⟩ := Bool.and_eq_true_iff.1 hdrop
    have hsame : work.unchecked.erase set = work.unchecked :=
      List.erase_of_not_mem (by simpa using hother)
    exact ⟨hwork.honest, hwork.unmoved, hqueue, hwork.known_subset,
      by simpa [hsame] using hwork.pending_subset, hwork.excluded_subset, hwork.safe,
      by simpa [hsame] using hwork.settled⟩
  · obtain ⟨hunmoved, hlater⟩ := fit_of_inTurn hwork.unmoved hqueue hupdate
    by_cases hcurrent : set ∈ work.unchecked
    · have hset := hsets set (hwork.pending_subset set hcurrent)
      have hchecked := h.check_rightly hfit hwork.honest hset hcheck
      refine hwork.check_pending hchecked hcurrent (fun other => List.mem_of_mem_erase) ?_
        hunmoved hlater rfl (by simp [hcurrent])
      intro other hother hgone
      by_contra hne
      exact hgone ((List.mem_erase_of_ne hne).2 hother)
    · have hvalid : model.Valid set := by
        rw [← h.excludes_eq_false]
        simpa [hcurrent] using hkeep
      have hset := hwork.queue set (by simp [hcons]) hvalid
      have hchecked := h.check_rightly hfit hwork.honest hset hcheck
      have hsame : work.unchecked.erase set = work.unchecked :=
        List.erase_of_not_mem hcurrent
      simp only [hsame]
      exact hwork.check_other hchecked hunmoved hlater rfl (by simp [hcurrent])

theorem Describes.drain_keeps (h : inquiry.Describes model config hazard)
    (hfit : model.MonotoneOn config hazard fit) (hsets : ∀ set ∈ level.sets, fit set)
    (hwork : work.Sound model config hazard fit level work.unchecked)
    (hok : inquiry.drain heuristic cardinality fuel work = (next, .ok ())) :
    next.Sound model config hazard fit level next.unchecked := by
  induction fuel generalizing work with
  | zero =>
      rcases drain_eq_ok hok with ⟨-, rfl⟩ | ⟨_, _, _, _, hfuel, -⟩
      · exact hwork
      · cases hfuel
  | succ fuel ih =>
      rcases drain_eq_ok hok with ⟨-, rfl⟩ | ⟨_, set, queue, between, ⟨⟩, hcons, hstep, hrest⟩
      · exact hwork
      · exact ih (h.takeFirst_keeps hfit hsets hcons hwork hstep) hrest

theorem Describes.checkOpen_step_keeps (h : inquiry.Describes model config hazard)
    (hfit : model.MonotoneOn config hazard fit) (hsets : ∀ set ∈ level.sets, fit set)
    {set : FaultSet} {rest : List FaultSet} {safe : Bool} {after : Findings}
    (hwork : work.Sound model config hazard fit level (set :: rest))
    (hcheck : inquiry.check cardinality work.findings set = .ok (safe, after)) :
    ({ work with
      findings := after
      safe := if safe then FaultSet.insertSorted set work.safe else work.safe } :
        LevelWork η).Sound model config hazard fit level rest := by
  have hpending : set ∈ set :: rest := by simp
  have hset := hsets set (hwork.pending_subset set hpending)
  have hchecked := h.check_rightly hfit hwork.honest hset hcheck
  refine hwork.check_pending hchecked hpending (fun other => List.mem_cons_of_mem set) ?_
    hwork.unmoved hwork.queue rfl rfl
  intro other hother hgone
  exact (List.mem_cons.1 hother).resolve_right hgone

theorem Describes.checkOpen_keeps (h : inquiry.Describes model config hazard)
    (hfit : model.MonotoneOn config hazard fit) (hsets : ∀ set ∈ level.sets, fit set)
    (hwork : work.Sound model config hazard fit level work.unchecked)
    (hok : inquiry.checkOpen cardinality work = .ok next) :
    next.Sound model config hazard fit level [] := by
  unfold checkOpen at hok
  refine foldlM_keeps (motive := fun rest work =>
    work.Sound model config hazard fit level rest) ?_ hwork hok
  intro set rest work next hwork hstep
  obtain ⟨⟨safe, after⟩, hcheck, hpure⟩ := bind_eq_ok.1 hstep
  cases hpure
  exact h.checkOpen_step_keeps hfit hsets hwork hcheck

structure LevelDone (model : Model α) (config : AnalysisConfig) (hazard : Formula)
    (fit : FaultSet → Prop) (level : LevelStart) (before after : Progress η) : Prop where
  honest : after.findings.Honest model config hazard fit
  unmoved : after.heuristics = [] ∨ ∀ set, model.Valid set → fit set
  complete_eq : after.complete = before.complete
  known_subset : ∀ set ∈ level.known, set ∈ after.findings.critical.toList
  mem_safe : ∀ set, set ∈ after.safe ↔
    set ∈ level.excluded ∨ set ∈ level.sets ∧ ¬model.Critical config hazard set
  condemned : ∀ set ∈ level.sets, model.Critical config hazard set → after.findings.Condemn set

variable {before after : Progress η}

theorem sound_of_augmentAll (hsets : ∀ set ∈ level.sets, fit set)
    (hknown : level.known = before.findings.critical.toList)
    (hhonest : before.findings.Honest model config hazard fit)
    (hunmoved : before.heuristics = [] ∨ ∀ set, model.Valid set → fit set)
    {heuristics : List η} {queue : Queue}
    (haugment : heuristic.augmentAll before.heuristics cardinality level.sets =
      (heuristics, .ok queue)) :
    (LevelWork.mk level.sets queue level.excluded before.findings heuristics).Sound model config
      hazard fit level level.sets := by
  obtain ⟨hunmoved', hqueue⟩ :=
    fit_of_inTurn hunmoved (fun set hset _ => hsets set hset) haugment
  exact ⟨hhonest, hunmoved', hqueue, fun _ hset => hknown ▸ hset, fun _ hset => hset,
    fun _ hset => hset, fun _ hset => Or.inl hset, fun _ hset => Or.inl hset⟩

theorem Describes.checkLevel_done (h : inquiry.Describes model config hazard)
    (hfit : model.MonotoneOn config hazard fit) (hsets : ∀ set ∈ level.sets, fit set)
    (hknown : level.known = before.findings.critical.toList)
    (hhonest : before.findings.Honest model config hazard fit)
    (hunmoved : before.heuristics = [] ∨ ∀ set, model.Valid set → fit set)
    (hok : inquiry.checkLevel heuristic fuel cardinality level.sets level.excluded before =
      (after, .ok ())) :
    LevelDone model config hazard fit level before after := by
  obtain ⟨heuristics, queue, drained, done, haugment, hdrain, hdone, rfl⟩ := checkLevel_eq_ok hok
  have hstart := sound_of_augmentAll hsets hknown hhonest hunmoved haugment
  have hdrained := h.drain_keeps hfit hsets hstart hdrain
  have hend := h.checkOpen_keeps hfit hsets hdrained hdone
  have hsettled : ∀ set ∈ level.sets,
      (¬model.Critical config hazard set → set ∈ done.safe) ∧
        (model.Critical config hazard set → done.findings.Condemn set) :=
    fun set hset => (hend.settled set hset).resolve_left (by simp)
  refine ⟨hend.honest, hend.unmoved, rfl, hend.known_subset, fun set => ⟨hend.safe set, ?_⟩,
    fun set hset => (hsettled set hset).2⟩
  rintro (hset | ⟨hset, hnot⟩)
  · exact hend.excluded_subset set hset
  · exact (hsettled set hset).1 hnot

/-! ## The climb -/

def Wanted (config : AnalysisConfig) (set : FaultSet) : Prop :=
  ∀ greatest, config.maxCardinality = some greatest → set.card ≤ greatest

theorem not_wanted_iff {config : AnalysisConfig} {set : FaultSet} :
    ¬Wanted config set ↔ config.maxCardinality.any (· < set.card) = true := by
  rw [Option.any_eq_true]
  simp [Wanted]

/-- An analysis before the level of the given cardinality, all smaller sets being decided. -/
structure Climbed (model : Model α) (config : AnalysisConfig) (hazard : Formula)
    (fit : FaultSet → Prop) (cardinality : Nat) (progress : Progress η) : Prop where
  honest : progress.findings.Honest model config hazard fit
  unmoved : progress.heuristics = [] ∨ ∀ set, model.Valid set → fit set
  complete : progress.complete = true
  mem_safe : ∀ set, set ∈ progress.safe ↔
    set.card + 1 = cardinality ∧ set.isSubset (.below model.faults.length) = true ∧
      FaultSet.Clear (model.Critical config hazard) set
  found : ∀ set, model.MinimalCritical config hazard set → set.card < cardinality →
    set ∈ progress.findings.critical.toList
  wanted : ∀ set, model.Valid set → FaultSet.ClearBelow (model.Critical config hazard) set →
    set.card < cardinality → Wanted config set

structure Finished (model : Model α) (config : AnalysisConfig) (hazard : Formula)
    (fit : FaultSet → Prop) (progress : Progress η) : Prop where
  honest : progress.findings.Honest model config hazard fit
  found : ∀ set, model.MinimalCritical config hazard set → Wanted config set →
    set ∈ progress.findings.critical.toList
  incomplete_iff : progress.complete = false ↔ ∃ set, model.Valid set ∧
    FaultSet.ClearBelow (model.Critical config hazard) set ∧ ¬Wanted config set

def levelStart (inquiry : Inquiry α) (cardinality : Nat) (progress : Progress η) : LevelStart :=
  let level := FaultSet.level cardinality inquiry.model.faults.length progress.safe
  { sets := level.filter fun set => !inquiry.excludes set
    excluded := level.filter inquiry.excludes
    known := progress.findings.critical.toList }

theorem Climbed.mem_sets (h : inquiry.Describes model config hazard)
    (hbefore : Climbed model config hazard fit cardinality before) {set : FaultSet} :
    set ∈ (inquiry.levelStart cardinality before).sets ↔
      model.Valid set ∧ set.card = cardinality ∧
        FaultSet.ClearBelow (model.Critical config hazard) set := by
  simp only [levelStart, List.mem_filter, Bool.not_eq_true', h.excludes_eq_false, h.model_eq]
  rw [FaultSet.mem_level hbefore.mem_safe]
  constructor
  · rintro ⟨⟨hcard, -, hclear⟩, hvalid⟩
    exact ⟨hvalid, hcard, hclear⟩
  · rintro ⟨hvalid, hcard, hclear⟩
    exact ⟨⟨hcard, hvalid.isSubset_below, hclear⟩, hvalid⟩

theorem Climbed.mem_excluded (h : inquiry.Describes model config hazard)
    (hbefore : Climbed model config hazard fit cardinality before) {set : FaultSet} :
    set ∈ (inquiry.levelStart cardinality before).excluded ↔
      ¬model.Valid set ∧ set.card = cardinality ∧
        set.isSubset (.below model.faults.length) = true ∧
          FaultSet.ClearBelow (model.Critical config hazard) set := by
  simp only [levelStart, List.mem_filter, ← Bool.not_eq_false (inquiry.excludes set),
    h.excludes_eq_false, h.model_eq]
  rw [FaultSet.mem_level hbefore.mem_safe, and_comm]

/-- A level that is done leads to the next one. The sets that can never be activated are carried
along, since larger sets may well be valid. -/
theorem Climbed.succ (h : inquiry.Describes model config hazard)
    (hbefore : Climbed model config hazard fit cardinality before)
    (hwanted : ∀ set ∈ (inquiry.levelStart cardinality before).sets, Wanted config set)
    (hdone : LevelDone model config hazard fit (inquiry.levelStart cardinality before)
      before after) :
    Climbed model config hazard fit (cardinality + 1) after := by
  refine ⟨hdone.honest, hdone.unmoved, ?_, fun set => ?_, fun set hset hcard => ?_,
    fun set hvalid hclear hcard => ?_⟩
  · rw [hdone.complete_eq]
    exact hbefore.complete
  · rw [hdone.mem_safe, hbefore.mem_sets h, hbefore.mem_excluded h, FaultSet.clear_iff]
    constructor
    · rintro (⟨hinvalid, hcard, hbelow, hclear⟩ | ⟨⟨hvalid, hcard, hclear⟩, hnot⟩)
      · exact ⟨by omega, hbelow, hclear, fun hcritical => hinvalid hcritical.1⟩
      · exact ⟨by omega, hvalid.isSubset_below, hclear, hnot⟩
    · rintro ⟨hcard, hbelow, hclear, hnot⟩
      by_cases hvalid : model.Valid set
      · exact Or.inr ⟨⟨hvalid, by omega, hclear⟩, hnot⟩
      · exact Or.inl ⟨hvalid, by omega, hbelow, hclear⟩
  · by_cases hold : set.card < cardinality
    · exact hdone.known_subset set (hbefore.found set hset hold)
    · have hmember := (hbefore.mem_sets h).2 ⟨hset.1.1, by omega, hset.2⟩
      obtain ⟨member, hmember, hsub⟩ := hdone.condemned set hmember hset.1
      have hcritical := (hdone.honest.critical member hmember).2
      rwa [← hset.2 member hsub hcritical]
  · by_cases hold : set.card < cardinality
    · exact hbefore.wanted set hvalid hclear hold
    · exact hwanted set ((hbefore.mem_sets h).2 ⟨hvalid, by omega, hclear⟩)

theorem Climbed.finished_of_last
    (hbefore : Climbed model config hazard fit (model.faults.length + 1) before) :
    Finished model config hazard fit before := by
  have hcard : ∀ set, model.Valid set → set.card < model.faults.length + 1 :=
    fun set hset => Nat.lt_succ_of_le (IndexSet.card_le_of_isSubset_below hset.isSubset_below)
  refine ⟨hbefore.honest, fun set hset _ => hbefore.found set hset (hcard set hset.1.1), ?_⟩
  rw [hbefore.complete]
  constructor
  · exact fun hfalse => absurd hfalse (by simp)
  · rintro ⟨set, hvalid, hclear, hunwanted⟩
    exact absurd (hbefore.wanted set hvalid hclear (hcard set hvalid)) hunwanted

theorem Climbed.finished_of_cut (h : inquiry.Describes model config hazard)
    (hbefore : Climbed model config hazard fit cardinality before)
    (hsets : (inquiry.levelStart cardinality before).sets ≠ [])
    (hcut : config.maxCardinality.any (· < cardinality) = true) :
    Finished model config hazard fit { before with complete := false } := by
  obtain ⟨greatest, hgreatest, hlt⟩ := (Option.any_eq_true _ _).1 hcut
  have hlt' : greatest < cardinality := by simpa using hlt
  refine ⟨hbefore.honest, fun set hset hwanted => ?_, fun _ => ?_, fun _ => rfl⟩
  · have hcard := hwanted greatest hgreatest
    exact hbefore.found set hset (by omega)
  · obtain ⟨set, hset⟩ := List.exists_mem_of_ne_nil _ hsets
    obtain ⟨hvalid, rfl, hclear⟩ := (hbefore.mem_sets h).1 hset
    exact ⟨set, hvalid, hclear, not_wanted_iff.2 hcut⟩

theorem climb_cons_eq (greatest : Option Nat) (rest : List Nat) :
    inquiry.climb heuristic fuel greatest (cardinality :: rest) before =
      if (inquiry.levelStart cardinality before).sets.isEmpty then
        inquiry.climb heuristic fuel greatest rest
          { before with safe := (inquiry.levelStart cardinality before).excluded }
      else if greatest.any (· < cardinality) then ({ before with complete := false }, .ok ())
      else
        match inquiry.checkLevel heuristic fuel cardinality
            (inquiry.levelStart cardinality before).sets
            (inquiry.levelStart cardinality before).excluded before with
        | (progress, .error error) => (progress, .error error)
        | (progress, .ok ()) => inquiry.climb heuristic fuel greatest rest progress :=
  rfl

/-- What a climb does at one level: it goes on to the next level, ends because larger sets are not
wanted, or meets an error in the work on the level. -/
theorem Describes.climb_cons (h : inquiry.Describes model config hazard)
    (hfit : model.MonotoneOn config hazard fit)
    (hlevel : ∀ set, model.Valid set → FaultSet.ClearBelow (model.Critical config hazard) set →
      Wanted config set → fit set)
    (hbefore : Climbed model config hazard fit cardinality before) (rest : List Nat) :
    (∃ next, Climbed model config hazard fit (cardinality + 1) next ∧
      inquiry.climb heuristic fuel config.maxCardinality (cardinality :: rest) before =
        inquiry.climb heuristic fuel config.maxCardinality rest next) ∨
    (∃ last, Finished model config hazard fit last ∧
      inquiry.climb heuristic fuel config.maxCardinality (cardinality :: rest) before =
        (last, .ok ())) ∨
    ∃ last error, (∀ set ∈ (inquiry.levelStart cardinality before).sets, fit set) ∧
      inquiry.checkLevel heuristic fuel cardinality (inquiry.levelStart cardinality before).sets
        (inquiry.levelStart cardinality before).excluded before = (last, .error error) ∧
      inquiry.climb heuristic fuel config.maxCardinality (cardinality :: rest) before =
        (last, .error error) := by
  rw [climb_cons_eq]
  split
  · rename_i hempty
    have hnone : (inquiry.levelStart cardinality before).sets = [] := List.isEmpty_iff.1 hempty
    refine Or.inl ⟨_, hbefore.succ h (by simp [hnone]) ?_, rfl⟩
    refine ⟨hbefore.honest, hbefore.unmoved, rfl, fun _ hset => hset, fun set => ?_,
      by simp [hnone]⟩
    simp [hnone]
  · rename_i hsome
    have hsets : (inquiry.levelStart cardinality before).sets ≠ [] := by simpa using hsome
    split
    · rename_i hcut
      exact Or.inr (Or.inl ⟨_, hbefore.finished_of_cut h hsets hcut, rfl⟩)
    · rename_i hcut
      have hwanted : ∀ set ∈ (inquiry.levelStart cardinality before).sets,
          Wanted config set := by
        intro set hset
        obtain ⟨-, rfl, -⟩ := (hbefore.mem_sets h).1 hset
        by_contra hunwanted
        exact hcut (not_wanted_iff.1 hunwanted)
      have hfits : ∀ set ∈ (inquiry.levelStart cardinality before).sets, fit set := by
        intro set hset
        obtain ⟨hvalid, -, hclear⟩ := (hbefore.mem_sets h).1 hset
        exact hlevel set hvalid hclear (hwanted set hset)
      split
      · rename_i last error hfailed
        exact Or.inr (Or.inr ⟨last, error, hfits, hfailed, rfl⟩)
      · rename_i next hok
        have hdone := h.checkLevel_done hfit hfits rfl hbefore.honest hbefore.unmoved hok
        exact Or.inl ⟨next, hbefore.succ h hwanted hdone, rfl⟩

theorem Describes.climb_finished (h : inquiry.Describes model config hazard)
    (hfit : model.MonotoneOn config hazard fit)
    (hlevel : ∀ set, model.Valid set → FaultSet.ClearBelow (model.Critical config hazard) set →
      Wanted config set → fit set)
    {levels : Nat} (hend : cardinality + levels = model.faults.length + 1)
    (hbefore : Climbed model config hazard fit cardinality before)
    (hok : inquiry.climb heuristic fuel config.maxCardinality (List.range' cardinality levels)
      before = (after, .ok ())) :
    Finished model config hazard fit after := by
  induction levels generalizing cardinality before with
  | zero =>
      cases hok
      rw [show cardinality = model.faults.length + 1 by omega] at hbefore
      exact hbefore.finished_of_last
  | succ levels ih =>
      rw [List.range'_succ] at hok
      rcases h.climb_cons hfit hlevel hbefore (List.range' (cardinality + 1) levels) with
        ⟨next, hnext, heq⟩ | ⟨last, hlast, heq⟩ | ⟨last, error, -, -, heq⟩
      · exact ih (by omega) hnext (heq ▸ hok)
      · rw [heq] at hok
        cases hok
        exact hlast
      · rw [heq] at hok
        cases hok

/-! ## Runs without heuristics

A queue that nobody adds to is worked off within its own length.
-/

omit [Scalar α] in
theorem orMisuse_ne_unfinished {β : Type} [Scalar α] (result : Except Misuse β) :
    (orMisuse result : Except (AnalysisError α) β) ≠ .error .unfinished := by
  cases result with
  | error misuse => exact nofun
  | ok value => exact nofun

theorem explore_ne_unfinished (findings : Findings) (set : FaultSet) (mode : Activation) :
    inquiry.explore findings set mode ≠ .error .unfinished := by
  rw [explore_eq]
  unfold conclude
  split
  · split
    · simp
    · intro herror
      rcases bind_eq_error.1 herror with hfirst | ⟨_, -, hrest⟩
      · exact orMisuse_ne_unfinished _ hfirst
      · cases hrest
  · intro herror
    rcases bind_eq_error.1 herror with hfirst | ⟨_, -, hrest⟩
    · exact orMisuse_ne_unfinished _ hfirst
    · cases hrest
  · simp

theorem check_ne_unfinished (cardinality : Nat) (findings : Findings) (set : FaultSet) :
    inquiry.check cardinality findings set ≠ .error .unfinished := by
  rw [check_eq]
  dsimp only
  split
  · simp
  · intro herror
    rcases bind_eq_error.1 herror with hfirst | ⟨⟨safe, after⟩, -, hrest⟩
    · rw [exploreModes_eq] at hfirst
      split at hfirst
      · exact explore_ne_unfinished _ _ _ hfirst
      · exact explore_ne_unfinished _ _ _ hfirst
      · rcases bind_eq_error.1 hfirst with hforced | ⟨⟨forcedSafe, between⟩, -, hrest⟩
        · exact explore_ne_unfinished _ _ _ hforced
        · cases forcedSafe with
          | true => exact explore_ne_unfinished _ _ _ hrest
          | false => cases hrest
    · cases safe with
      | false => cases hrest
      | true =>
          rcases bind_eq_error.1 hrest with hadd | ⟨_, -, hpure⟩
          · exact orMisuse_ne_unfinished _ hadd
          · cases hpure

theorem takeFirst_quiet {set : FaultSet} {queue : Queue} (hquiet : work.heuristics = [])
    {outcome : Except (AnalysisError α) Unit}
    (hstep : inquiry.takeFirst heuristic cardinality work set queue = (next, outcome)) :
    next.heuristics = [] ∧ next.queue = queue ∧ outcome ≠ .error .unfinished := by
  unfold takeFirst at hstep
  dsimp only at hstep
  split at hstep
  · cases hstep
    exact ⟨hquiet, rfl, by simp⟩
  · split at hstep
    · rename_i error hfailed
      cases hstep
      refine ⟨hquiet, rfl, ?_⟩
      rintro ⟨⟩
      exact check_ne_unfinished _ _ _ hfailed
    · rw [hquiet] at hstep
      cases hstep
      exact ⟨rfl, rfl, by simp⟩

theorem drain_quiet (hquiet : work.heuristics = []) (hfuel : work.queue.length ≤ fuel) :
    (inquiry.drain heuristic cardinality fuel work).1.heuristics = [] ∧
      (inquiry.drain heuristic cardinality fuel work).2 ≠ .error .unfinished := by
  induction fuel generalizing work with
  | zero =>
      have hnil : work.queue = [] := List.eq_nil_of_length_eq_zero (by omega)
      unfold drain
      rw [hnil]
      exact ⟨hquiet, by simp⟩
  | succ fuel ih =>
      unfold drain
      split
      · exact ⟨hquiet, by simp⟩
      · contradiction
      · rename_i set queue fuel' hcons hfuel'
        cases hfuel'
        split
        · rename_i next error hstep
          obtain ⟨hnext, -, hne⟩ := takeFirst_quiet hquiet hstep
          exact ⟨hnext, by simpa using hne⟩
        · rename_i next hstep
          obtain ⟨hnext, hqueue, -⟩ := takeFirst_quiet hquiet hstep
          rw [hcons, List.length_cons] at hfuel
          exact ih hnext (by rw [hqueue]; omega)

theorem heuristics_of_checkOpen (hok : inquiry.checkOpen cardinality work = .ok next) :
    next.heuristics = work.heuristics := by
  refine foldlM_keeps (motive := fun _ (later : LevelWork η) =>
    later.heuristics = work.heuristics) ?_ rfl hok
  intro set rest state later hstate hstep
  obtain ⟨_, -, hpure⟩ := bind_eq_ok.1 hstep
  cases hpure
  exact hstate

theorem checkOpen_ne_unfinished : inquiry.checkOpen cardinality work ≠ .error .unfinished := by
  apply foldlM_ne_error
  intro state set herror
  rcases bind_eq_error.1 herror with hcheck | ⟨_, -, hpure⟩
  · exact check_ne_unfinished _ _ _ hcheck
  · cases hpure

theorem checkLevel_quiet (hquiet : before.heuristics = []) {sets excluded : List FaultSet}
    {outcome : Except (AnalysisError α) Unit}
    (hlevel : inquiry.checkLevel heuristic fuel cardinality sets excluded before =
      (after, outcome)) :
    after.heuristics = [] ∧ outcome ≠ .error .unfinished := by
  have haugment : heuristic.augmentAll before.heuristics cardinality sets = ([], .ok sets) := by
    rw [hquiet]
    rfl
  unfold checkLevel at hlevel
  rw [haugment] at hlevel
  dsimp only at hlevel
  have hdrain : ∀ work : LevelWork η, work.heuristics = [] → work.queue = sets →
      (inquiry.drain heuristic cardinality (fuel + sets.length) work).1.heuristics = [] ∧
        (inquiry.drain heuristic cardinality (fuel + sets.length) work).2 ≠
          .error .unfinished :=
    fun work hwork hqueue => drain_quiet hwork (by rw [hqueue]; omega)
  specialize hdrain ⟨sets, sets, excluded, before.findings, []⟩ rfl rfl
  split at hlevel
  · rename_i work error hfailed
    rw [hfailed] at hdrain
    cases hlevel
    exact hdrain
  · rename_i work hdone
    rw [hdone] at hdrain
    split at hlevel
    · rename_i error hfailed
      cases hlevel
      refine ⟨hdrain.1, ?_⟩
      rintro ⟨⟩
      exact checkOpen_ne_unfinished hfailed
    · rename_i last hlast
      cases hlevel
      exact ⟨(heuristics_of_checkOpen hlast).trans hdrain.1, by simp⟩

theorem climb_quiet (hquiet : before.heuristics = []) (greatest : Option Nat)
    (levels : List Nat) :
    (inquiry.climb heuristic fuel greatest levels before).2 ≠ .error .unfinished := by
  induction levels generalizing before with
  | nil => simp [climb]
  | cons cardinality rest ih =>
      rw [climb]
      split
      · exact ih hquiet
      · split
        · simp
        · split
          · rename_i hlevel
            simpa using (checkLevel_quiet hquiet hlevel).2
          · rename_i hlevel
            exact ih (checkLevel_quiet hquiet hlevel).1

/-! ## What can end a run

If every valid set has a verdict and the heuristics never ask for what cannot be done, then only a
queue that is not worked off in time ends a run early.
-/

/-- The run came to its end, or heuristics added too many sets to a queue. -/
def Unhindered {β : Type} (outcome : β × Except (AnalysisError α) Unit) : Prop :=
  outcome.2 = .ok () ∨ outcome.2 = .error .unfinished

structure Total (heuristic : Heuristic η) : Prop where
  augment : ∀ state cardinality queue, ∃ state' queue',
    heuristic.augment state cardinality queue = (state', .ok queue')
  update : ∀ state queue set safe, ∃ state' queue',
    heuristic.update state queue set safe = (state', .ok queue')

omit [Scalar α] in
theorem inTurn_total {act : η → Queue → η × Except Misuse Queue}
    (hact : ∀ state queue, ∃ state' queue', act state queue = (state', .ok queue'))
    (states : List η) (queue : Queue) :
    ∃ states' queue', Heuristic.inTurn act states queue = (states', .ok queue') := by
  induction states generalizing queue with
  | nil => exact ⟨[], queue, rfl⟩
  | cons state rest ih =>
      obtain ⟨state', between, hstate⟩ := hact state queue
      obtain ⟨rest', queue', hrest⟩ := ih between
      refine ⟨state' :: rest', queue', ?_⟩
      rw [Heuristic.inTurn, hstate]
      simp [hrest]

variable (hverdict : ∀ set, model.Valid set → ∃ safe, model.safe? config hazard set = some safe)
include hverdict

theorem Describes.takeFirst_succeeds (h : inquiry.Describes model config hazard)
    (hfit : model.MonotoneOn config hazard fit) (hsets : ∀ set ∈ level.sets, fit set)
    (htotal : Total heuristic) {set : FaultSet} {queue : Queue}
    (hwork : work.Sound model config hazard fit level work.unchecked) :
    ∃ next, inquiry.takeFirst heuristic cardinality work set queue = (next, .ok ()) := by
  unfold takeFirst
  dsimp only
  split
  · exact ⟨_, rfl⟩
  · rename_i hkeep
    have hvalid : model.Valid set := by
      by_cases hcurrent : set ∈ work.unchecked
      · exact hfit.valid set (hsets set (hwork.pending_subset set hcurrent))
      · rw [← h.excludes_eq_false]
        simpa [hcurrent] using hkeep
    obtain ⟨safe, after, hcheck⟩ :=
      h.check_succeeds hwork.honest hvalid (hverdict set hvalid) cardinality
    rw [hcheck]
    dsimp only
    obtain ⟨heuristics, queue', hupdate⟩ := inTurn_total
      (fun state queue => htotal.update state queue set safe) work.heuristics queue
    have hupdate' : heuristic.updateAll work.heuristics queue set safe =
        (heuristics, .ok queue') := hupdate
    rw [hupdate']
    exact ⟨_, rfl⟩

theorem Describes.drain_unhindered (h : inquiry.Describes model config hazard)
    (hfit : model.MonotoneOn config hazard fit) (hsets : ∀ set ∈ level.sets, fit set)
    (htotal : Total heuristic)
    (hwork : work.Sound model config hazard fit level work.unchecked)
    (fuel cardinality : Nat) :
    Unhindered (inquiry.drain heuristic cardinality fuel work) := by
  induction fuel generalizing work with
  | zero =>
      unfold drain
      split
      · exact Or.inl rfl
      · exact Or.inr rfl
      · contradiction
  | succ fuel ih =>
      unfold drain
      split
      · exact Or.inl rfl
      · contradiction
      · rename_i set queue fuel' hcons hfuel
        cases hfuel
        obtain ⟨next, hnext⟩ := h.takeFirst_succeeds hverdict hfit hsets htotal hwork
        rw [hnext]
        exact ih (h.takeFirst_keeps hfit hsets hcons hwork hnext)

theorem Describes.checkOpen_succeeds (h : inquiry.Describes model config hazard)
    (hfit : model.MonotoneOn config hazard fit) (hsets : ∀ set ∈ level.sets, fit set)
    (hwork : work.Sound model config hazard fit level work.unchecked) (cardinality : Nat) :
    ∃ next, inquiry.checkOpen cardinality work = .ok next := by
  obtain ⟨next, hnext, -⟩ : ∃ next, inquiry.checkOpen cardinality work = .ok next ∧
      next.Sound model config hazard fit level [] := by
    refine foldlM_succeeds (motive := fun rest (work : LevelWork η) =>
      work.Sound model config hazard fit level rest) ?_ hwork
    intro set rest work hwork
    have hset := hfit.valid set (hsets set (hwork.pending_subset set (by simp)))
    obtain ⟨safe, after, hcheck⟩ :=
      h.check_succeeds hwork.honest hset (hverdict set hset) cardinality
    exact ⟨_, bind_eq_ok.2 ⟨_, hcheck, rfl⟩, h.checkOpen_step_keeps hfit hsets hwork hcheck⟩
  exact ⟨next, hnext⟩

theorem Describes.checkLevel_unhindered (h : inquiry.Describes model config hazard)
    (hfit : model.MonotoneOn config hazard fit) (hsets : ∀ set ∈ level.sets, fit set)
    (htotal : Total heuristic) (hknown : level.known = before.findings.critical.toList)
    (hhonest : before.findings.Honest model config hazard fit)
    (hunmoved : before.heuristics = [] ∨ ∀ set, model.Valid set → fit set)
    (fuel cardinality : Nat) :
    Unhindered
      (inquiry.checkLevel heuristic fuel cardinality level.sets level.excluded before) := by
  obtain ⟨heuristics, queue, haugment⟩ := inTurn_total
    (fun state queue => htotal.augment state cardinality queue) before.heuristics level.sets
  have haugment' : heuristic.augmentAll before.heuristics cardinality level.sets =
      (heuristics, .ok queue) := haugment
  have hstart := sound_of_augmentAll hsets hknown hhonest hunmoved haugment'
  unfold checkLevel
  rw [haugment']
  dsimp only
  have hdrain := h.drain_unhindered hverdict hfit hsets htotal hstart (fuel + queue.length)
    cardinality
  split
  · rename_i work error hfailed
    rw [hfailed] at hdrain
    exact hdrain
  · rename_i drained hdrained
    obtain ⟨last, hlast⟩ := h.checkOpen_succeeds hverdict hfit hsets
      (h.drain_keeps hfit hsets hstart hdrained) cardinality
    rw [hlast]
    exact Or.inl rfl

theorem Describes.climb_unhindered (h : inquiry.Describes model config hazard)
    (hfit : model.MonotoneOn config hazard fit)
    (hlevel : ∀ set, model.Valid set → FaultSet.ClearBelow (model.Critical config hazard) set →
      Wanted config set → fit set)
    (htotal : Total heuristic) {levels : Nat}
    (hbefore : Climbed model config hazard fit cardinality before) :
    Unhindered (inquiry.climb heuristic fuel config.maxCardinality
      (List.range' cardinality levels) before) := by
  induction levels generalizing cardinality before with
  | zero => exact Or.inl rfl
  | succ levels ih =>
      rw [List.range'_succ]
      rcases h.climb_cons hfit hlevel hbefore (List.range' (cardinality + 1) levels) with
        ⟨next, hnext, heq⟩ | ⟨last, -, heq⟩ | ⟨last, error, hfits, hfailed, heq⟩
      · rw [heq]
        exact ih hnext
      · rw [heq]
        exact Or.inl rfl
      · have hunhindered := h.checkLevel_unhindered hverdict hfit hfits htotal rfl hbefore.honest
          hbefore.unmoved fuel cardinality
        rw [hfailed] at hunhindered
        rw [heq]
        exact hunhindered

end Inquiry

theorem Model.exists_climb {heuristic : Heuristic η} {heuristics : List η} {fuel : Nat}
    {results : AnalysisResults α}
    (hok : (model.analyze config hazard heuristic heuristics fuel).2 = .ok results) :
    ∃ (inquiry : Inquiry α) (progress : Progress η), model.inquire config hazard = .ok inquiry ∧
      inquiry.climb heuristic fuel config.maxCardinality (List.range (model.faults.length + 1))
        { safe := [], findings := .start model.faults.length, heuristics } = (progress, .ok ()) ∧
      results = progress.findings.results inquiry progress.complete heuristics.length := by
  unfold analyze at hok
  split at hok
  · cases hok
  · next inquiry hinquiry =>
    dsimp only at hok
    split at hok
    · cases hok
    · next progress hclimb =>
      cases hok
      exact ⟨inquiry, progress, hinquiry, hclimb, rfl⟩

end Hazard
