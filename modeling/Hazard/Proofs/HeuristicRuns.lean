import Mathlib.Algebra.Order.BigOperators.Group.List
import Mathlib.Algebra.Order.Group.Nat
import Hazard.Proofs.AnalysisRun
/-!
# What an analysis does with its heuristics

An analysis hands the states of its heuristics on and sees only what they do to the queue. So
heuristics can keep a record of their consultations without changing the run, and what every
consultation keeps holds of the heuristics that come back. Fuel matters only to a run that uses it
up, which heuristics of bounded budgets never do.
-/

namespace Hazard

variable {α η ζ ι : Type}

/-! ## Heuristics that show less of their state -/

namespace Heuristic

/-- The coarse heuristic does what the fine one does, on a view of its state. -/
structure Views (view : ζ → η) (fine : Heuristic ζ) (coarse : Heuristic η) : Prop where
  augment : ∀ state cardinality queue,
    coarse.augment (view state) cardinality queue =
      (fine.augment state cardinality queue).map view id
  update : ∀ state queue set safe,
    coarse.update (view state) queue set safe = (fine.update state queue set safe).map view id

theorem inTurn_map {view : ζ → η} {fine : ζ → Queue → ζ × Except Misuse Queue}
    {coarse : η → Queue → η × Except Misuse Queue}
    (h : ∀ state queue, coarse (view state) queue = (fine state queue).map view id)
    (states : List ζ) (queue : Queue) :
    inTurn coarse (states.map view) queue = (inTurn fine states queue).map (List.map view) id := by
  induction states generalizing queue with
  | nil => rfl
  | cons state rest ih =>
      rw [List.map_cons, inTurn, inTurn, h]
      obtain ⟨next, outcome⟩ := fine state queue
      cases outcome with
      | error misuse => rfl
      | ok later =>
          simp only [Prod.map, id_eq, ih]
          rfl

end Heuristic

def LevelWork.map (view : ζ → η) (work : LevelWork ζ) : LevelWork η :=
  ⟨work.unchecked, work.queue, work.safe, work.findings, work.heuristics.map view⟩

def Progress.map (view : ζ → η) (progress : Progress ζ) : Progress η :=
  ⟨progress.safe, progress.findings, progress.heuristics.map view, progress.complete⟩

variable [Scalar α]

namespace Inquiry

variable {inquiry : Inquiry α} {view : ζ → η} {fine : Heuristic ζ} {coarse : Heuristic η}
  {cardinality : Nat}

theorem takeFirst_map (h : fine.Views view coarse) (work : LevelWork ζ) (set : FaultSet)
    (queue : Queue) :
    inquiry.takeFirst coarse cardinality (work.map view) set queue =
      (inquiry.takeFirst fine cardinality work set queue).map (LevelWork.map view) id := by
  have hupdate : ∀ safe, coarse.updateAll (work.heuristics.map view) queue set safe =
      (fine.updateAll work.heuristics queue set safe).map (List.map view) id :=
    fun safe => Heuristic.inTurn_map (fun state queue => h.update state queue set safe) _ _
  unfold takeFirst
  dsimp only [LevelWork.map]
  split
  · rfl
  · cases inquiry.check cardinality work.findings set with
    | error error => rfl
    | ok verdict =>
        obtain ⟨safe, findings⟩ := verdict
        dsimp only
        rw [hupdate]
        obtain ⟨heuristics, outcome⟩ := fine.updateAll work.heuristics queue set safe
        cases outcome with
        | error misuse => rfl
        | ok later => rfl

theorem drain_nil (heuristic : Heuristic η) (cardinality fuel : Nat) {work : LevelWork η}
    (hqueue : work.queue = []) :
    inquiry.drain heuristic cardinality fuel work = (work, .ok ()) := by
  unfold drain
  rw [hqueue]

theorem drain_zero (heuristic : Heuristic η) (cardinality : Nat) {work : LevelWork η}
    {set : FaultSet} {queue : Queue} (hqueue : work.queue = set :: queue) :
    inquiry.drain heuristic cardinality 0 work = (work, .error .unfinished) := by
  unfold drain
  rw [hqueue]

theorem drain_of_error (fuel : Nat) {heuristic : Heuristic η} {work next : LevelWork η}
    {set : FaultSet} {queue : Queue} {error : AnalysisError α} (hqueue : work.queue = set :: queue)
    (hstep : inquiry.takeFirst heuristic cardinality work set queue = (next, .error error)) :
    inquiry.drain heuristic cardinality (fuel + 1) work = (next, .error error) := by
  rw [drain.eq_def]
  simp only [hqueue, hstep]

theorem drain_of_ok (fuel : Nat) {heuristic : Heuristic η} {work next : LevelWork η}
    {set : FaultSet} {queue : Queue} (hqueue : work.queue = set :: queue)
    (hstep : inquiry.takeFirst heuristic cardinality work set queue = (next, .ok ())) :
    inquiry.drain heuristic cardinality (fuel + 1) work =
      inquiry.drain heuristic cardinality fuel next := by
  rw [drain.eq_def]
  simp only [hqueue, hstep]

theorem drain_map (h : fine.Views view coarse) (fuel : Nat) (work : LevelWork ζ) :
    inquiry.drain coarse cardinality fuel (work.map view) =
      (inquiry.drain fine cardinality fuel work).map (LevelWork.map view) id := by
  induction fuel generalizing work with
  | zero =>
      have hsame : (work.map view).queue = work.queue := rfl
      cases hqueue : work.queue with
      | nil =>
          rw [drain_nil _ _ _ hqueue, drain_nil _ _ _ (hsame.trans hqueue)]
          rfl
      | cons set queue =>
          rw [drain_zero _ _ hqueue, drain_zero _ _ (hsame.trans hqueue)]
          rfl
  | succ fuel ih =>
      have hsame : (work.map view).queue = work.queue := rfl
      cases hqueue : work.queue with
      | nil =>
          rw [drain_nil _ _ _ hqueue, drain_nil _ _ _ (hsame.trans hqueue)]
          rfl
      | cons set queue =>
          have hmap : inquiry.takeFirst coarse cardinality (work.map view) set queue =
              (inquiry.takeFirst fine cardinality work set queue).map (LevelWork.map view) id :=
            takeFirst_map h work set queue
          cases hstep : inquiry.takeFirst fine cardinality work set queue with
          | mk next outcome =>
              rw [hstep] at hmap
              cases outcome with
              | error error =>
                  rw [drain_of_error _ hqueue hstep, drain_of_error _ (hsame.trans hqueue) hmap]
                  rfl
              | ok _ =>
                  rw [drain_of_ok _ hqueue hstep, drain_of_ok _ (hsame.trans hqueue) hmap]
                  exact ih next

theorem checkOpen_map (view : ζ → η) (work : LevelWork ζ) :
    inquiry.checkOpen cardinality (work.map view) =
      (inquiry.checkOpen cardinality work).map (LevelWork.map view) := by
  unfold checkOpen
  refine foldlM_map (fun work set => ?_) _ _
  dsimp only [LevelWork.map]
  cases inquiry.check cardinality work.findings set with
  | error error => rfl
  | ok verdict => rfl

theorem checkLevel_map (h : fine.Views view coarse) (fuel : Nat) (sets excluded : List FaultSet)
    (progress : Progress ζ) :
    inquiry.checkLevel coarse fuel cardinality sets excluded (progress.map view) =
      (inquiry.checkLevel fine fuel cardinality sets excluded progress).map
        (Progress.map view) id := by
  have haugment : coarse.augmentAll (progress.heuristics.map view) cardinality sets =
      (fine.augmentAll progress.heuristics cardinality sets).map (List.map view) id :=
    Heuristic.inTurn_map (fun state queue => h.augment state cardinality queue) _ _
  unfold checkLevel
  dsimp only [Progress.map]
  rw [haugment]
  obtain ⟨heuristics, outcome⟩ := fine.augmentAll progress.heuristics cardinality sets
  cases outcome with
  | error misuse => rfl
  | ok queue =>
      dsimp only [Prod.map, id]
      have hdrain : inquiry.drain coarse cardinality (fuel + queue.length)
            ⟨sets, queue, excluded, progress.findings, heuristics.map view⟩ =
          (inquiry.drain fine cardinality (fuel + queue.length)
            ⟨sets, queue, excluded, progress.findings, heuristics⟩).map (LevelWork.map view) id :=
        drain_map h _ ⟨sets, queue, excluded, progress.findings, heuristics⟩
      rw [hdrain]
      obtain ⟨work, outcome⟩ := inquiry.drain fine cardinality (fuel + queue.length)
        ⟨sets, queue, excluded, progress.findings, heuristics⟩
      cases outcome with
      | error error => rfl
      | ok _ =>
          have hopen : inquiry.checkOpen cardinality (work.map view) =
              (inquiry.checkOpen cardinality work).map (LevelWork.map view) :=
            checkOpen_map view work
          dsimp only [Prod.map, id, LevelWork.map] at hopen ⊢
          rw [hopen]
          cases inquiry.checkOpen cardinality work with
          | error error => rfl
          | ok last => rfl

theorem climb_map (h : fine.Views view coarse) (fuel : Nat) (greatest : Option Nat)
    (levels : List Nat) (progress : Progress ζ) :
    inquiry.climb coarse fuel greatest levels (progress.map view) =
      (inquiry.climb fine fuel greatest levels progress).map (Progress.map view) id := by
  induction levels generalizing progress with
  | nil => rfl
  | cons cardinality rest ih =>
      have hstart : inquiry.levelStart cardinality (progress.map view) =
          inquiry.levelStart cardinality progress := rfl
      rw [climb_cons_eq, climb_cons_eq, hstart]
      by_cases hempty : (inquiry.levelStart cardinality progress).sets.isEmpty = true
      · rw [if_pos hempty, if_pos hempty]
        exact ih { progress with safe := (inquiry.levelStart cardinality progress).excluded }
      · rw [if_neg hempty, if_neg hempty, checkLevel_map h]
        by_cases hcut : greatest.any (· < cardinality) = true
        · rw [if_pos hcut, if_pos hcut]
          rfl
        · rw [if_neg hcut, if_neg hcut]
          obtain ⟨next, outcome⟩ := inquiry.checkLevel fine fuel cardinality
            (inquiry.levelStart cardinality progress).sets
            (inquiry.levelStart cardinality progress).excluded progress
          cases outcome with
          | error error => rfl
          | ok _ => exact ih next

end Inquiry

theorem Model.analyze_map {view : ζ → η} {fine : Heuristic ζ} {coarse : Heuristic η}
    (h : fine.Views view coarse) (model : Model α) (config : AnalysisConfig) (hazard : Formula)
    (heuristics : List ζ) (fuel : Nat) :
    model.analyze config hazard coarse (heuristics.map view) fuel =
      (model.analyze config hazard fine heuristics fuel).map (List.map view) id := by
  unfold Model.analyze
  cases model.inquire config hazard with
  | error error => rfl
  | ok inquiry =>
      dsimp only
      have hclimb : inquiry.climb coarse fuel config.maxCardinality
            (List.range (model.faults.length + 1))
            ⟨[], .start model.faults.length, heuristics.map view, true⟩ =
          (inquiry.climb fine fuel config.maxCardinality (List.range (model.faults.length + 1))
            ⟨[], .start model.faults.length, heuristics, true⟩).map (Progress.map view) id :=
        Inquiry.climb_map h _ _ _ ⟨[], .start model.faults.length, heuristics, true⟩
      rw [hclimb]
      obtain ⟨progress, outcome⟩ := inquiry.climb fine fuel config.maxCardinality
        (List.range (model.faults.length + 1))
        ⟨[], .start model.faults.length, heuristics, true⟩
      cases outcome with
      | error error => rfl
      | ok _ =>
          dsimp only [Prod.map, id, Progress.map]
          rw [List.length_map]

/-! ## Heuristics that record their consultations -/

inductive Occasion where
  /-- The sets of a size are about to be checked. -/
  | level (cardinality : Nat)
  /-- A set was checked. -/
  | verdict (set : FaultSet) (safe : Bool)

/-- One consultation of a heuristic: the queue it was given and what it made of it. -/
structure Consultation where
  occasion : Occasion
  before : Queue
  after : Except Misuse Queue

def Consultation.pushed (consultation : Consultation) : List FaultSet :=
  match consultation.after with
  | .error _ => []
  | .ok queue => queue.take (queue.length - consultation.before.length)

omit [Scalar α] in
theorem Consultation.pushed_of_after {consultation : Consultation} {front : List FaultSet}
    (h : consultation.after = .ok (front ++ consultation.before)) :
    consultation.pushed = front := by
  unfold Consultation.pushed
  rw [h]
  simp

namespace Heuristic

def recording (heuristic : Heuristic η) : Heuristic (η × List Consultation) where
  augment state cardinality queue :=
    let result := heuristic.augment state.1 cardinality queue
    ((result.1, state.2 ++ [⟨.level cardinality, queue, result.2⟩]), result.2)
  update state queue set safe :=
    let result := heuristic.update state.1 queue set safe
    ((result.1, state.2 ++ [⟨.verdict set safe, queue, result.2⟩]), result.2)

theorem recording_views (heuristic : Heuristic η) :
    heuristic.recording.Views Prod.fst heuristic where
  augment _ _ _ := rfl
  update _ _ _ _ := rfl

/-! ## What consultations keep -/

structure Preserves (heuristic : Heuristic η) (Held : ι → η → Prop) : Prop where
  augment : ∀ index state cardinality queue, Held index state →
    Held index (heuristic.augment state cardinality queue).1
  update : ∀ index state queue set safe, Held index state →
    Held index (heuristic.update state queue set safe).1

theorem forall₂_inTurn {Held : ι → η → Prop} {act : η → Queue → η × Except Misuse Queue}
    (hact : ∀ index state queue, Held index state → Held index (act state queue).1)
    {indices : List ι} {states : List η} (hstates : List.Forall₂ Held indices states)
    (queue : Queue) : List.Forall₂ Held indices (inTurn act states queue).1 := by
  induction hstates generalizing queue with
  | nil => exact .nil
  | @cons index state indices rest hfirst hrest ih =>
      have hnext := hact index state queue hfirst
      rw [inTurn]
      split
      · rename_i next misuse hfailed
        rw [hfailed] at hnext
        exact .cons hnext hrest
      · rename_i next later hdone
        rw [hdone] at hnext
        exact .cons hnext (ih later)

end Heuristic

namespace Inquiry

variable (inquiry : Inquiry α) (cardinality : Nat) {heuristic : Heuristic η}
  {Held : ι → η → Prop} {indices : List ι}

theorem forall₂_takeFirst (h : heuristic.Preserves Held) {work : LevelWork η}
    (hwork : List.Forall₂ Held indices work.heuristics) (set : FaultSet) (queue : Queue) :
    List.Forall₂ Held indices
      (inquiry.takeFirst heuristic cardinality work set queue).1.heuristics := by
  unfold takeFirst
  dsimp only
  split
  · exact hwork
  · split
    · exact hwork
    · rename_i safe findings _
      have hupdate : List.Forall₂ Held indices
          (heuristic.updateAll work.heuristics queue set safe).1 :=
        Heuristic.forall₂_inTurn (fun index state queue => h.update index state queue set safe)
          hwork queue
      split
      · rename_i heuristics misuse hfailed
        rw [hfailed] at hupdate
        exact hupdate
      · rename_i heuristics later hdone
        rw [hdone] at hupdate
        exact hupdate

theorem forall₂_drain (h : heuristic.Preserves Held) (fuel : Nat) {work : LevelWork η}
    (hwork : List.Forall₂ Held indices work.heuristics) :
    List.Forall₂ Held indices (inquiry.drain heuristic cardinality fuel work).1.heuristics := by
  induction fuel generalizing work with
  | zero =>
      cases hqueue : work.queue with
      | nil => rwa [drain_nil _ _ _ hqueue]
      | cons set queue => rwa [drain_zero _ _ hqueue]
  | succ fuel ih =>
      cases hqueue : work.queue with
      | nil => rwa [drain_nil _ _ _ hqueue]
      | cons set queue =>
          have hnext := forall₂_takeFirst inquiry cardinality h hwork set queue
          cases hstep : inquiry.takeFirst heuristic cardinality work set queue with
          | mk next outcome =>
              rw [hstep] at hnext
              cases outcome with
              | error error => rwa [drain_of_error _ hqueue hstep]
              | ok _ =>
                  rw [drain_of_ok _ hqueue hstep]
                  exact ih hnext

theorem forall₂_checkLevel (h : heuristic.Preserves Held) (fuel : Nat)
    (sets excluded : List FaultSet) {progress : Progress η}
    (hprogress : List.Forall₂ Held indices progress.heuristics) :
    List.Forall₂ Held indices
      (inquiry.checkLevel heuristic fuel cardinality sets excluded progress).1.heuristics := by
  have haugment : List.Forall₂ Held indices
      (heuristic.augmentAll progress.heuristics cardinality sets).1 :=
    Heuristic.forall₂_inTurn (fun index state queue => h.augment index state cardinality queue)
      hprogress sets
  unfold checkLevel
  split
  · rename_i heuristics misuse hfailed
    rw [hfailed] at haugment
    exact haugment
  · rename_i heuristics queue hdone
    rw [hdone] at haugment
    have hdrain : List.Forall₂ Held indices (inquiry.drain heuristic cardinality
        (fuel + queue.length)
        ⟨sets, queue, excluded, progress.findings, heuristics⟩).1.heuristics :=
      forall₂_drain inquiry cardinality h _ haugment
    dsimp only
    split
    · rename_i work error hfailed
      rw [hfailed] at hdrain
      exact hdrain
    · rename_i work hdrained
      rw [hdrained] at hdrain
      split
      · exact hdrain
      · rename_i last hlast
        rw [← heuristics_of_checkOpen hlast] at hdrain
        exact hdrain

theorem forall₂_climb (h : heuristic.Preserves Held) (fuel : Nat) (greatest : Option Nat)
    (levels : List Nat) {progress : Progress η}
    (hprogress : List.Forall₂ Held indices progress.heuristics) :
    List.Forall₂ Held indices
      (inquiry.climb heuristic fuel greatest levels progress).1.heuristics := by
  induction levels generalizing progress with
  | nil => exact hprogress
  | cons cardinality rest ih =>
      have hlevel := forall₂_checkLevel inquiry cardinality h fuel
        (inquiry.levelStart cardinality progress).sets
        (inquiry.levelStart cardinality progress).excluded hprogress
      rw [climb_cons_eq]
      split
      · exact ih hprogress
      · split
        · exact hprogress
        · split
          · rename_i next error hfailed
            rw [hfailed] at hlevel
            exact hlevel
          · rename_i next hdone
            rw [hdone] at hlevel
            exact ih hlevel

end Inquiry

theorem Model.forall₂_analyze {heuristic : Heuristic η} {Held : ι → η → Prop}
    (h : heuristic.Preserves Held) {indices : List ι} {heuristics : List η}
    (hheuristics : List.Forall₂ Held indices heuristics) (model : Model α)
    (config : AnalysisConfig) (hazard : Formula) (fuel : Nat) :
    List.Forall₂ Held indices (model.analyze config hazard heuristic heuristics fuel).1 := by
  unfold Model.analyze
  split
  · exact hheuristics
  · rename_i inquiry _
    have hclimb : List.Forall₂ Held indices (inquiry.climb heuristic fuel config.maxCardinality
        (List.range (model.faults.length + 1))
        { safe := [], findings := .start model.faults.length, heuristics }).1.heuristics :=
      inquiry.forall₂_climb h _ _ _ hheuristics
    dsimp only
    split
    · rename_i progress error hfailed
      rw [hfailed] at hclimb
      exact hclimb
    · rename_i progress hdone
      rw [hdone] at hclimb
      exact hclimb

/-! ## Fuel -/

namespace Inquiry

variable {inquiry : Inquiry α} {heuristic : Heuristic η} {cardinality fuel more : Nat}

/-- More fuel changes nothing for a queue that was worked off. -/
theorem drain_of_le (hmore : fuel ≤ more) {work : LevelWork η}
    (hdone : (inquiry.drain heuristic cardinality fuel work).2 ≠ .error .unfinished) :
    inquiry.drain heuristic cardinality more work =
      inquiry.drain heuristic cardinality fuel work := by
  induction fuel generalizing more work with
  | zero =>
      cases hqueue : work.queue with
      | nil => rw [drain_nil _ _ _ hqueue, drain_nil _ _ _ hqueue]
      | cons set queue =>
          rw [drain_zero _ _ hqueue] at hdone
          exact absurd rfl hdone
  | succ fuel ih =>
      cases hqueue : work.queue with
      | nil => rw [drain_nil _ _ _ hqueue, drain_nil _ _ _ hqueue]
      | cons set queue =>
          obtain ⟨more, rfl⟩ : ∃ less, more = less + 1 := ⟨more - 1, by omega⟩
          cases hstep : inquiry.takeFirst heuristic cardinality work set queue with
          | mk next outcome =>
              cases outcome with
              | error error =>
                  rw [drain_of_error _ hqueue hstep, drain_of_error _ hqueue hstep]
              | ok _ =>
                  rw [drain_of_ok _ hqueue hstep] at hdone
                  rw [drain_of_ok _ hqueue hstep, drain_of_ok _ hqueue hstep]
                  exact ih (Nat.le_of_succ_le_succ hmore) hdone

theorem checkLevel_of_le (hmore : fuel ≤ more) {sets excluded : List FaultSet}
    {progress : Progress η}
    (hdone : (inquiry.checkLevel heuristic fuel cardinality sets excluded progress).2 ≠
      .error .unfinished) :
    inquiry.checkLevel heuristic more cardinality sets excluded progress =
      inquiry.checkLevel heuristic fuel cardinality sets excluded progress := by
  revert hdone
  unfold checkLevel
  obtain ⟨heuristics, outcome⟩ := heuristic.augmentAll progress.heuristics cardinality sets
  cases outcome with
  | error misuse => exact fun _ => rfl
  | ok queue =>
      dsimp only
      intro hdone
      rw [drain_of_le (Nat.add_le_add_right hmore queue.length)]
      intro hdrain
      revert hdone hdrain
      obtain ⟨work, outcome⟩ := inquiry.drain heuristic cardinality (fuel + queue.length)
        ⟨sets, queue, excluded, progress.findings, heuristics⟩
      rintro hdone rfl
      exact hdone rfl

theorem climb_of_le (hmore : fuel ≤ more) {greatest : Option Nat} {levels : List Nat}
    {progress : Progress η}
    (hdone : (inquiry.climb heuristic fuel greatest levels progress).2 ≠ .error .unfinished) :
    inquiry.climb heuristic more greatest levels progress =
      inquiry.climb heuristic fuel greatest levels progress := by
  induction levels generalizing progress with
  | nil => rfl
  | cons cardinality rest ih =>
      rw [climb_cons_eq] at hdone
      rw [climb_cons_eq, climb_cons_eq]
      by_cases hempty : (inquiry.levelStart cardinality progress).sets.isEmpty = true
      · rw [if_pos hempty] at hdone
        rw [if_pos hempty, if_pos hempty, ih hdone]
      · rw [if_neg hempty] at hdone
        rw [if_neg hempty, if_neg hempty]
        by_cases hcut : greatest.any (· < cardinality) = true
        · rw [if_pos hcut, if_pos hcut]
        · rw [if_neg hcut] at hdone
          rw [if_neg hcut, if_neg hcut]
          rw [checkLevel_of_le hmore]
          · revert hdone
            obtain ⟨next, outcome⟩ := inquiry.checkLevel heuristic fuel cardinality
              (inquiry.levelStart cardinality progress).sets
              (inquiry.levelStart cardinality progress).excluded progress
            cases outcome with
            | error error => exact fun _ => rfl
            | ok _ => exact ih
          · revert hdone
            obtain ⟨next, outcome⟩ := inquiry.checkLevel heuristic fuel cardinality
              (inquiry.levelStart cardinality progress).sets
              (inquiry.levelStart cardinality progress).excluded progress
            rintro hdone rfl
            exact hdone rfl

end Inquiry

theorem Model.analyze_of_le {heuristic : Heuristic η} {fuel more : Nat} (hmore : fuel ≤ more)
    {model : Model α} {config : AnalysisConfig} {hazard : Formula} {heuristics : List η}
    (hdone : (model.analyze config hazard heuristic heuristics fuel).2 ≠ .error .unfinished) :
    model.analyze config hazard heuristic heuristics more =
      model.analyze config hazard heuristic heuristics fuel := by
  revert hdone
  unfold Model.analyze
  cases model.inquire config hazard with
  | error error => exact fun _ => rfl
  | ok inquiry =>
      dsimp only
      intro hdone
      rw [Inquiry.climb_of_le hmore]
      intro hclimb
      revert hdone hclimb
      obtain ⟨progress, outcome⟩ := inquiry.climb heuristic fuel config.maxCardinality
        (List.range (model.faults.length + 1))
        { safe := [], findings := .start model.faults.length, heuristics }
      rintro hdone rfl
      exact hdone rfl

/-! ## Budgets -/

/-- A heuristic pays for every set by which the queue grows while it is worked through. -/
structure Heuristic.Bounded (heuristic : Heuristic η) (budget : η → Nat) : Prop where
  augment_le : ∀ state cardinality queue,
    budget (heuristic.augment state cardinality queue).1 ≤ budget state
  update_le : ∀ state queue set safe,
    budget (heuristic.update state queue set safe).1 ≤ budget state
  update : ∀ state queue set safe later,
    (heuristic.update state queue set safe).2 = .ok later →
      later.length + budget (heuristic.update state queue set safe).1 ≤
        queue.length + budget state

theorem Heuristic.Bounded.preserves {heuristic : Heuristic η} {budget : η → Nat}
    (h : heuristic.Bounded budget) :
    heuristic.Preserves fun bound state => budget state ≤ bound where
  augment _ state cardinality queue hstate :=
    Nat.le_trans (h.augment_le state cardinality queue) hstate
  update _ state queue set safe hstate :=
    Nat.le_trans (h.update_le state queue set safe) hstate

theorem sum_map_le {budget : η → Nat} {bounds : List Nat} {states : List η}
    (h : List.Forall₂ (fun bound state => budget state ≤ bound) bounds states) :
    (states.map budget).sum ≤ bounds.sum :=
  List.Forall₂.sum_le_sum (List.forall₂_map_left_iff.2 h.flip)

theorem Heuristic.inTurn_bounded {act : η → Queue → η × Except Misuse Queue} {budget : η → Nat}
    (hact : ∀ state queue later, (act state queue).2 = .ok later →
      later.length + budget (act state queue).1 ≤ queue.length + budget state)
    {states next : List η} {queue later : Queue}
    (h : Heuristic.inTurn act states queue = (next, .ok later)) :
    later.length + (next.map budget).sum ≤ queue.length + (states.map budget).sum := by
  induction states generalizing queue next with
  | nil =>
      cases h
      exact Nat.le_refl _
  | cons state rest ih =>
      have hfirst := hact state queue
      rw [Heuristic.inTurn] at h
      split at h
      · cases h
      · rename_i after between hdone
        rw [hdone] at hfirst
        replace hfirst : between.length + budget after ≤ queue.length + budget state :=
          hfirst between rfl
        cases hrest : Heuristic.inTurn act rest between with
        | mk others outcome =>
            rw [hrest] at h
            cases h
            have hothers := ih hrest
            simp only [List.map_cons, List.sum_cons]
            omega

namespace Inquiry

variable {inquiry : Inquiry α} {heuristic : Heuristic η} {budget : η → Nat} {cardinality : Nat}

theorem takeFirst_ne_unfinished (work : LevelWork η) (set : FaultSet) (queue : Queue) :
    (inquiry.takeFirst heuristic cardinality work set queue).2 ≠ .error .unfinished := by
  unfold takeFirst
  dsimp only
  split
  · simp
  · split
    · rename_i error hfailed
      rintro ⟨⟩
      exact check_ne_unfinished _ _ _ hfailed
    · split
      · exact nofun
      · simp

/-- A step takes a set off the queue, and for all that it adds the budgets pay. -/
theorem takeFirst_bounded (h : heuristic.Bounded budget) {work next : LevelWork η}
    {set : FaultSet} {queue : Queue}
    (hstep : inquiry.takeFirst heuristic cardinality work set queue = (next, .ok ())) :
    next.queue.length + (next.heuristics.map budget).sum ≤
      queue.length + (work.heuristics.map budget).sum := by
  rcases takeFirst_eq_ok hstep with ⟨-, rfl⟩ | ⟨-, safe, after, heuristics, later, -, hupdate, rfl⟩
  · exact Nat.le_refl _
  · exact Heuristic.inTurn_bounded (fun state queue => h.update state queue set safe) hupdate

theorem drain_bounded (h : heuristic.Bounded budget) {fuel : Nat} {work : LevelWork η}
    (hfuel : work.queue.length + (work.heuristics.map budget).sum ≤ fuel) :
    (inquiry.drain heuristic cardinality fuel work).2 ≠ .error .unfinished := by
  induction fuel generalizing work with
  | zero =>
      have hnil : work.queue = [] := List.eq_nil_of_length_eq_zero (by omega)
      rw [drain_nil _ _ _ hnil]
      simp
  | succ fuel ih =>
      cases hqueue : work.queue with
      | nil =>
          rw [drain_nil _ _ _ hqueue]
          simp
      | cons set queue =>
          have hne : (inquiry.takeFirst heuristic cardinality work set queue).2 ≠
              .error .unfinished := takeFirst_ne_unfinished work set queue
          rw [hqueue, List.length_cons] at hfuel
          cases hstep : inquiry.takeFirst heuristic cardinality work set queue with
          | mk next outcome =>
              cases outcome with
              | error error =>
                  rw [drain_of_error _ hqueue hstep]
                  rwa [hstep] at hne
              | ok _ =>
                  have hnext := takeFirst_bounded h hstep
                  rw [drain_of_ok _ hqueue hstep]
                  exact ih (by omega)

theorem checkLevel_bounded (h : heuristic.Bounded budget) {bounds : List Nat} {fuel : Nat}
    (hfuel : bounds.sum ≤ fuel) (sets excluded : List FaultSet) {progress : Progress η}
    (hprogress : List.Forall₂ (fun bound state => budget state ≤ bound) bounds
      progress.heuristics) :
    (inquiry.checkLevel heuristic fuel cardinality sets excluded progress).2 ≠
      .error .unfinished := by
  have haugment : List.Forall₂ (fun bound state => budget state ≤ bound) bounds
      (heuristic.augmentAll progress.heuristics cardinality sets).1 :=
    Heuristic.forall₂_inTurn
      (fun bound state queue => h.preserves.augment bound state cardinality queue) hprogress sets
  unfold checkLevel
  split
  · exact nofun
  · rename_i heuristics queue hdone
    rw [hdone] at haugment
    have hroom : (heuristics.map budget).sum ≤ bounds.sum := sum_map_le haugment
    have hdrain : (inquiry.drain heuristic cardinality (fuel + queue.length)
        ⟨sets, queue, excluded, progress.findings, heuristics⟩).2 ≠ .error .unfinished :=
      drain_bounded h (by dsimp only; omega)
    dsimp only
    split
    · rename_i work error hfailed
      rwa [hfailed] at hdrain
    · split
      · rename_i error hfailed
        rintro ⟨⟩
        exact checkOpen_ne_unfinished hfailed
      · simp

theorem climb_bounded (h : heuristic.Bounded budget) {bounds : List Nat} {fuel : Nat}
    (hfuel : bounds.sum ≤ fuel) (greatest : Option Nat) (levels : List Nat)
    {progress : Progress η}
    (hprogress : List.Forall₂ (fun bound state => budget state ≤ bound) bounds
      progress.heuristics) :
    (inquiry.climb heuristic fuel greatest levels progress).2 ≠ .error .unfinished := by
  induction levels generalizing progress with
  | nil => simp [climb]
  | cons cardinality rest ih =>
      rw [climb_cons_eq]
      split
      · exact ih hprogress
      · split
        · simp
        · have hlevel : (inquiry.checkLevel heuristic fuel cardinality
              (inquiry.levelStart cardinality progress).sets
              (inquiry.levelStart cardinality progress).excluded progress).2 ≠
                .error .unfinished := checkLevel_bounded h hfuel _ _ hprogress
          have hkept := forall₂_checkLevel inquiry cardinality h.preserves fuel
            (inquiry.levelStart cardinality progress).sets
            (inquiry.levelStart cardinality progress).excluded hprogress
          split
          · rename_i next error hfailed
            rwa [hfailed] at hlevel
          · rename_i next hdone
            rw [hdone] at hkept
            exact ih hkept

end Inquiry

theorem Model.inquire_ne_unfinished (model : Model α) (config : AnalysisConfig)
    (hazard : Formula) : model.inquire config hazard ≠ .error .unfinished := by
  unfold Model.inquire
  split
  · exact nofun
  · split
    · exact nofun
    · intro herror
      rcases bind_eq_error.1 herror with hforced | ⟨_, -, hrest⟩
      · exact Inquiry.orMisuse_ne_unfinished _ hforced
      · rcases bind_eq_error.1 hrest with hsuppressed | ⟨_, -, hrest⟩
        · exact Inquiry.orMisuse_ne_unfinished _ hsuppressed
        · rcases bind_eq_error.1 hrest with hnondeterministic | ⟨_, -, hpure⟩
          · exact Inquiry.orMisuse_ne_unfinished _ hnondeterministic
          · cases hpure

/-- Fuel for the budgets of all heuristics together is never used up. -/
theorem Model.analyze_bounded {heuristic : Heuristic η} {budget : η → Nat}
    (h : heuristic.Bounded budget) {heuristics : List η} {fuel : Nat}
    (hfuel : (heuristics.map budget).sum ≤ fuel) (model : Model α) (config : AnalysisConfig)
    (hazard : Formula) :
    (model.analyze config hazard heuristic heuristics fuel).2 ≠ .error .unfinished := by
  unfold Model.analyze
  split
  · rename_i error hfailed
    rintro ⟨⟩
    exact inquire_ne_unfinished model config hazard hfailed
  · rename_i inquiry _
    have hclimb : (inquiry.climb heuristic fuel config.maxCardinality
        (List.range (model.faults.length + 1))
        { safe := [], findings := .start model.faults.length, heuristics }).2 ≠
          .error .unfinished :=
      Inquiry.climb_bounded h hfuel _ _ (List.forall₂_map_left_iff.2 (List.forall₂_same.2
        fun state _ => Nat.le_refl _))
    dsimp only
    split
    · rename_i progress error hfailed
      rw [hfailed] at hclimb
      simpa using hclimb
    · simp

end Hazard
