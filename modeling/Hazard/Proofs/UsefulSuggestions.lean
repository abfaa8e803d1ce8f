import Mathlib
import Hazard.Analysis.MaximalSafeSet
import Hazard.Proofs.HeuristicRuns
import Hazard.Proofs.MinimalCriticalSets
/-!
# The search for a large safe set is useful

All sets that the search suggests are valid and larger than those that are checked anyway, they
are no more than the budget allows, and the search ends with the first suggestion that is safe. A
run with such searches therefore ends. All this is read off the consultations of a run.
-/

namespace Hazard

/-! ## What a record of consultations says -/

def Occasion.levelFrom (level : Nat) : Occasion → Nat
  | .level cardinality => cardinality
  | .verdict _ _ => level

def Occasion.openFrom (sets : List FaultSet) : Occasion → List FaultSet
  | .level _ => sets
  | .verdict set _ => sets.erase set

namespace Consultation

variable {log : List Consultation} {consultation : Consultation} {set : FaultSet}

def suggested (log : List Consultation) : List FaultSet := log.flatMap pushed

def levelOf (log : List Consultation) : Nat :=
  log.foldl (fun level consultation => consultation.occasion.levelFrom level) 0

def awaiting (log : List Consultation) : List FaultSet :=
  log.foldl (fun sets consultation => consultation.pushed ++ consultation.occasion.openFrom sets) []

def Unsuccessful (log : List Consultation) : Prop :=
  ∀ past consultation later set, log = past ++ consultation :: later →
    consultation.occasion = .verdict set true → set ∉ awaiting past

/-- The verdict on a suggested set was that it is safe, and nothing was suggested from then on. -/
def EndedWith (log : List Consultation) (set : FaultSet) : Prop :=
  ∃ past consultation later, log = past ++ consultation :: later ∧
    consultation.occasion = .verdict set true ∧ set ∈ awaiting past ∧
    suggested (consultation :: later) = []

def NotBegun (log : List Consultation) : Prop :=
  ∀ consultation ∈ log, ∀ cardinality, consultation.occasion = .level cardinality →
    cardinality = 0

@[simp] theorem suggested_concat :
    suggested (log ++ [consultation]) = suggested log ++ consultation.pushed := by
  simp [suggested]

@[simp] theorem levelOf_concat :
    levelOf (log ++ [consultation]) = consultation.occasion.levelFrom (levelOf log) := by
  simp [levelOf]

@[simp] theorem awaiting_concat :
    awaiting (log ++ [consultation]) =
      consultation.pushed ++ consultation.occasion.openFrom (awaiting log) := by
  simp [awaiting]

theorem suggested_of_awaiting (h : set ∈ awaiting log) : set ∈ suggested log := by
  induction log using List.reverseRecOn with
  | nil => cases h
  | append_singleton log consultation ih =>
      rw [awaiting_concat, List.mem_append] at h
      rw [suggested_concat, List.mem_append]
      rcases h with hpushed | hopen
      · exact .inr hpushed
      · left
        apply ih
        cases hoccasion : consultation.occasion with
        | level cardinality => simpa [hoccasion, Occasion.openFrom] using hopen
        | verdict other safe =>
            rw [hoccasion] at hopen
            exact List.mem_of_mem_erase hopen

/-- A place in a record that grew by one is the new one or one that there was. -/
theorem concat_eq_append_cons {last : Consultation} {past later : List Consultation}
    (h : log ++ [last] = past ++ consultation :: later) :
    (past = log ∧ consultation = last) ∨
      ∃ between, later = between ++ [last] ∧ log = past ++ consultation :: between := by
  induction later using List.reverseRecOn with
  | nil =>
      obtain ⟨rfl, hlast⟩ := List.append_inj' h rfl
      cases hlast
      exact .inl ⟨rfl, rfl⟩
  | append_singleton between other _ =>
      rw [← List.cons_append, ← List.append_assoc] at h
      obtain ⟨rfl, hlast⟩ := List.append_inj' h rfl
      cases hlast
      exact .inr ⟨between, rfl, rfl⟩

theorem unsuccessful_concat :
    Unsuccessful (log ++ [consultation]) ↔ Unsuccessful log ∧
      ∀ set, consultation.occasion = .verdict set true → set ∉ awaiting log := by
  constructor
  · intro h
    refine ⟨fun past other later set hlog => ?_, fun set => h log consultation [] set rfl⟩
    exact h past other (later ++ [consultation]) set (by simp [hlog])
  · rintro ⟨hlog, hlast⟩ past other later set heq hverdict
    rcases concat_eq_append_cons heq with ⟨rfl, rfl⟩ | ⟨between, -, hbetween⟩
    · exact hlast set hverdict
    · exact hlog past other between set hbetween hverdict

theorem notBegun_concat :
    NotBegun (log ++ [consultation]) ↔ NotBegun log ∧
      ∀ cardinality, consultation.occasion = .level cardinality → cardinality = 0 := by
  simp [NotBegun, or_imp, forall_and]

theorem EndedWith.concat (h : EndedWith log set) (hpushed : consultation.pushed = []) :
    EndedWith (log ++ [consultation]) set := by
  obtain ⟨past, verdict, later, rfl, hverdict, hset, hquiet⟩ := h
  refine ⟨past, verdict, later ++ [consultation], by simp, hverdict, hset, ?_⟩
  rw [← List.cons_append, suggested_concat, hquiet, hpushed]
  rfl

theorem EndedWith.suggested (h : EndedWith log set) : set ∈ suggested log := by
  obtain ⟨past, verdict, later, rfl, -, hset, -⟩ := h
  rw [Consultation.suggested, List.flatMap_append]
  exact List.mem_append_left _ (suggested_of_awaiting hset)

theorem EndedWith.not_unsuccessful (h : EndedWith log set) : ¬Unsuccessful log := by
  obtain ⟨past, verdict, later, hlog, hverdict, hset, -⟩ := h
  exact fun hnone => hnone past verdict later set hlog hverdict hset

end Consultation

namespace MaximalSafeSet

open Consultation

/-! ## What a search does when it is consulted -/

variable {search : MaximalSafeSet} {queue : Queue}

def having (search : MaximalSafeSet) (pushed : List FaultSet) : MaximalSafeSet :=
  { search with
    budget := search.budget - pushed.length, pending := pushed ++ search.pending }

theorem having_having (first second : List FaultSet) :
    (search.having first).having second = search.having (second ++ first) := by
  simp [having, Nat.sub_sub, Nat.add_comm]

structure Suggests (search : MaximalSafeSet) (sets pushed : List FaultSet) : Prop where
  affordable : pushed.length ≤ search.budget
  among : ∀ set ∈ pushed, set ∈ sets
  large : ∀ set ∈ pushed, search.level < set.card
  thorough : pushed.length < search.budget →
    ∀ set ∈ sets, search.level < set.card → set ∈ pushed ++ search.pending

theorem suggest_eq (search : MaximalSafeSet) (queue : Queue) (set : FaultSet) :
    ∃ pushed, search.suggest queue set = (search.having pushed, pushed ++ queue) ∧
      search.Suggests [set] pushed := by
  unfold suggest
  split
  · rename_i hskip
    refine ⟨[], by simp [having], by simp, by simp, by simp, ?_⟩
    intro hbudget other hother hlarge
    rw [List.mem_singleton] at hother
    subst hother
    rcases hskip with hnone | hsmall | hpending
    · exact absurd hnone (Nat.ne_of_gt hbudget)
    · exact absurd hsmall (Nat.not_le.2 hlarge)
    · simpa using hpending
  · rename_i hpush
    push Not at hpush
    refine ⟨[set], rfl, Nat.one_le_iff_ne_zero.2 hpush.1, fun _ h => h, ?_, by simp⟩
    intro other hother
    rw [List.mem_singleton] at hother
    subst hother
    exact hpush.2.1

theorem Suggests.append {first second pushed later : List FaultSet}
    (h : search.Suggests first pushed) (h' : (search.having pushed).Suggests second later) :
    search.Suggests (first ++ second) (later ++ pushed) := by
  have hbudget : (search.having pushed).budget = search.budget - pushed.length := rfl
  have hlater := h'.affordable
  have hpushed := h.affordable
  refine ⟨by rw [List.length_append]; omega, ?_, ?_, ?_⟩
  · intro set hset
    rcases List.mem_append.1 hset with hset | hset
    · exact List.mem_append_right _ (h'.among set hset)
    · exact List.mem_append_left _ (h.among set hset)
  · intro set hset
    rcases List.mem_append.1 hset with hset | hset
    · exact h'.large set hset
    · exact h.large set hset
  · intro hroom set hset hlarge
    rw [List.length_append] at hroom
    rcases List.mem_append.1 hset with hset | hset
    · rw [List.append_assoc]
      exact List.mem_append_right _ (h.thorough (by omega) set hset hlarge)
    · rw [List.append_assoc]
      exact h'.thorough (by omega) set hset hlarge

theorem foldl_suggest_eq (sets : List FaultSet) (search : MaximalSafeSet) (queue : Queue) :
    ∃ pushed, sets.foldl (fun state set => state.1.suggest state.2 set) (search, queue) =
        (search.having pushed, pushed ++ queue) ∧
      search.Suggests sets pushed := by
  induction sets generalizing search queue with
  | nil => exact ⟨[], by simp [having], by simp, by simp, by simp, by simp⟩
  | cons set rest ih =>
      obtain ⟨first, hfirst, hsuggests⟩ := suggest_eq search queue set
      obtain ⟨later, hlater, hrest⟩ := ih (search.having first) (first ++ queue)
      refine ⟨later ++ first, ?_, hsuggests.append hrest⟩
      rw [List.foldl_cons, hfirst, hlater, having_having, List.append_assoc]

theorem augment_cases (search : MaximalSafeSet) (queue : Queue) (cardinality : Nat) :
    (search.started = true ∨ cardinality = 0) ∧
      search.augment cardinality queue = ({ search with level := cardinality }, queue) ∨
    search.started = false ∧ cardinality ≠ 0 ∧
      ∃ pushed, search.augment cardinality queue =
          ({ search with level := cardinality, started := true }.having pushed,
            pushed ++ queue) ∧
        { search with level := cardinality, started := true }.Suggests [search.candidates]
          pushed := by
  unfold augment
  dsimp only
  split
  · rename_i hskip
    exact .inl ⟨by simpa using hskip, rfl⟩
  · rename_i hstart
    obtain ⟨hstarted, hcardinality⟩ : search.started = false ∧ cardinality ≠ 0 := by
      simpa using hstart
    exact .inr ⟨hstarted, hcardinality, suggest_eq _ queue _⟩

theorem update_cases (search : MaximalSafeSet) (queue : Queue) (set : FaultSet)
    (safe : Bool) :
    (set ∉ search.pending ∨ search.found ≠ none) ∧
      search.update queue set safe =
        ({ search with pending := search.pending.erase set }, queue) ∨
    set ∈ search.pending ∧ search.found = none ∧ safe = true ∧
      search.update queue set safe =
        ({ search with pending := search.pending.erase set, found := some set }, queue) ∨
    set ∈ search.pending ∧ search.found = none ∧ safe = false ∧
      ∃ pushed, search.update queue set safe =
          ({ search with pending := search.pending.erase set }.having pushed, pushed ++ queue) ∧
        { search with pending := search.pending.erase set }.Suggests (search.smaller set)
          pushed := by
  unfold update
  split
  · rename_i hother
    have hout : set ∉ search.pending := by simpa using hother
    rw [List.erase_of_not_mem hout]
    exact .inl ⟨.inl hout, rfl⟩
  · rename_i hpending
    have hin : set ∈ search.pending := by simpa using hpending
    dsimp only
    by_cases hfound : search.found.isSome = true
    · rw [if_pos hfound]
      exact .inl ⟨.inr (Option.isSome_iff_ne_none.1 hfound), rfl⟩
    · rw [if_neg hfound]
      have hnone : search.found = none := by simpa using hfound
      right
      cases safe with
      | true => exact .inl ⟨hin, hnone, rfl, rfl⟩
      | false => exact .inr ⟨hin, hnone, rfl, foldl_suggest_eq _ _ queue⟩

structure Spends (search : MaximalSafeSet) (consultation : Consultation)
    (next : MaximalSafeSet) : Prop where
  front : consultation.after = .ok (consultation.pushed ++ consultation.before)
  candidates_eq : next.candidates = search.candidates
  forced_eq : next.forced = search.forced
  level_eq : next.level = consultation.occasion.levelFrom search.level
  pending_eq : next.pending =
    consultation.pushed ++ consultation.occasion.openFrom search.pending
  spent : consultation.pushed.length + next.budget = search.budget
  large : ∀ set ∈ consultation.pushed, next.level < set.card

structure Consulted (search : MaximalSafeSet) (consultation : Consultation)
    (next : MaximalSafeSet) : Prop extends search.Spends consultation next where
  /-- A suggestion consists of all candidates, or it is part of an earlier one. -/
  descends : ∀ set ∈ consultation.pushed, next.started = true ∧ set = search.candidates ∨
    ∃ whole ∈ search.pending, set ∈ search.smaller whole
  started_iff : next.started = false ↔ search.started = false ∧
    ∀ cardinality, consultation.occasion = .level cardinality → cardinality = 0
  found : ∀ set, next.found = some set →
    (search.started = true → consultation.pushed = []) ∧
      (search.found = some set ∨
        consultation.occasion = .verdict set true ∧ set ∈ search.pending)
  unsuccessful : next.found = none → search.found = none ∧
    ∀ set, consultation.occasion = .verdict set true → set ∉ search.pending
  opened : ∀ cardinality, consultation.occasion = .level cardinality → cardinality ≠ 0 →
    search.started = false → search.pending = [] → search.budget ≠ 0 →
    cardinality < search.candidates.card → search.candidates ∈ consultation.pushed
  pursued : ∀ set, consultation.occasion = .verdict set false → set ∈ search.pending →
    search.found = none → consultation.pushed.length < search.budget →
    ∀ part ∈ search.smaller set, search.level < part.card → part ∈ next.pending

variable {base next : MaximalSafeSet} {consultation : Consultation} {sets pushed : List FaultSet}

theorem Suggests.spends (h : base.Suggests sets pushed) (search : MaximalSafeSet)
    (hafter : consultation.after = .ok (pushed ++ consultation.before))
    (hcandidates : base.candidates = search.candidates) (hforced : base.forced = search.forced)
    (hlevel : base.level = consultation.occasion.levelFrom search.level)
    (hpending : base.pending = consultation.occasion.openFrom search.pending)
    (hbudget : base.budget = search.budget) :
    search.Spends consultation (base.having pushed) := by
  obtain rfl := pushed_of_after hafter
  refine ⟨hafter, hcandidates, hforced, hlevel, congrArg _ hpending, ?_, h.large⟩
  rw [← hbudget]
  exact Nat.add_sub_cancel' h.affordable

theorem Spends.budget_le (h : search.Spends consultation next) : next.budget ≤ search.budget := by
  have hspent := h.spent
  omega

/-- For every set by which a queue grows a search pays. -/
theorem Spends.length_le (h : search.Spends consultation next) {later : Queue}
    (hafter : consultation.after = .ok later) :
    later.length + next.budget ≤ consultation.before.length + search.budget := by
  have hspent := h.spent
  cases hafter.symm.trans h.front
  rw [List.length_append]
  omega

theorem Suggests.nil (search : MaximalSafeSet) : search.Suggests [] [] :=
  ⟨Nat.zero_le _, by simp, by simp, by simp⟩

theorem consulted_augment (search : MaximalSafeSet) (cardinality : Nat) (queue : Queue) :
    search.Consulted ⟨.level cardinality, queue, .ok (search.augment cardinality queue).2⟩
      (search.augment cardinality queue).1 := by
  rcases search.augment_cases queue cardinality with
    ⟨hskip, heq⟩ | ⟨hstarted, hcardinality, pushed, heq, hsuggests⟩
  · rw [heq]
    have hpushed : (⟨.level cardinality, queue, .ok queue⟩ : Consultation).pushed = [] :=
      pushed_of_after rfl
    refine { (Suggests.nil { search with level := cardinality }).spends search rfl rfl rfl rfl
        rfl rfl with
      descends := by simp [hpushed]
      started_iff := ?_
      found := fun set hfound => ⟨fun _ => hpushed, .inl hfound⟩
      unsuccessful := fun hnone => ⟨hnone, by simp⟩
      opened := ?_
      pursued := by simp }
    · refine ⟨fun hwaiting => ⟨hwaiting, ?_⟩, fun h => h.1⟩
      rintro _ ⟨⟩
      exact hskip.resolve_left (by simpa using hwaiting)
    · rintro _ ⟨⟩ hcardinality hwaiting
      rcases hskip with hstarted | hzero
      · rw [hwaiting] at hstarted
        cases hstarted
      · exact absurd hzero hcardinality
  · rw [heq]
    have hpushed : (⟨.level cardinality, queue, .ok (pushed ++ queue)⟩ : Consultation).pushed =
      pushed := pushed_of_after rfl
    refine { hsuggests.spends search rfl rfl rfl rfl rfl rfl with
      descends := ?_
      started_iff := ?_
      found := ?_
      unsuccessful := fun hnone => ⟨hnone, by simp⟩
      opened := ?_
      pursued := by simp }
    · intro set hset
      rw [hpushed] at hset
      exact .inl ⟨rfl, List.mem_singleton.1 (hsuggests.among set hset)⟩
    · exact ⟨by simp [having], fun h => absurd (h.2 cardinality rfl) hcardinality⟩
    · intro set hfound
      rw [hstarted]
      exact ⟨by simp, .inl hfound⟩
    · rintro _ ⟨⟩ _ _ hpending hbudget hlarge
      rw [hpushed]
      by_cases hroom : pushed.length < search.budget
      · have hmem : search.candidates ∈ pushed ++ search.pending :=
          hsuggests.thorough hroom search.candidates (by simp) hlarge
        rwa [hpending, List.append_nil] at hmem
      · obtain ⟨set, hset⟩ := List.exists_mem_of_length_pos (l := pushed) (by omega)
        rwa [← List.mem_singleton.1 (hsuggests.among set hset)]

theorem consulted_update (search : MaximalSafeSet) (queue : Queue) (set : FaultSet)
    (safe : Bool) :
    search.Consulted ⟨.verdict set safe, queue, .ok (search.update queue set safe).2⟩
      (search.update queue set safe).1 := by
  rcases search.update_cases queue set safe with
    ⟨hskip, heq⟩ | ⟨hin, hnone, rfl, heq⟩ | ⟨hin, hnone, rfl, pushed, heq, hsuggests⟩
  · rw [heq]
    have hpushed : (⟨.verdict set safe, queue, .ok queue⟩ : Consultation).pushed = [] :=
      pushed_of_after rfl
    refine { (Suggests.nil { search with pending := search.pending.erase set }).spends search
        rfl rfl rfl rfl rfl rfl with
      descends := by simp [hpushed]
      started_iff := ⟨fun hwaiting => ⟨hwaiting, by simp⟩, fun h => h.1⟩
      found := fun set hfound => ⟨fun _ => hpushed, .inl hfound⟩
      unsuccessful := ?_
      opened := by simp
      pursued := ?_ }
    · intro hnone
      refine ⟨hnone, ?_⟩
      rintro _ ⟨⟩
      exact hskip.resolve_right (fun hfound => hfound hnone)
    · rintro _ ⟨⟩ hin hnone
      rcases hskip with hout | hfound
      · exact absurd hin hout
      · exact absurd hnone hfound
  · rw [heq]
    have hpushed : (⟨.verdict set true, queue, .ok queue⟩ : Consultation).pushed = [] :=
      pushed_of_after rfl
    refine { (Suggests.nil { search with
        pending := search.pending.erase set, found := some set }).spends search
        rfl rfl rfl rfl rfl rfl with
      descends := by simp [hpushed]
      started_iff := ⟨fun hwaiting => ⟨hwaiting, by simp⟩, fun h => h.1⟩
      found := ?_
      unsuccessful := by simp
      opened := by simp
      pursued := by simp }
    rintro _ ⟨⟩
    exact ⟨fun _ => hpushed, .inr ⟨rfl, hin⟩⟩
  · rw [heq]
    have hpushed : (⟨.verdict set false, queue, .ok (pushed ++ queue)⟩ : Consultation).pushed =
      pushed := pushed_of_after rfl
    refine { hsuggests.spends search rfl rfl rfl rfl rfl rfl with
      descends := ?_
      started_iff := ⟨fun hwaiting => ⟨hwaiting, by simp⟩, fun h => h.1⟩
      found := ?_
      unsuccessful := fun _ => ⟨hnone, by simp⟩
      opened := by simp
      pursued := ?_ }
    · intro part hpart
      rw [hpushed] at hpart
      exact .inr ⟨set, hin, hsuggests.among part hpart⟩
    · intro other hfound
      exact absurd (hnone.symm.trans hfound) (Option.some_ne_none other).symm
    · rintro _ ⟨⟩ _ _ hroom part hpart hlarge
      rw [hpushed] at hroom
      exact hsuggests.thorough hroom part hpart hlarge

/-! ## What a search has done so far -/

/-- The record of a search that started out as `start` agrees with its state, and what it suggested
was worth it. -/
structure Accounted (start search : MaximalSafeSet) (log : List Consultation) : Prop where
  front : ∀ consultation ∈ log,
    consultation.after = .ok (consultation.pushed ++ consultation.before)
  candidates_eq : search.candidates = start.candidates
  forced_eq : search.forced = start.forced
  level_eq : search.level = levelOf log
  pending_eq : search.pending = awaiting log
  spent : (suggested log).length + search.budget = start.budget
  within : ∀ set ∈ suggested log,
    start.forced.isSubset set = true ∧ set.isSubset start.candidates = true
  large : ∀ past consultation later, log = past ++ consultation :: later →
    ∀ set ∈ consultation.pushed, levelOf (past ++ [consultation]) < set.card

/-- How a search that started out as `start` goes on: from all candidates to smaller and smaller
sets, until one is safe. -/
structure Conducted (start search : MaximalSafeSet) (log : List Consultation) : Prop
    extends start.Accounted search log where
  started_iff : search.started = false ↔ NotBegun log
  waited : search.started = false → suggested log = []
  found : ∀ set, search.found = some set → EndedWith log set
  unsuccessful : search.found = none → Unsuccessful log
  opened : ∀ past consultation later cardinality, log = past ++ consultation :: later →
    consultation.occasion = .level cardinality → cardinality ≠ 0 → NotBegun past →
    start.budget ≠ 0 → cardinality < start.candidates.card →
    start.candidates ∈ consultation.pushed
  pursued : ∀ past consultation later set, log = past ++ consultation :: later →
    consultation.occasion = .verdict set false → set ∈ awaiting past → Unsuccessful past →
    (suggested (past ++ [consultation])).length < start.budget →
    ∀ part ∈ start.smaller set, levelOf past < part.card →
      part ∈ awaiting (past ++ [consultation])

variable {start : MaximalSafeSet} {log : List Consultation}

theorem within_of_smaller {whole part : FaultSet}
    (hwhole : start.forced.isSubset whole = true ∧ whole.isSubset start.candidates = true)
    (hpart : part ∈ start.smaller whole) :
    start.forced.isSubset part = true ∧ part.isSubset start.candidates = true := by
  obtain ⟨fault, hfault, rfl⟩ := List.mem_map.1 hpart
  have hfree : start.forced.contains fault.val = false := by
    have hdiff := (List.mem_filter.1 hfault).2
    rw [IndexSet.contains_diff, Bool.and_eq_true, Bool.not_eq_true'] at hdiff
    exact hdiff.2
  constructor
  · rw [IndexSet.isSubset_iff] at hwhole ⊢
    intro index hindex
    rw [IndexSet.contains_erase, hwhole.1 index hindex]
    have hne : index ≠ fault.val := by
      rintro rfl
      rw [hfree] at hindex
      cases hindex
    simp [hne]
  · exact IndexSet.isSubset_trans (IndexSet.erase_isSubset whole fault) hwhole.2

theorem Accounted.concat (h : start.Accounted search log)
    (hstep : search.Consulted consultation next)
    (hcandidates : start.forced.isSubset start.candidates = true) :
    start.Accounted next (log ++ [consultation]) := by
  have hlevel : next.level = levelOf (log ++ [consultation]) := by
    rw [hstep.level_eq, h.level_eq, levelOf_concat]
  have hspent := h.spent
  have hcost := hstep.spent
  constructor
  · intro other hother
    rcases List.mem_append.1 hother with hold | hnew
    · exact h.front other hold
    · rw [List.mem_singleton] at hnew
      rw [hnew]
      exact hstep.front
  · exact hstep.candidates_eq.trans h.candidates_eq
  · exact hstep.forced_eq.trans h.forced_eq
  · exact hlevel
  · rw [awaiting_concat, ← h.pending_eq, hstep.pending_eq]
  · rw [suggested_concat, List.length_append]
    omega
  · intro set hset
    rw [suggested_concat] at hset
    rcases List.mem_append.1 hset with hold | hnew
    · exact h.within set hold
    · rcases hstep.descends set hnew with ⟨-, rfl⟩ | ⟨whole, hwhole, hpart⟩
      · rw [h.candidates_eq]
        exact ⟨hcandidates, IndexSet.isSubset_refl _⟩
      · rw [h.pending_eq] at hwhole
        have hsmaller : set ∈ start.smaller whole := by
          rwa [smaller, ← h.forced_eq]
        exact within_of_smaller (h.within whole (suggested_of_awaiting hwhole)) hsmaller
  · intro past other later hlog set hset
    rcases concat_eq_append_cons hlog with ⟨rfl, rfl⟩ | ⟨between, -, rfl⟩
    · rw [← hlevel]
      exact hstep.large set hset
    · exact h.large past other between rfl set hset

theorem Conducted.started_of_suggested (h : start.Conducted search log) {set : FaultSet}
    (hset : set ∈ suggested log) : search.started = true := by
  by_contra hwaiting
  rw [h.waited (Bool.eq_false_iff.2 hwaiting)] at hset
  cases hset

theorem Conducted.pending_of_waiting (h : start.Conducted search log)
    (hwaiting : search.started = false) : search.pending = [] := by
  rw [h.pending_eq, List.eq_nil_iff_forall_not_mem]
  intro set hset
  have hstarted := h.started_of_suggested (suggested_of_awaiting hset)
  rw [hwaiting] at hstarted
  cases hstarted

theorem Conducted.concat (h : start.Conducted search log)
    (hstep : search.Consulted consultation next)
    (hcandidates : start.forced.isSubset start.candidates = true) :
    start.Conducted next (log ++ [consultation]) := by
  have haccounted := h.toAccounted.concat hstep hcandidates
  have hspent := h.spent
  refine { haccounted with
    started_iff := ?_
    waited := ?_
    found := ?_
    unsuccessful := ?_
    opened := ?_
    pursued := ?_ }
  · rw [notBegun_concat, ← h.started_iff]
    exact hstep.started_iff
  · intro hwaiting
    have hbefore := (hstep.started_iff.1 hwaiting).1
    rw [suggested_concat, h.waited hbefore, List.nil_append, List.eq_nil_iff_forall_not_mem]
    intro set hset
    rcases hstep.descends set hset with ⟨hstarted, -⟩ | ⟨whole, hwhole, -⟩
    · rw [hwaiting] at hstarted
      cases hstarted
    · rw [h.pending_of_waiting hbefore] at hwhole
      cases hwhole
  · intro set hfound
    obtain ⟨hquiet, hold | ⟨hverdict, hset⟩⟩ := hstep.found set hfound
    · have hended := h.found set hold
      exact hended.concat (hquiet (h.started_of_suggested hended.suggested))
    · rw [h.pending_eq] at hset
      refine ⟨log, consultation, [], rfl, hverdict, hset, ?_⟩
      simpa [suggested] using hquiet (h.started_of_suggested (suggested_of_awaiting hset))
  · intro hnone
    obtain ⟨hbefore, hlast⟩ := hstep.unsuccessful hnone
    rw [unsuccessful_concat, ← h.pending_eq]
    exact ⟨h.unsuccessful hbefore, hlast⟩
  · intro past other later cardinality hlog hoccasion hpositive hnotBegun hbudget hlarge
    rcases concat_eq_append_cons hlog with ⟨rfl, rfl⟩ | ⟨between, -, rfl⟩
    · have hwaiting := h.started_iff.2 hnotBegun
      rw [h.waited hwaiting, List.length_nil, Nat.zero_add] at hspent
      rw [← h.candidates_eq] at hlarge ⊢
      exact hstep.opened cardinality hoccasion hpositive hwaiting
        (h.pending_of_waiting hwaiting) (hspent ▸ hbudget) hlarge
    · exact h.opened past other between cardinality rfl hoccasion hpositive hnotBegun hbudget
        hlarge
  · intro past other later set hlog hoccasion hset hnone hroom part hpart hlarge
    rcases concat_eq_append_cons hlog with ⟨rfl, rfl⟩ | ⟨between, -, rfl⟩
    · have hunfound : search.found = none := by
        rw [Option.eq_none_iff_forall_ne_some]
        exact fun found hfound => (h.found found hfound).not_unsuccessful hnone
      rw [suggested_concat, List.length_append] at hroom
      rw [← haccounted.pending_eq]
      rw [← h.pending_eq] at hset
      rw [← h.level_eq] at hlarge
      rw [smaller, ← h.forced_eq] at hpart
      exact hstep.pursued set hoccasion hset hunfound (by omega) part hpart hlarge
    · exact h.pursued past other between set rfl hoccasion hset hnone hroom part hpart hlarge

/-! ## Searches made for a model -/

variable {α : Type} {model : Model α} {budget : Nat}

theorem create_eq_ok {faults : List (Fault α)} (h : create faults budget = .ok start) :
    ∃ forced nondeterministic, FaultSet.declared faults .forced = .ok forced ∧
      FaultSet.declared faults .nondeterministic = .ok nondeterministic ∧
      start = { candidates := nondeterministic.union forced, forced, budget } := by
  obtain ⟨forced, hforced, hrest⟩ := bind_eq_ok.1 h
  obtain ⟨nondeterministic, hnondeterministic, hpure⟩ := bind_eq_ok.1 hrest
  cases hpure
  exact ⟨forced, nondeterministic, hforced, hnondeterministic, rfl⟩

theorem budget_of_create {faults : List (Fault α)} (h : create faults budget = .ok start) :
    start.budget = budget := by
  obtain ⟨forced, nondeterministic, -, -, rfl⟩ := create_eq_ok h
  rfl

theorem forced_isSubset_candidates {faults : List (Fault α)}
    (h : create faults budget = .ok start) : start.forced.isSubset start.candidates = true := by
  obtain ⟨forced, nondeterministic, -, -, rfl⟩ := create_eq_ok h
  rw [IndexSet.isSubset_iff]
  intro position hposition
  rw [IndexSet.contains_union, hposition, Bool.or_true]

theorem valid_iff_within (h : create model.faults budget = .ok start) {set : FaultSet} :
    model.Valid set ↔
      start.forced.isSubset set = true ∧ set.isSubset start.candidates = true := by
  obtain ⟨forced, nondeterministic, hforced, hnondeterministic, rfl⟩ := create_eq_ok h
  have hforced := FaultSet.contains_of_declared hforced
  have hnondeterministic := FaultSet.contains_of_declared hnondeterministic
  simp only [IndexSet.isSubset_iff, IndexSet.contains_union, Bool.or_eq_true, hforced,
    hnondeterministic]
  constructor
  · intro hvalid
    refine ⟨fun position hposition => ?_, fun position hposition => ?_⟩
    · obtain ⟨fault, hfault, hactivation⟩ := hposition
      exact hvalid.forced position fault hfault hactivation
    · have hlt := hvalid.declared position hposition
      have hfault := List.getElem?_eq_getElem hlt
      cases hactivation : model.faults[position].activation with
      | forced => exact .inr ⟨_, hfault, hactivation⟩
      | nondeterministic => exact .inl ⟨_, hfault, hactivation⟩
      | suppressed =>
          rw [hvalid.suppressed position _ hfault hactivation] at hposition
          cases hposition
  · rintro ⟨hall, hwithin⟩
    refine ⟨fun position hposition => ?_, fun position fault hfault hactivation => ?_,
      fun position fault hfault hactivation => ?_⟩
    · rcases hwithin position hposition with ⟨fault, hfault, -⟩ | ⟨fault, hfault, -⟩
      · exact (List.getElem?_eq_some_iff.1 hfault).1
      · exact (List.getElem?_eq_some_iff.1 hfault).1
    · exact hall position ⟨fault, hfault, hactivation⟩
    · rw [← Bool.not_eq_true]
      intro hposition
      rcases hwithin position hposition with ⟨other, hother, hstrikes⟩ | ⟨other, hother, hstrikes⟩
      · rw [hfault] at hother
        cases hother
        rw [hactivation] at hstrikes
        cases hstrikes
      · rw [hfault] at hother
        cases hother
        rw [hactivation] at hstrikes
        cases hstrikes

theorem conducted_of_create (h : create model.faults budget = .ok start) :
    start.Conducted start [] := by
  obtain ⟨forced, nondeterministic, -, -, rfl⟩ := create_eq_ok h
  constructor
  · constructor <;> simp [levelOf, awaiting, suggested]
  all_goals simp [NotBegun, Unsuccessful, suggested]

/-- The suggestions of a search with a budget, by the record of its consultations, were of use. -/
structure Useful (model : Model α) (budget : Nat) (search : MaximalSafeSet)
    (log : List Consultation) : Prop where
  /-- Nothing but putting sets in front of it is done to the queue. -/
  front : ∀ consultation ∈ log,
    consultation.after = .ok (consultation.pushed ++ consultation.before)
  spent : (suggested log).length + search.budget = budget
  valid : ∀ set ∈ suggested log, model.Valid set
  large : ∀ past consultation later, log = past ++ consultation :: later →
    ∀ set ∈ consultation.pushed, levelOf (past ++ [consultation]) < set.card
  found : ∀ set, search.found = some set → EndedWith log set

/-- A search with a budget, by the record of its consultations, left nothing out. -/
structure Thorough (model : Model α) (budget : Nat) (search : MaximalSafeSet)
    (log : List Consultation) : Prop where
  /-- The greatest valid set is suggested first. -/
  opened : ∀ past consultation later cardinality greatest,
    log = past ++ consultation :: later → consultation.occasion = .level cardinality →
    cardinality ≠ 0 → NotBegun past → budget ≠ 0 → model.Valid greatest →
    (∀ set, model.Valid set → set.isSubset greatest = true) → cardinality < greatest.card →
    greatest ∈ consultation.pushed
  /-- If a suggested set is critical, all that it is worth while to look at below it is. -/
  pursued : ∀ past consultation later set (fault : Fin 64),
    log = past ++ consultation :: later → consultation.occasion = .verdict set false →
    set ∈ awaiting past → Unsuccessful past →
    (suggested (past ++ [consultation])).length < budget →
    set.contains fault = true → model.Valid (set.erase fault) →
    levelOf past < (set.erase fault).card → set.erase fault ∈ awaiting (past ++ [consultation])
  unsuccessful : search.found = none → Unsuccessful log

theorem Conducted.useful (h : start.Conducted search log)
    (hstart : create model.faults budget = .ok start) : Useful model budget search log :=
  ⟨h.front, h.spent.trans (budget_of_create hstart),
    fun set hset => (valid_iff_within hstart).2 (h.within set hset), h.large, h.found⟩

theorem Conducted.thorough (h : start.Conducted search log)
    (hstart : create model.faults budget = .ok start) : Thorough model budget search log := by
  obtain rfl := budget_of_create hstart
  refine ⟨?_, ?_, h.unsuccessful⟩
  · intro past consultation later cardinality greatest hlog hoccasion hpositive hnotBegun hbudget
      hgreatest hall hlarge
    have hvalid : model.Valid start.candidates :=
      (valid_iff_within hstart).2
        ⟨forced_isSubset_candidates hstart, IndexSet.isSubset_refl _⟩
    have heq : start.candidates = greatest :=
      IndexSet.isSubset_antisymm (hall _ hvalid) ((valid_iff_within hstart).1 hgreatest).2
    rw [← heq] at hlarge ⊢
    exact h.opened past consultation later cardinality hlog hoccasion hpositive hnotBegun hbudget
      hlarge
  · intro past consultation later set fault hlog hoccasion hset hnone hroom hfault hvalid hlarge
    have hfree : start.forced.contains fault = false := by
      rw [← Bool.not_eq_true]
      intro hforced
      have hkept := IndexSet.isSubset_iff.1 ((valid_iff_within hstart).1 hvalid).1 fault hforced
      simp at hkept
    have hpart : set.erase fault ∈ start.smaller set :=
      List.mem_map.2 ⟨fault, List.mem_filter.2 ⟨List.mem_finRange fault, by simp [hfault, hfree]⟩,
        rfl⟩
    exact h.pursued past consultation later set hlog hoccasion hset hnone hroom _ hpart hlarge

theorem heuristic_bounded : heuristic.Bounded MaximalSafeSet.budget where
  augment_le search cardinality queue := (consulted_augment search cardinality queue).budget_le
  update_le search queue set safe := (consulted_update search queue set safe).budget_le
  update search queue set safe _ hlater :=
    (consulted_update search queue set safe).length_le hlater

/-- A search that was made for the model was conducted as its record says. -/
def ConductedFor (model : Model α) (budget : Nat) (state : MaximalSafeSet × List Consultation) :
    Prop :=
  ∃ start, create model.faults budget = .ok start ∧ start.Conducted state.1 state.2

theorem recording_preserves (model : Model α) :
    heuristic.recording.Preserves (ConductedFor model) := by
  constructor
  · rintro budget ⟨search, log⟩ cardinality queue ⟨start, hstart, h⟩
    exact ⟨start, hstart, h.concat (consulted_augment search cardinality queue)
      (forced_isSubset_candidates hstart)⟩
  · rintro budget ⟨search, log⟩ queue set safe ⟨start, hstart, h⟩
    exact ⟨start, hstart, h.concat (consulted_update search queue set safe)
      (forced_isSubset_candidates hstart)⟩

/-- A run whose heuristics are searches for large safe sets ends, however much fuel there is beyond
their budgets, and each search was useful and thorough. -/
theorem analyze_useful [Scalar α] (model : Model α) (config : AnalysisConfig) (hazard : Formula)
    {budgets : List Nat} {searches : List MaximalSafeSet}
    (hsearches : List.Forall₂ (fun budget search => create model.faults budget = .ok search)
      budgets searches) :
    ∃ states outcome,
      model.analyze config hazard heuristic.recording (searches.map fun search => (search, []))
        budgets.sum = (states, outcome) ∧
      (∀ fuel, budgets.sum ≤ fuel →
        model.analyze config hazard heuristic searches fuel = (states.map Prod.fst, outcome)) ∧
      outcome ≠ .error .unfinished ∧
      List.Forall₂ (fun budget state =>
        Useful model budget state.1 state.2 ∧ Thorough model budget state.1 state.2)
        budgets states := by
  have hdone : (model.analyze config hazard heuristic searches budgets.sum).2 ≠
      .error .unfinished :=
    Model.analyze_bounded heuristic_bounded
      (sum_map_le (hsearches.imp fun _ _ hcreate => (budget_of_create hcreate).le)) _ _ _
  have hviews := Model.analyze_map heuristic.recording_views model config hazard
    (searches.map fun search => (search, [])) budgets.sum
  have hstart : List.Forall₂ (ConductedFor model) budgets
      (searches.map fun search => (search, [])) :=
    List.forall₂_map_right_iff.2
      (hsearches.imp fun _ search hcreate => ⟨search, hcreate, conducted_of_create hcreate⟩)
  have hkept := Model.forall₂_analyze (recording_preserves model) hstart model config hazard
    budgets.sum
  cases hrun : model.analyze config hazard heuristic.recording
      (searches.map fun search => (search, [])) budgets.sum with
  | mk states outcome =>
      rw [hrun, List.map_map, Function.comp_def, List.map_id'] at hviews
      rw [hrun] at hkept
      rw [hviews] at hdone
      refine ⟨states, outcome, rfl, ?_, hdone, hkept.imp ?_⟩
      · intro fuel hfuel
        rw [Model.analyze_of_le hfuel, hviews]
        · rfl
        · rwa [hviews]
      · rintro budget state ⟨start, hstart, h⟩
        exact ⟨h.useful hstart, h.thorough hstart⟩

/-- Four faults of which the first is hazardous, the third never strikes and the fourth always
does. -/
def guarded : Model Rat :=
  .offsets [2, 0, 0, 0] [("F3", .suppressed), ("F4", .forced)]

def guardedSearch (budget : Nat) : MaximalSafeSet :=
  let last := (IndexSet.below 4).diff (.below 3)
  { candidates := (IndexSet.below 2).union last, forced := last, budget }

/-- Two searches suggest all faults that can strike. One goes on below that set until it finds a
safe one; the budget of the other is used up. -/
theorem analyze_useful_guarded :
    List.Forall₂ (fun budget search => create guarded.faults budget = .ok search) [4, 1]
      [guardedSearch 4, guardedSearch 1] ∧
    ∃ states outcome,
      guarded.analyze { traversal := Model.smallRuns } (.atom "hazard") heuristic.recording
        ([guardedSearch 4, guardedSearch 1].map fun search => (search, [])) [4, 1].sum =
          (states, outcome) ∧
      states.map (fun state =>
        (state.1.found.map (·.toList), (suggested state.2).map (·.toList))) =
          [(some [1, 3], [[0, 1, 3], [0, 3], [1, 3]]), (none, [[0, 1, 3]])] ∧
      (∀ fuel, [4, 1].sum ≤ fuel →
        guarded.analyze { traversal := Model.smallRuns } (.atom "hazard") heuristic
          [guardedSearch 4, guardedSearch 1] fuel = (states.map Prod.fst, outcome)) ∧
      outcome ≠ .error .unfinished ∧
      List.Forall₂ (fun budget state =>
        Useful guarded budget state.1 state.2 ∧ Thorough guarded budget state.1 state.2)
        [4, 1] states := by
  have hsearches : List.Forall₂ (fun budget search => create guarded.faults budget = .ok search)
      [4, 1] [guardedSearch 4, guardedSearch 1] := by
    refine .cons ?_ (.cons ?_ .nil)
    · decide +kernel
    · decide +kernel
  have hshown : (guarded.analyze { traversal := Model.smallRuns } (.atom "hazard")
      heuristic.recording
      ([guardedSearch 4, guardedSearch 1].map fun search => (search, [])) [4, 1].sum).1.map
        (fun state => (state.1.found.map (·.toList), (suggested state.2).map (·.toList))) =
      [(some [1, 3], [[0, 1, 3], [0, 3], [1, 3]]), (none, [[0, 1, 3]])] := by
    cbv
  obtain ⟨states, outcome, hrun, hplain, hdone, huseful⟩ :=
    analyze_useful guarded { traversal := Model.smallRuns } (.atom "hazard") hsearches
  rw [hrun] at hshown
  exact ⟨hsearches, states, outcome, hrun, hshown, hplain, hdone, huseful⟩

end MaximalSafeSet

end Hazard
