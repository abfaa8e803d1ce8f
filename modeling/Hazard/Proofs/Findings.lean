import Hazard.Proofs.Criticality
/-!
# Findings that can be relied on

Every check of an analysis asks earlier findings first. Their answer is right as long as criticality
is monotone on the sets that are ever checked, the fit sets. Two choices of fit sets matter: all
valid sets, when criticality is monotone, and the valid sets without a critical proper subset, on
which it always is.
-/

namespace Hazard

structure Model.MonotoneOn {α : Type} [Scalar α] (model : Model α) (config : AnalysisConfig)
    (hazard : Formula) (fit : FaultSet → Prop) : Prop where
  valid : ∀ set, fit set → model.Valid set
  upward : ∀ small large, fit small → fit large → small.isSubset large = true →
    model.Critical config hazard small → model.Critical config hazard large

/-- The findings name fit sets only, on the right side, and have room for every valid set. -/
structure Findings.Honest {α : Type} [Scalar α] (findings : Findings) (model : Model α)
    (config : AnalysisConfig) (hazard : Formula) (fit : FaultSet → Prop) : Prop where
  safe_bucketed : findings.safe.Bucketed
  critical_bucketed : findings.critical.Bucketed
  safe_size : findings.safe.buckets.size = model.faults.length + 1
  critical_size : findings.critical.buckets.size = model.faults.length + 1
  safe : ∀ set ∈ findings.safe.toList, fit set ∧ ¬model.Critical config hazard set
  critical : ∀ set ∈ findings.critical.toList, fit set ∧ model.Critical config hazard set

/-- Some critical set that was found lies inside the set. -/
def Findings.Condemn (findings : Findings) (set : FaultSet) : Prop :=
  ∃ member ∈ findings.critical.toList, member.isSubset set = true

section

variable {α : Type} [Scalar α] {model : Model α} {config : AnalysisConfig} {hazard : Formula}
  {fit : FaultSet → Prop} {inquiry : Inquiry α}

theorem Findings.honest_start (count : Nat) (hcount : count = model.faults.length) :
    (Findings.start count).Honest model config hazard fit := by
  subst hcount
  refine ⟨FaultSetCollection.bucketed_empty _, FaultSetCollection.bucketed_empty _, ?_, ?_, ?_, ?_⟩
  · simp [Findings.start, FaultSetCollection.empty]
  · simp [Findings.start, FaultSetCollection.empty]
  · simp [Findings.start]
  · simp [Findings.start]

/-! ## One check -/

namespace Findings.Honest

variable {findings after : Findings} {set : FaultSet}

theorem verdict?_eq (h : findings.Honest model config hazard fit)
    (hfit : model.MonotoneOn config hazard fit) (hset : fit set) {safe : Bool}
    (hverdict : findings.verdict? set = some safe) :
    (safe = true ↔ ¬model.Critical config hazard set) ∧
      (safe = false → findings.Condemn set) := by
  unfold Findings.verdict? at hverdict
  split at hverdict
  · rename_i hsuperset
    cases hverdict
    obtain ⟨member, hmember, hsub⟩ :=
      (FaultSetCollection.hasSupersetOf_iff h.safe_bucketed).1 hsuperset
    obtain ⟨hmemberFit, hnot⟩ := h.safe member hmember
    refine ⟨⟨fun _ hcritical => hnot ?_, fun _ => rfl⟩, by simp⟩
    exact hfit.upward set member hset hmemberFit hsub hcritical
  · split at hverdict
    · rename_i hsubset
      cases hverdict
      obtain ⟨member, hmember, hsub⟩ :=
        (FaultSetCollection.hasSubsetOf_iff h.critical_bucketed).1 hsubset
      obtain ⟨hmemberFit, hcritical⟩ := h.critical member hmember
      have hset' := hfit.upward member set hmemberFit hset hsub hcritical
      exact ⟨by simp [hset'], fun _ => ⟨member, hmember, hsub⟩⟩
    · cases hverdict

theorem add_safe (h : findings.Honest model config hazard fit) (hset : fit set)
    (hnot : ¬model.Critical config hazard set)
    (hadd : findings.safe.add set = .ok after.safe)
    (hcritical : after.critical = findings.critical) :
    after.Honest model config hazard fit := by
  refine ⟨FaultSetCollection.bucketed_of_add h.safe_bucketed hadd, ?_, ?_, ?_, ?_, ?_⟩
  · rw [hcritical]
    exact h.critical_bucketed
  · rw [FaultSetCollection.size_buckets_of_add hadd]
    exact h.safe_size
  · rw [hcritical]
    exact h.critical_size
  · intro member hmember
    rcases (FaultSetCollection.mem_toList_of_add hadd).1 hmember with hmember | rfl
    · exact h.safe member hmember
    · exact ⟨hset, hnot⟩
  · rw [hcritical]
    exact h.critical

theorem add_critical (h : findings.Honest model config hazard fit) (hset : fit set)
    (hcritical : model.Critical config hazard set)
    (hadd : findings.critical.add set = .ok after.critical) (hsafe : after.safe = findings.safe) :
    after.Honest model config hazard fit := by
  refine ⟨?_, FaultSetCollection.bucketed_of_add h.critical_bucketed hadd, ?_, ?_, ?_, ?_⟩
  · rw [hsafe]
    exact h.safe_bucketed
  · rw [hsafe]
    exact h.safe_size
  · rw [FaultSetCollection.size_buckets_of_add hadd]
    exact h.critical_size
  · rw [hsafe]
    exact h.safe
  · intro member hmember
    rcases (FaultSetCollection.mem_toList_of_add hadd).1 hmember with hmember | rfl
    · exact h.critical member hmember
    · exact ⟨hset, hcritical⟩

theorem congr (h : findings.Honest model config hazard fit) (hsafe : after.safe = findings.safe)
    (hcritical : after.critical = findings.critical) : after.Honest model config hazard fit := by
  obtain ⟨h₁, h₂, h₃, h₄, h₅, h₆⟩ := h
  exact ⟨by rwa [hsafe], by rwa [hcritical], by rwa [hsafe], by rwa [hcritical], by rwa [hsafe],
    by rwa [hcritical]⟩

theorem card_lt (h : findings.Honest model config hazard fit) (hset : model.Valid set) :
    set.card < findings.critical.buckets.size ∧ set.card < findings.safe.buckets.size := by
  have hcard := IndexSet.card_le_of_isSubset_below hset.isSubset_below
  rw [h.safe_size, h.critical_size]
  omega

end Findings.Honest

/-- A check of a fit set gives the right verdict and keeps the findings honest. -/
structure CheckedRightly (model : Model α) (config : AnalysisConfig) (hazard : Formula)
    (fit : FaultSet → Prop) (before after : Findings) (set : FaultSet) (safe : Bool) : Prop where
  verdict : safe = true ↔ ¬model.Critical config hazard set
  honest : after.Honest model config hazard fit
  condemned : safe = false → after.Condemn set
  grown : ∀ member ∈ before.critical.toList, member ∈ after.critical.toList

namespace Inquiry

variable {cardinality : Nat} {findings after : Findings} {set : FaultSet} {safe : Bool}

/-- What a check does: earlier findings decide, or an exploration shows the set critical or safe. -/
inductive Checks (inquiry : Inquiry α) (set : FaultSet) (findings : Findings) :
    Bool → Findings → Prop
  | decided {safe : Bool} {counts : CheckCounts} (hverdict : findings.verdict? set = some safe) :
      Checks inquiry set findings safe { findings with counts }
  | condemned {counts : CheckCounts} {after : Findings} (hnone : findings.verdict? set = none)
      (hmodes : inquiry.exploreModes { findings with counts } set = .ok (false, after)) :
      Checks inquiry set findings false after
  | cleared {counts later : CheckCounts} {larger : FaultSetCollection} (between : Findings)
      (hnone : findings.verdict? set = none)
      (hmodes : inquiry.exploreModes { findings with counts } set = .ok (true, between))
      (hadd : between.safe.add set = .ok larger) :
      Checks inquiry set findings true { between with safe := larger, counts := later }

theorem checks_of_check (h : inquiry.check cardinality findings set = .ok (safe, after)) :
    inquiry.Checks set findings safe after := by
  rw [check_eq] at h
  dsimp only at h
  split at h
  · next verdict hverdict =>
    cases h
    exact .decided hverdict
  · next hnone =>
    obtain ⟨⟨shown, between⟩, hmodes, hrest⟩ := bind_eq_ok.1 h
    cases shown with
    | true =>
        obtain ⟨last, hadd, hpure⟩ := bind_eq_ok.1 hrest
        obtain ⟨larger, hlarger, rfl⟩ := map_eq_ok.1 (mapError_eq_ok.1 hadd)
        cases hpure
        exact .cleared between hnone hmodes hlarger
    | false =>
        cases hrest
        exact .condemned hnone hmodes

theorem Describes.check_rightly (h : inquiry.Describes model config hazard)
    (hfit : model.MonotoneOn config hazard fit)
    (hfindings : findings.Honest model config hazard fit) (hset : fit set)
    (hok : inquiry.check cardinality findings set = .ok (safe, after)) :
    CheckedRightly model config hazard fit findings after set safe := by
  cases checks_of_check hok with
  | decided hverdict =>
      obtain ⟨hright, hcondemned⟩ := hfindings.verdict?_eq hfit hset hverdict
      exact ⟨hright, hfindings.congr rfl rfl, hcondemned, fun _ hmember => hmember⟩
  | condemned _ hmodes =>
      obtain ⟨hverdict, hmarked⟩ := h.of_exploreModes hmodes
      have hcritical : model.Critical config hazard set := ⟨hfit.valid set hset, hverdict⟩
      have hadd := hmarked.critical_add rfl
      refine ⟨by simp [hcritical], ?_, fun _ => ⟨set, ?_, IndexSet.isSubset_refl set⟩,
        fun member hmember => ?_⟩
      · exact hfindings.add_critical hset hcritical hadd hmarked.safe_eq
      · exact (FaultSetCollection.mem_toList_of_add hadd).2 (Or.inr rfl)
      · exact (FaultSetCollection.mem_toList_of_add hadd).2 (Or.inl hmember)
  | cleared between _ hmodes hadd =>
      obtain ⟨hverdict, hmarked⟩ := h.of_exploreModes hmodes
      have hnot : ¬model.Critical config hazard set := by
        rintro ⟨-, hcritical⟩
        rw [hverdict] at hcritical
        cases hcritical
      have hcritical := hmarked.critical_eq rfl
      rw [hmarked.safe_eq] at hadd
      refine ⟨by simp [hnot], ?_, by simp, fun member hmember => ?_⟩
      · exact hfindings.add_safe hset hnot hadd hcritical
      · change member ∈ between.critical.toList
        rwa [hcritical]

theorem Describes.check_succeeds (h : inquiry.Describes model config hazard)
    (hfindings : findings.Honest model config hazard fit) (hset : model.Valid set)
    (hverdict : ∃ safe, model.safe? config hazard set = some safe) (cardinality : Nat) :
    ∃ safe after, inquiry.check cardinality findings set = .ok (safe, after) := by
  obtain ⟨safe, hsafe⟩ := hverdict
  obtain ⟨hcriticalRoom, hsafeRoom⟩ := hfindings.card_lt hset
  rw [check_eq]
  dsimp only
  split
  · exact ⟨_, _, rfl⟩
  · have hroom : set.card < ({ findings with
        counts := findings.counts.suggestion (set.card != cardinality) } :
          Findings).critical.buckets.size := hcriticalRoom
    obtain ⟨between, hbetween⟩ := h.exploreModes_succeeds hsafe hroom
    cases safe with
    | false => exact ⟨false, between, bind_eq_ok.2 ⟨_, hbetween, rfl⟩⟩
    | true =>
        have hsame : between.safe = findings.safe := (h.of_exploreModes hbetween).2.safe_eq
        rw [← hsame] at hsafeRoom
        obtain ⟨larger, hlarger⟩ := FaultSetCollection.add_ok hsafeRoom
        have hadd : (orMisuse (between.addSafe set) : Except (AnalysisError α) Findings) =
            .ok { between with safe := larger } :=
          mapError_eq_ok.2 (map_eq_ok.2 ⟨larger, hlarger, rfl⟩)
        exact ⟨true, _, bind_eq_ok.2 ⟨_, hbetween, bind_eq_ok.2 ⟨_, hadd, rfl⟩⟩⟩

end Inquiry

end

end Hazard
