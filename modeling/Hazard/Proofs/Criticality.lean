import Hazard.Analysis.Search
import Hazard.Proofs.Except
import Hazard.Proofs.FaultSetCollection
import Hazard.Proofs.PowerSetLevel
/-!
# Criticality of fault sets

What it means for a fault set to be valid and to be critical, said about a model and a hazard and
not about any search. The checks of an analysis are then described in these terms.
-/

namespace Hazard

/-! ## Valid and critical sets -/

namespace Model

variable {α : Type}

/-- The set names faults of the model only, all its forced faults and none of its suppressed
ones. -/
structure Valid (model : Model α) (set : FaultSet) : Prop where
  declared : ∀ position, set.contains position = true → position < model.faults.length
  forced : ∀ position fault, model.faults[position]? = some fault →
    fault.activation = .forced → set.contains position = true
  suppressed : ∀ position fault, model.faults[position]? = some fault →
    fault.activation = .suppressed → set.contains position = false

theorem Valid.isSubset_below {model : Model α} {set : FaultSet} (h : model.Valid set) :
    set.isSubset (.below model.faults.length) = true := by
  rw [IndexSet.isSubset_iff]
  intro position hposition
  exact (IndexSet.contains_below _ _).2
    ⟨h.declared position hposition, IndexSet.lt_of_contains hposition⟩

/-- The activations under which the faults of a set strike in the given mode and no other
nondeterministic fault strikes. -/
def activationsUnder (model : Model α) (set : FaultSet) (mode : Activation) : List Activation :=
  model.faults.zipIdx.map fun (fault, position) =>
    if fault.activation ≠ .nondeterministic then fault.activation
    else if set.contains position then mode
    else .suppressed

variable [Scalar α]

/-- Whether the hazard is impossible while the faults of a set strike in one mode. A failure of the
model is as bad as the hazard; there is no verdict if the exploration gives up. -/
def safeIn? (model : Model α) (config : AnalysisConfig) (hazard : Formula) (set : FaultSet)
    (mode : Activation) : Option Bool :=
  match model.checkInvariant config.traversal hazard.not
      (some (model.activationsUnder set mode)) with
  | .ok result => some result.holds
  | .error (.model _ _ _) => some false
  | .error _ => none

/-- Whether the hazard is impossible under the configured behaviour of the faults of a set. -/
def safe? (model : Model α) (config : AnalysisConfig) (hazard : Formula) (set : FaultSet) :
    Option Bool :=
  match config.behaviour with
  | .forceOnly => model.safeIn? config hazard set .forced
  | .nondeterministic => model.safeIn? config hazard set .nondeterministic
  | .forceThenFallback =>
    match model.safeIn? config hazard set .forced with
    | some true => model.safeIn? config hazard set .nondeterministic
    | verdict => verdict

/-- The set is valid, and its check finds a violation or a failure of the model. -/
def Critical (model : Model α) (config : AnalysisConfig) (hazard : Formula) (set : FaultSet) :
    Prop :=
  model.Valid set ∧ model.safe? config hazard set = some false

def MinimalCritical (model : Model α) (config : AnalysisConfig) (hazard : Formula)
    (set : FaultSet) : Prop :=
  model.Critical config hazard set ∧ FaultSet.ClearBelow (model.Critical config hazard) set

theorem exists_minimalCritical {model : Model α} {config : AnalysisConfig} {hazard : Formula}
    {set : FaultSet} (hset : model.Critical config hazard set) :
    ∃ least : FaultSet, least.isSubset set = true ∧
      model.MinimalCritical config hazard least := by
  induction hcard : set.card using Nat.strong_induction_on generalizing set with
  | _ size ih =>
      by_cases hbelow : FaultSet.ClearBelow (model.Critical config hazard) set
      · exact ⟨set, IndexSet.isSubset_refl set, hset, hbelow⟩
      · simp only [FaultSet.ClearBelow, not_forall] at hbelow
        obtain ⟨sub, hsub, hcritical, hne⟩ := hbelow
        have hsmaller : sub.card < size := by
          by_contra hlarge
          exact hne (IndexSet.eq_of_isSubset_of_card_le hsub (by omega))
        obtain ⟨least, hleast, hminimal⟩ := ih sub.card hsmaller hcritical rfl
        exact ⟨least, IndexSet.isSubset_trans hleast hsub, hminimal⟩

end Model

/-! ## What an analysis is about -/

namespace FaultSet

theorem ofList_spec {positions : List Nat} (hpositions : ∀ position ∈ positions, position < 64) :
    ∃ set, ofList positions = .ok set ∧
      ∀ position, set.contains position = true ↔ position ∈ positions := by
  obtain ⟨set, hset, -, hmembers⟩ : ∃ set, positions.foldlM adjoin .empty = .ok set ∧
      (∀ position ∈ ([] : List Nat), position < 64) ∧
      ∀ position, set.contains position = true ∨ position ∈ ([] : List Nat) ↔
        position ∈ positions := by
    apply foldlM_succeeds (motive := fun (rest : List Nat) (set : FaultSet) =>
      (∀ position ∈ rest, position < 64) ∧ ∀ position,
        set.contains position = true ∨ position ∈ rest ↔ position ∈ positions)
    · rintro first rest set ⟨hrest, hmembers⟩
      have hfirst : first < 64 := hrest first (by simp)
      refine ⟨set.insert ⟨first, hfirst⟩, by simp [adjoin, index, hfirst, Except.map], ?_, ?_⟩
      · exact fun position hposition => hrest position (List.mem_cons_of_mem _ hposition)
      · intro position
        rw [← hmembers position, IndexSet.contains_insert, List.mem_cons, Bool.or_eq_true,
          decide_eq_true_eq, or_assoc]
    · exact ⟨hpositions, by simp⟩
  exact ⟨set, hset, by simpa using hmembers⟩

theorem lt_of_ofList {positions : List Nat} {set : FaultSet} (h : ofList positions = .ok set) :
    ∀ position ∈ positions, position < 64 := by
  have hall : ∀ position ∈ positions, position < 64 ∨ position ∈ ([] : List Nat) := by
    refine foldlM_keeps (motive := fun (rest : List Nat) (_ : FaultSet) =>
      ∀ position ∈ positions, position < 64 ∨ position ∈ rest) ?_ (fun _ => .inr) h
    intro first rest set next hrest hstep position hposition
    rcases hrest position hposition with hlt | hmem
    · exact .inl hlt
    · rcases List.mem_cons.1 hmem with rfl | hmem
      · obtain ⟨fault, hfault, -⟩ := map_eq_ok.1 hstep
        unfold index at hfault
        split at hfault
        · rename_i hinside
          exact .inl hinside
        · cases hfault
      · exact .inr hmem
  simpa using hall

variable {α : Type}

theorem mem_declaredPositions {faults : List (Fault α)} {activation : Activation}
    {position : Nat} :
    position ∈ declaredPositions faults activation ↔
      ∃ fault, faults[position]? = some fault ∧ fault.activation = activation := by
  simp only [declaredPositions, List.mem_map, List.mem_filter, decide_eq_true_eq]
  constructor
  · rintro ⟨⟨fault, other⟩, ⟨hfault, hactivation⟩, rfl⟩
    exact ⟨fault, List.mem_zipIdx_iff_getElem?.1 hfault, hactivation⟩
  · rintro ⟨fault, hfault, hactivation⟩
    exact ⟨(fault, position), ⟨List.mem_zipIdx_iff_getElem?.2 hfault, hactivation⟩, rfl⟩

theorem declared_spec {faults : List (Fault α)} (hcount : faults.length ≤ 64)
    (activation : Activation) :
    ∃ set, declared faults activation = .ok set ∧
      ∀ position, set.contains position = true ↔
        ∃ fault, faults[position]? = some fault ∧ fault.activation = activation := by
  have hpositions : ∀ position ∈ declaredPositions faults activation, position < 64 := by
    intro position hposition
    obtain ⟨fault, hfault, -⟩ := mem_declaredPositions.1 hposition
    obtain ⟨hlt, -⟩ := List.getElem?_eq_some_iff.1 hfault
    omega
  obtain ⟨set, hset, hmembers⟩ := ofList_spec hpositions
  exact ⟨set, hset, fun position => (hmembers position).trans mem_declaredPositions⟩

theorem contains_of_declared {faults : List (Fault α)} {activation : Activation}
    {set : FaultSet} (h : declared faults activation = .ok set) (position : Nat) :
    set.contains position = true ↔
      ∃ fault, faults[position]? = some fault ∧ fault.activation = activation := by
  obtain ⟨other, hother, hmembers⟩ := ofList_spec (lt_of_ofList h)
  cases h.symm.trans hother
  exact (hmembers position).trans mem_declaredPositions

end FaultSet

namespace Model

variable {α : Type} {model : Model α}

theorem exists_valid (hcount : model.faults.length ≤ 64) : ∃ set, model.Valid set := by
  obtain ⟨set, -, hset⟩ := FaultSet.declared_spec hcount .forced
  refine ⟨set, fun position hposition => ?_, fun position fault hfault hforced => ?_,
    fun position fault hfault hsuppressed => ?_⟩
  · obtain ⟨fault, hfault, -⟩ := (hset position).1 hposition
    exact (List.getElem?_eq_some_iff.1 hfault).1
  · exact (hset position).2 ⟨fault, hfault, hforced⟩
  · rw [← Bool.not_eq_true, hset position]
    rintro ⟨other, hother, hforced⟩
    rw [hfault] at hother
    cases hother
    rw [hsuppressed] at hforced
    cases hforced

theorem exists_compile_of_safe? [Scalar α] {config : AnalysisConfig} {hazard : Formula}
    {set : FaultSet} {safe : Bool}
    (hsafe : model.safe? config hazard set = some safe) :
    ∃ predicate, Predicate.compile hazard.not model.propositions = .ok predicate := by
  cases hcompile : Predicate.compile hazard.not model.propositions with
  | ok predicate => exact ⟨predicate, rfl⟩
  | error error =>
      have hnone : ∀ mode, model.safeIn? config hazard set mode = none := by
        intro mode
        simp [safeIn?, checkInvariant, hcompile]
      unfold safe? at hsafe
      simp only [hnone] at hsafe
      split at hsafe
      · cases hsafe
      · cases hsafe
      · cases hsafe

end Model

namespace Inquiry

variable {α : Type}

structure Describes (inquiry : Inquiry α) (model : Model α) (config : AnalysisConfig)
    (hazard : Formula) : Prop where
  model_eq : inquiry.model = model
  traversal_eq : inquiry.traversal = config.traversal
  behaviour_eq : inquiry.behaviour = config.behaviour
  invariant_eq : inquiry.invariant = hazard.not
  count_le : model.faults.length ≤ 64
  all_eq : inquiry.all = .below model.faults.length
  mem_forced : ∀ position, inquiry.forced.contains position = true ↔
    ∃ fault, model.faults[position]? = some fault ∧ fault.activation = .forced
  mem_suppressed : ∀ position, inquiry.suppressed.contains position = true ↔
    ∃ fault, model.faults[position]? = some fault ∧ fault.activation = .suppressed
  mem_nondeterministic : ∀ position, inquiry.nondeterministic.contains position = true ↔
    ∃ fault, model.faults[position]? = some fault ∧ fault.activation = .nondeterministic

variable {inquiry : Inquiry α} {model : Model α} {config : AnalysisConfig} {hazard : Formula}

theorem describes_of_inquire (h : model.inquire config hazard = .ok inquiry) :
    inquiry.Describes model config hazard := by
  unfold Model.inquire at h
  split at h
  · cases h
  · rename_i hlimit
    have hcount : model.faults.length ≤ 64 := Nat.not_lt.1 hlimit
    split at h
    · cases h
    · obtain ⟨forced, hforced, hforcedMembers⟩ := FaultSet.declared_spec hcount .forced
      obtain ⟨suppressed, hsuppressed, hsuppressedMembers⟩ :=
        FaultSet.declared_spec hcount .suppressed
      obtain ⟨free, hfree, hfreeMembers⟩ := FaultSet.declared_spec hcount .nondeterministic
      dsimp only at h
      rw [hforced, hsuppressed, hfree] at h
      cases h
      exact ⟨rfl, rfl, rfl, rfl, hcount, rfl, hforcedMembers, hsuppressedMembers, hfreeMembers⟩

theorem exists_inquire (hcount : model.faults.length ≤ 64)
    (hcompile : ∃ predicate, Predicate.compile hazard.not model.propositions = .ok predicate) :
    ∃ inquiry, model.inquire config hazard = .ok inquiry := by
  obtain ⟨predicate, hpredicate⟩ := hcompile
  obtain ⟨forced, hforced, -⟩ := FaultSet.declared_spec hcount .forced
  obtain ⟨suppressed, hsuppressed, -⟩ := FaultSet.declared_spec hcount .suppressed
  obtain ⟨free, hfree, -⟩ := FaultSet.declared_spec hcount .nondeterministic
  have hlimit : ¬IndexSet.limit < model.faults.length := Nat.not_lt.2 hcount
  unfold Model.inquire
  rw [if_neg hlimit, hpredicate]
  dsimp only
  rw [hforced, hsuppressed, hfree]
  exact ⟨_, rfl⟩

theorem Describes.excludes_eq_false (h : inquiry.Describes model config hazard) {set : FaultSet} :
    inquiry.excludes set = false ↔ model.Valid set := by
  simp only [excludes, Bool.or_eq_false_iff, Bool.not_eq_false', h.all_eq]
  rw [IndexSet.isSubset_iff, IndexSet.isSubset_iff, ← Bool.not_eq_true, IndexSet.meets_iff]
  constructor
  · rintro ⟨⟨hforced, hsuppressed⟩, hall⟩
    refine ⟨fun position hposition => ?_, fun position fault hfault hactivation => ?_,
      fun position fault hfault hactivation => ?_⟩
    · exact ((IndexSet.contains_below _ _).1 (hall position hposition)).1
    · exact hforced position ((h.mem_forced position).2 ⟨fault, hfault, hactivation⟩)
    · by_contra hcontains
      refine hsuppressed ⟨position, by simpa using hcontains, ?_⟩
      exact (h.mem_suppressed position).2 ⟨fault, hfault, hactivation⟩
  · intro hvalid
    refine ⟨⟨fun position hposition => ?_, ?_⟩, fun position hposition => ?_⟩
    · obtain ⟨fault, hfault, hactivation⟩ := (h.mem_forced position).1 hposition
      exact hvalid.forced position fault hfault hactivation
    · rintro ⟨position, hset, hposition⟩
      obtain ⟨fault, hfault, hactivation⟩ := (h.mem_suppressed position).1 hposition
      rw [hvalid.suppressed position fault hfault hactivation] at hset
      exact absurd hset (by simp)
    · exact (IndexSet.contains_below _ _).2
        ⟨hvalid.declared position hposition, IndexSet.lt_of_contains hposition⟩

theorem Describes.activations_eq (h : inquiry.Describes model config hazard) (set : FaultSet)
    (mode : Activation) :
    set.activations model.faults inquiry.nondeterministic mode =
      model.activationsUnder set mode := by
  apply List.map_congr_left
  rintro ⟨fault, position⟩ hfault
  have hat : model.faults[position]? = some fault := List.mem_zipIdx_iff_getElem?.1 hfault
  have hcandidate : inquiry.nondeterministic.contains position = true ↔
      fault.activation = .nondeterministic := by
    rw [h.mem_nondeterministic position]
    constructor
    · rintro ⟨other, hother, hactivation⟩
      rw [hat] at hother
      cases hother
      exact hactivation
    · exact fun hactivation => ⟨fault, hat, hactivation⟩
  by_cases hactivation : fault.activation = .nondeterministic
  · simp [hactivation, hcandidate.2 hactivation]
  · have hnot : inquiry.nondeterministic.contains position = false := by
      rw [← Bool.not_eq_true, hcandidate]
      exact hactivation
    simp [hactivation, hnot]

/-! ## Checks -/

variable [Scalar α]

/-- What an exploration with a verdict on a set does to the collections. -/
structure Marked (before after : Findings) (set : FaultSet) (safe : Bool) : Prop where
  safe_eq : after.safe = before.safe
  critical_eq : safe = true → after.critical = before.critical
  critical_add : safe = false → before.critical.add set = .ok after.critical

theorem Describes.of_explore (h : inquiry.Describes model config hazard)
    {findings after : Findings} {set : FaultSet} {mode : Activation} {safe : Bool}
    (hok : inquiry.explore findings set mode = .ok (safe, after)) :
    model.safeIn? config hazard set mode = some safe ∧ Marked findings after set safe := by
  rw [explore_eq] at hok
  unfold conclude at hok
  simp only [h.model_eq, h.traversal_eq, h.invariant_eq, h.activations_eq] at hok
  unfold Model.safeIn?
  generalize model.checkInvariant config.traversal hazard.not
    (some (model.activationsUnder set mode)) = outcome at hok ⊢
  match outcome with
  | .ok result =>
      dsimp only at hok
      split at hok
      · rename_i hnone
        cases hok
        exact ⟨by simp [InvariantResult.holds, hnone], rfl, fun _ => rfl, by simp⟩
      · rename_i counterexample hsome
        obtain ⟨marked, hmarked, hpure⟩ := bind_eq_ok.1 hok
        obtain ⟨critical, hadd, rfl⟩ := map_eq_ok.1 (mapError_eq_ok.1 hmarked)
        cases hpure
        exact ⟨by simp [InvariantResult.holds, hsome], rfl, by simp, fun _ => hadd⟩
  | .error (.model origin trace error) =>
      obtain ⟨marked, hmarked, hpure⟩ := bind_eq_ok.1 hok
      obtain ⟨critical, hadd, rfl⟩ := map_eq_ok.1 (mapError_eq_ok.1 hmarked)
      cases hpure
      refine ⟨rfl, ?_, by simp, fun _ => ?_⟩
      · split
        · rfl
        · rfl
      · split
        · exact hadd
        · exact hadd

omit [Scalar α] in
theorem orMisuse_addCritical {findings : Findings} {set : FaultSet} {critical : FaultSetCollection}
    (hadd : findings.critical.add set = .ok critical) :
    (orMisuse (findings.addCritical set) : Except (AnalysisError α) Findings) =
      .ok { findings with critical } :=
  mapError_eq_ok.2 (map_eq_ok.2 ⟨critical, hadd, rfl⟩)

theorem Describes.explore_succeeds (h : inquiry.Describes model config hazard)
    {findings : Findings} {set : FaultSet} {mode : Activation} {safe : Bool}
    (hverdict : model.safeIn? config hazard set mode = some safe)
    (hroom : set.card < findings.critical.buckets.size) :
    ∃ after, inquiry.explore findings set mode = .ok (safe, after) := by
  obtain ⟨critical, hadd⟩ := FaultSetCollection.add_ok hroom
  unfold Model.safeIn? at hverdict
  rw [explore_eq]
  unfold conclude
  simp only [h.model_eq, h.traversal_eq, h.invariant_eq, h.activations_eq]
  generalize model.checkInvariant config.traversal hazard.not
    (some (model.activationsUnder set mode)) = outcome at hverdict ⊢
  match outcome with
  | .ok result =>
      cases hverdict
      cases hcounterexample : result.counterexample with
      | none => simp [InvariantResult.holds, hcounterexample]
      | some counterexample =>
          simp only [InvariantResult.holds, hcounterexample]
          exact ⟨_, bind_eq_ok.2 ⟨_, orMisuse_addCritical hadd, rfl⟩⟩
  | .error (.model origin trace error) =>
      cases hverdict
      exact ⟨_, bind_eq_ok.2 ⟨_, orMisuse_addCritical hadd, rfl⟩⟩

theorem Describes.of_exploreModes (h : inquiry.Describes model config hazard)
    {findings after : Findings} {set : FaultSet} {safe : Bool}
    (hok : inquiry.exploreModes findings set = .ok (safe, after)) :
    model.safe? config hazard set = some safe ∧ Marked findings after set safe := by
  rw [exploreModes_eq] at hok
  unfold Model.safe?
  rw [h.behaviour_eq] at hok
  cases hbehaviour : config.behaviour with
  | forceOnly =>
      rw [hbehaviour] at hok
      exact h.of_explore hok
  | nondeterministic =>
      rw [hbehaviour] at hok
      exact h.of_explore hok
  | forceThenFallback =>
      rw [hbehaviour] at hok
      obtain ⟨⟨forcedSafe, between⟩, hforced, hrest⟩ := bind_eq_ok.1 hok
      obtain ⟨hverdict, hmarked⟩ := h.of_explore hforced
      rw [hverdict]
      cases forcedSafe with
      | false =>
          cases hrest
          exact ⟨rfl, hmarked⟩
      | true =>
          obtain ⟨hverdict', hmarked'⟩ := h.of_explore hrest
          refine ⟨hverdict', hmarked'.safe_eq.trans hmarked.safe_eq, fun hsafe => ?_,
            fun hsafe => ?_⟩
          · exact (hmarked'.critical_eq hsafe).trans (hmarked.critical_eq rfl)
          · rw [← hmarked.critical_eq rfl]
            exact hmarked'.critical_add hsafe

theorem Describes.exploreModes_succeeds (h : inquiry.Describes model config hazard)
    {findings : Findings} {set : FaultSet} {safe : Bool}
    (hverdict : model.safe? config hazard set = some safe)
    (hroom : set.card < findings.critical.buckets.size) :
    ∃ after, inquiry.exploreModes findings set = .ok (safe, after) := by
  unfold Model.safe? at hverdict
  rw [exploreModes_eq]
  rw [h.behaviour_eq]
  cases hbehaviour : config.behaviour with
  | forceOnly =>
      rw [hbehaviour] at hverdict
      exact h.explore_succeeds hverdict hroom
  | nondeterministic =>
      rw [hbehaviour] at hverdict
      exact h.explore_succeeds hverdict hroom
  | forceThenFallback =>
      rw [hbehaviour] at hverdict
      cases hforcedVerdict : model.safeIn? config hazard set .forced with
      | none => simp [hforcedVerdict] at hverdict
      | some forcedSafe =>
          obtain ⟨between, hforced⟩ := h.explore_succeeds hforcedVerdict hroom
          cases forcedSafe with
          | false =>
              have hsafe : safe = false := by simpa [hforcedVerdict] using hverdict.symm
              subst hsafe
              exact ⟨between, bind_eq_ok.2 ⟨_, hforced, rfl⟩⟩
          | true =>
              have hcritical := (h.of_explore hforced).2.critical_eq rfl
              rw [← hcritical] at hroom
              have hverdict' : model.safeIn? config hazard set .nondeterministic = some safe := by
                simpa [hforcedVerdict] using hverdict
              obtain ⟨after, hafter⟩ := h.explore_succeeds hverdict' hroom
              exact ⟨after, bind_eq_ok.2 ⟨_, hforced, hafter⟩⟩

end Inquiry

end Hazard
