import Hazard.Proofs.Exploration
/-!
# How states are found

Every stored state has the source from which it was found first as its parent. Sources are expanded
in the order of their indices, so parents ascend with their children: a state that was found later
is not nearer to the start, and the way back along the parents is a shortest one.
-/

namespace Hazard.Traversal

/-- How many origins are expanded before this one. -/
def rank : Origin → Nat
  | none => 0
  | some index => index + 1

theorem rank_injective {left right : Origin} (h : rank left = rank right) : left = right := by
  cases left <;> cases right <;> simp_all [rank]

/-! ## Parents -/

variable {α σ : Type} {scenario : Scenario α} {done : Nat} {vectors : Array Bytes}
  {parents : Array Origin}

/-- What the parents say when the origins up to a rank have been expanded. -/
structure Discovered (scenario : Scenario α) (done : Nat) (vectors : Array Bytes)
    (parents : Array Origin) : Prop where
  size : parents.size = vectors.size
  found : ∀ (index : Nat) (vector : Bytes), vectors[index]? = some vector →
    ∃ origin source, parents[index]? = some origin ∧ Scenario.Source vectors origin source ∧
      scenario.Yields source vector
  older : ∀ index parent : Nat, parents[index]? = some (some parent) → parent < index
  ascending : ∀ (left right : Nat) (first second : Origin), left ≤ right →
    parents[left]? = some first → parents[right]? = some second → rank first ≤ rank second
  expanded : ∀ (index : Nat) (origin : Origin), parents[index]? = some origin → rank origin < done
  /-- What an expanded origin yields was found there or before. -/
  earliest : ∀ (origin : Origin) (source : Option Bytes) (vector : Bytes), rank origin < done →
    Scenario.Source vectors origin source → scenario.Yields source vector →
      ∃ (index : Nat) (parent : Origin), vectors[index]? = some vector ∧
        parents[index]? = some parent ∧ rank parent ≤ rank origin

theorem discovered_nothing (scenario : Scenario α) : Discovered scenario 0 #[] #[] := by
  constructor <;> simp

/-! ## Ways back -/

section Ways

variable {storage : Storage}

/-- The way to an origin; nothing precedes the initial step. -/
def wayTo (storage : Storage) (parents : Array Origin) : Origin → List Bytes
  | none => []
  | some index => trace storage parents index

/-- More fuel than it takes to get back to the start changes nothing. -/
theorem traceBack_fuel (holder : ∀ index parent : Nat,
      parents[index]? = some (some parent) → parent < index)
    {index fuel more : Nat} (hfuel : index < fuel) (hmore : index < more) :
    traceBack storage parents fuel index = traceBack storage parents more index := by
  induction fuel generalizing index more with
  | zero => omega
  | succ fuel ih =>
      cases more with
      | zero => omega
      | succ more =>
          rw [traceBack, traceBack]
          cases hparent : (parents[index]?).join with
          | none => rfl
          | some parent =>
              have hlt := holder index parent (Option.join_eq_some_iff.1 hparent)
              simp only [ih (show parent < fuel by omega) (show parent < more by omega)]

theorem Discovered.trace_eq (h : Discovered scenario done storage.vectors parents) {index : Nat}
    {state : Bytes} {origin : Origin}
    (hindex : storage.vectors[index]? = some (regular :: state))
    (hparent : parents[index]? = some origin) :
    trace storage parents index = wayTo storage parents origin ++ [state] := by
  have hstate : modelState? (regular :: state) = some state := rfl
  rw [trace, traceBack, hindex, hparent]
  cases origin with
  | none => simp [wayTo, hstate]
  | some parent =>
      have hlt := h.older index parent hparent
      simp only [Option.join_some, Option.bind_some, hstate, Option.toList_some,
        List.singleton_append, List.reverse_cons]
      rw [traceBack_fuel h.older hlt (Nat.lt_succ_self parent)]
      rfl

variable (hregular : ∀ vector ∈ storage.vectors, ∃ state, vector = regular :: state)

include hregular

theorem Discovered.exists_parent (h : Discovered scenario done storage.vectors parents)
    {index : Nat} (hindex : index < storage.vectors.size) :
    ∃ origin state, storage.vectors[index]? = some (regular :: state) ∧
      parents[index]? = some origin ∧ rank origin < rank (some index) ∧
      trace storage parents index = wayTo storage parents origin ++ [state] := by
  have hvector := Array.getElem?_eq_getElem hindex
  obtain ⟨state, hstate⟩ := hregular _ (Array.mem_of_getElem? hvector)
  rw [hstate] at hvector
  obtain ⟨origin, -, hparent, -⟩ := h.found index _ hvector
  refine ⟨origin, state, hvector, hparent, ?_, h.trace_eq hvector hparent⟩
  cases origin with
  | none => exact Nat.succ_pos index
  | some parent => exact Nat.succ_lt_succ (h.older index parent hparent)

/-- A state that was found later is not nearer to the start. -/
theorem Discovered.length_wayTo_le (h : Discovered scenario done storage.vectors parents)
    {left right : Origin} (hright : rank right ≤ storage.vectors.size)
    (hle : rank left ≤ rank right) :
    (wayTo storage parents left).length ≤ (wayTo storage parents right).length := by
  induction hrank : rank right using Nat.strongRecOn generalizing left right with
  | ind number ih =>
      subst hrank
      cases left with
      | none => exact Nat.zero_le _
      | some first =>
          cases right with
          | none => exact absurd hle (Nat.not_succ_le_zero first)
          | some second =>
              have hfirst : first ≤ second := Nat.le_of_succ_le_succ hle
              have hsecond : second < storage.vectors.size := hright
              obtain ⟨left, leftState, -, hleft, -, hleftWay⟩ :=
                h.exists_parent hregular (show first < storage.vectors.size by omega)
              obtain ⟨right, rightState, -, hparent, hlower, hrightWay⟩ :=
                h.exists_parent hregular hsecond
              have hparents := h.ascending first second left right hfirst hleft hparent
              have := ih (rank right) hlower (by omega) hparents rfl
              simpa [wayTo, hleftWay, hrightWay] using this

end Ways

/-! ## Finding more -/

variable [Scalar α] {plan : Plan α σ} {origin : Origin} {batch : List (Transition α)}
  {added : List Bytes} {before after : Exploration σ}

theorem Expands.parent_cases (h : Expands plan origin batch added before after) {index : Nat}
    {parent : Origin} (hparent : after.parents[index]? = some parent) :
    before.parents[index]? = some parent ∨ parent = origin ∧ before.parents.size ≤ index := by
  rcases Scenario.getElem?_append_cases h.parents hparent with hold | ⟨hnew, hge⟩
  · exact .inl hold
  · exact .inr ⟨List.eq_of_mem_replicate hnew, hge⟩

theorem Expands.source_before (h : Expands plan origin batch added before after)
    (hdone : rank origin ≤ before.storage.vectors.size) {other : Origin} {source : Option Bytes}
    (hother : rank other < rank origin)
    (hsource : Scenario.Source after.storage.vectors other source) :
    Scenario.Source before.storage.vectors other source := by
  cases hsource with
  | initial => exact .initial
  | @state index state hindex =>
      rcases Scenario.getElem?_append_cases h.vectors hindex with hold | ⟨-, hge⟩
      · exact .state hold
      · have hrank : rank (some index) = index + 1 := rfl
        omega

section Step

variable (hexpands : Expands plan origin batch added before after)
  (h : Discovered plan.scenario (rank origin) before.storage.vectors before.parents)

include hexpands h

theorem Discovered.size_step : after.parents.size = after.storage.vectors.size := by
  have hvectors := congrArg List.length hexpands.vectors
  have hparents := congrArg List.length hexpands.parents
  simp only [Array.length_toList, List.length_append, List.length_replicate] at hvectors hparents
  rw [hvectors, hparents, h.size]

theorem Discovered.expanded_step (index : Nat) (parent : Origin)
    (hparent : after.parents[index]? = some parent) : rank parent < rank origin + 1 := by
  rcases hexpands.parent_cases hparent with hold | ⟨rfl, -⟩
  · have := h.expanded index parent hold
    omega
  · omega

theorem Discovered.exists_parent_step {index : Nat} {vector : Bytes}
    (hvector : after.storage.vectors[index]? = some vector) :
    ∃ parent, after.parents[index]? = some parent := by
  have hlt : index < after.parents.size := by
    rw [Discovered.size_step hexpands h]
    exact (Array.getElem?_eq_some_iff.1 hvector).1
  exact ⟨_, Array.getElem?_eq_getElem hlt⟩

theorem Discovered.parent_step {index : Nat} {vector : Bytes}
    (hvector : after.storage.vectors[index]? = some vector)
    (hnew : before.storage.vectors.size ≤ index) : after.parents[index]? = some origin := by
  obtain ⟨parent, hparent⟩ := Discovered.exists_parent_step hexpands h hvector
  rcases hexpands.parent_cases hparent with hold | ⟨rfl, -⟩
  · have hlt := (Array.getElem?_eq_some_iff.1 hold).1
    have hsize := h.size
    omega
  · exact hparent

theorem Discovered.step (hdone : rank origin ≤ before.storage.vectors.size) :
    Discovered plan.scenario (rank origin + 1) after.storage.vectors after.parents := by
  have hsize := h.size
  constructor
  · exact Discovered.size_step hexpands h
  · intro index vector hvector
    rcases Scenario.getElem?_append_cases hexpands.vectors hvector with hold | ⟨hnew, hge⟩
    · obtain ⟨parent, source, hfound, hsource, hyields⟩ := h.found index vector hold
      exact ⟨parent, source, Scenario.getElem?_of_append hexpands.parents hfound,
        hsource.append hexpands.vectors, hyields⟩
    · obtain ⟨source, hsource, hyields⟩ := hexpands.yields vector hnew
      exact ⟨origin, source, Discovered.parent_step hexpands h hvector hge,
        hsource.append hexpands.vectors, hyields⟩
  · intro index parent hparent
    rcases hexpands.parent_cases hparent with hold | ⟨rfl, hge⟩
    · exact h.older index parent hold
    · have hrank : rank (some parent) = parent + 1 := rfl
      omega
  · intro left right first second hle hfirst hsecond
    rcases hexpands.parent_cases hsecond with hold | ⟨rfl, -⟩
    · rcases hexpands.parent_cases hfirst with hfirst | ⟨-, hge⟩
      · exact h.ascending left right first second hle hfirst hold
      · have hlt := (Array.getElem?_eq_some_iff.1 hold).1
        omega
    · exact Nat.le_of_lt_succ (Discovered.expanded_step hexpands h left first hfirst)
  · exact Discovered.expanded_step hexpands h
  · intro other source vector hother hsource hyields
    rcases Nat.lt_or_ge (rank other) (rank origin) with hlt | hge
    · obtain ⟨index, parent, hindex, hfound, hle⟩ := h.earliest other source vector hlt
        (hexpands.source_before hdone hlt hsource) hyields
      exact ⟨index, parent, Scenario.getElem?_of_append hexpands.vectors hindex,
        Scenario.getElem?_of_append hexpands.parents hfound, hle⟩
    · have heq : other = origin := rank_injective (by omega)
      subst heq
      obtain ⟨transition, -, htarget⟩ := hexpands.isBatch.exists_transition hsource hyields
      obtain ⟨parent, hfound⟩ := Discovered.exists_parent_step hexpands h htarget
      exact ⟨transition.target, parent, htarget, hfound,
        Nat.le_of_lt_succ (Discovered.expanded_step hexpands h transition.target parent hfound)⟩

end Step

/-! ## Every exploration -/

variable {source steps : Nat} {watcher : σ}

def Progressed (plan : Plan α σ) (watcher : σ) (steps : Nat) (exploration : Exploration σ) : Prop :=
  Discovered plan.scenario (steps + 1) exploration.storage.vectors exploration.parents ∧
    ∃ stream, Explored plan watcher steps stream exploration

theorem progressed_initial {storage : Storage} (hsound : storage.Sound)
    (hempty : storage.vectors = #[])
    (h : expandInitial plan ⟨storage, #[], ⟨[], 0, false, watcher⟩⟩ = .ok after) :
    Progressed plan watcher 0 after := by
  obtain ⟨batch, added, hexpands⟩ := expands_of_expandInitial hsound h
  have hnothing : Discovered plan.scenario (rank none) storage.vectors #[] := by
    rw [hempty]
    exact discovered_nothing _
  exact ⟨hnothing.step hexpands (Nat.zero_le _), _, explored_of_initial hexpands hempty rfl⟩

theorem Progressed.step {rest : List Nat} (hbefore : Progressed plan watcher steps before)
    (hpending : before.agenda.pending = source :: rest)
    (hexpand : expand plan (pop before rest) source = .ok after) :
    Progressed plan watcher (steps + 1) after := by
  obtain ⟨hdiscovered, stream, hexplored⟩ := hbefore
  obtain ⟨batch, added, hexpands⟩ := hexplored.expands hexpand
  have hnext := hexplored.step hpending hexpands
  obtain ⟨rfl, hlt, -⟩ := hexplored.source_eq hpending
  rw [hexplored.sound.size_eq] at hlt
  exact ⟨hdiscovered.step hexpands hlt, _, hnext⟩

theorem discovered_of_traverse {model : Model α} {config : TraversalConfig}
    {options : TraversalOptions α} {observer : Observer α σ} {space : StateSpace} {final : σ}
    (h : traverse model config options observer watcher = .ok (space, final)) :
    ∃ activations done, model.activateAll (options.activations.getD []) = .ok activations ∧
      Discovered ⟨model, activations, options.modifiers⟩ done space.storage.vectors
        space.parents := by
  obtain ⟨activations, storage, started, done, hactivations, -, hsound, hempty, -, hstarted,
    hdone, rfl, -⟩ := traverse_eq_ok h
  obtain ⟨last, hlast, -⟩ := run_keeps (motive := Progressed _ watcher)
    (fun _ _ _ _ _ hbefore hpending _ => hbefore.step hpending)
    (progressed_initial hsound hempty hstarted) hdone
  exact ⟨activations, last + 1, hactivations, hlast.1⟩

end Hazard.Traversal
