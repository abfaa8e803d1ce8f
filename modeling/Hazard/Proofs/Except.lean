import Hazard.Misuse
/-!
# Computations that may fail

What a successful run of a sequence or of a fold says about its steps.
-/

namespace Hazard

variable {ε ε' α β σ : Type}

theorem bind_eq_ok {first : Except ε α} {next : α → Except ε β} {result : β} :
    (first >>= next) = .ok result ↔ ∃ value, first = .ok value ∧ next value = .ok result := by
  cases first with
  | error error => simp [bind, Except.bind]
  | ok value => simp [bind, Except.bind]

theorem bind_eq_error {first : Except ε α} {next : α → Except ε β} {error : ε} :
    (first >>= next) = .error error ↔
      first = .error error ∨ ∃ value, first = .ok value ∧ next value = .error error := by
  cases first with
  | error error => simp [bind, Except.bind]
  | ok value => simp [bind, Except.bind]

theorem map_eq_ok {first : Except ε α} {change : α → β} {result : β} :
    first.map change = .ok result ↔ ∃ value, first = .ok value ∧ change value = result := by
  cases first with
  | error error => simp [Except.map]
  | ok value => simp [Except.map]

theorem toOption_eq_some {first : Except ε α} {result : α} :
    first.toOption = some result ↔ first = .ok result := by
  cases first with
  | error error => simp [Except.toOption]
  | ok value => simp [Except.toOption]

theorem mapError_eq_ok {first : Except ε α} {change : ε → ε'} {result : α} :
    first.mapError change = .ok result ↔ first = .ok result := by
  cases first with
  | error error => exact ⟨nofun, nofun⟩
  | ok value =>
      constructor
      · rintro ⟨⟩
        rfl
      · rintro ⟨⟩
        rfl

theorem forM_eq_ok {check : α → Except ε Unit} {items : List α} :
    items.forM check = .ok () ↔ ∀ item ∈ items, check item = .ok () := by
  induction items with
  | nil => exact ⟨fun _ _ h => by simp at h, fun _ => rfl⟩
  | cons item rest ih =>
      change (check item >>= fun _ => rest.forM check) = _ ↔ _
      rw [bind_eq_ok, List.forall_mem_cons, ← ih]
      constructor
      · rintro ⟨_, hitem, hrest⟩
        exact ⟨hitem, hrest⟩
      · rintro ⟨hitem, hrest⟩
        exact ⟨(), hitem, hrest⟩

/-- What every step of a fold hands on holds at the end of a successful fold. -/
theorem foldlM_keeps {step : σ → α → Except ε σ} {motive : List α → σ → Prop}
    (hstep : ∀ item rest state next, motive (item :: rest) state → step state item = .ok next →
      motive rest next)
    {items : List α} {state final : σ} (hstart : motive items state)
    (hok : items.foldlM step state = .ok final) : motive [] final := by
  induction items generalizing state with
  | nil =>
      cases hok
      exact hstart
  | cons item rest ih =>
      rw [List.foldlM_cons] at hok
      obtain ⟨next, hnext, hrest⟩ := bind_eq_ok.1 hok
      exact ih (hstep item rest state next hstart hnext) hrest

theorem foldlM_related {τ : Type} {step : σ → α → Except ε σ} {other : τ → α → Except ε τ}
    {related : σ → τ → Prop}
    (hstep : ∀ item state state' next next', related state state' → step state item = .ok next →
      other state' item = .ok next' → related next next')
    {items : List α} {state final : σ} {state' final' : τ} (hstate : related state state')
    (h : items.foldlM step state = .ok final) (h' : items.foldlM other state' = .ok final') :
    related final final' := by
  induction items generalizing state state' with
  | nil =>
      cases h
      cases h'
      exact hstate
  | cons item rest ih =>
      rw [List.foldlM_cons] at h h'
      obtain ⟨next, hnext, hrest⟩ := bind_eq_ok.1 h
      obtain ⟨next', hnext', hrest'⟩ := bind_eq_ok.1 h'
      exact ih (hstep item state state' next next' hstate hnext hnext') hrest hrest'

/-- A fold whose steps do on a view of the state what other steps do on the state. -/
theorem foldlM_map {τ : Type} {step : σ → α → Except ε σ} {other : τ → α → Except ε τ}
    {view : σ → τ} (hstep : ∀ state item, other (view state) item = (step state item).map view)
    (items : List α) (state : σ) :
    items.foldlM other (view state) = (items.foldlM step state).map view := by
  induction items generalizing state with
  | nil => rfl
  | cons item rest ih =>
      rw [List.foldlM_cons, List.foldlM_cons, hstep]
      cases step state item with
      | error error => rfl
      | ok next => exact ih next

theorem foldlM_ne_error {step : σ → α → Except ε σ} {error : ε}
    (hstep : ∀ state item, step state item ≠ .error error) (items : List α) (state : σ) :
    items.foldlM step state ≠ .error error := by
  induction items generalizing state with
  | nil => exact fun h => by cases h
  | cons item rest ih =>
      rw [List.foldlM_cons]
      intro herror
      rcases bind_eq_error.1 herror with hfirst | ⟨next, -, hrest⟩
      · exact hstep state item hfirst
      · exact ih next hrest

theorem foldlM_succeeds {step : σ → α → Except ε σ} {motive : List α → σ → Prop}
    (hstep : ∀ item rest state, motive (item :: rest) state →
      ∃ next, step state item = .ok next ∧ motive rest next)
    {items : List α} {state : σ} (hstart : motive items state) :
    ∃ final, items.foldlM step state = .ok final ∧ motive [] final := by
  induction items generalizing state with
  | nil => exact ⟨state, rfl, hstart⟩
  | cons item rest ih =>
      obtain ⟨next, hnext, hmotive⟩ := hstep item rest state hstart
      obtain ⟨final, hfinal, hend⟩ := ih hmotive
      refine ⟨final, ?_, hend⟩
      rw [List.foldlM_cons]
      exact bind_eq_ok.2 ⟨next, hnext, hfinal⟩

end Hazard
