import Hazard.Proofs.ReverseEdges
import Hazard.Proofs.StateSet
import Mathlib.Data.Finset.Card
import Mathlib.Logic.Relation
/-!
# Backward search

The search for what leads to a set along edges read backwards finds exactly the states with a path
into it. The stack and the states not yet found bound the rounds.
-/

namespace Hazard.Predecessors

/-! ## One round -/

variable {predecessors : Predecessors} {targets ignore : StateSet} {states : Nat}

def Leads (predecessors : Predecessors) (ignore : StateSet) (source target : Nat) : Prop :=
  ignore.contains source = false ∧ source ∈ predecessors.of target

def Ancestor (predecessors : Predecessors) (targets ignore : StateSet) (state : Nat) : Prop :=
  ∃ target, Relation.ReflTransGen (predecessors.Leads ignore) state target ∧
    targets.contains target = true

def missing (states : Nat) (found : StateSet) : Nat :=
  ((Finset.range states).filter fun state => found.contains state = false).card

theorem missing_adjoin {found : StateSet} {state : Nat} (hfits : found.Fits states)
    (hstate : state < states) (hnew : found.contains state = false) :
    missing states (found.adjoin state) + 1 = missing states found := by
  have herase : ((Finset.range states).filter fun other =>
        (found.adjoin state).contains other = false) =
      ((Finset.range states).filter fun other => found.contains other = false).erase state := by
    ext other
    have hcontains : (found.adjoin state).contains other = true ↔ _ :=
      hfits.contains_adjoin hstate
    simp only [Finset.mem_filter, Finset.mem_erase, ← Bool.not_eq_true, hcontains]
    tauto
  rw [missing, missing, herase]
  exact Finset.card_erase_add_one (by simp [hstate, hnew])

theorem missing_le (states : Nat) (found : StateSet) : missing states found ≤ states := by
  unfold missing
  calc _ ≤ (Finset.range states).card := Finset.card_filter_le _ _
    _ = states := Finset.card_range states

theorem missing_lt {smaller larger : StateSet} (hsmaller : smaller.Fits states)
    (hlarger : larger.Fits states)
    (hsub : ∀ state, smaller.contains state = true → larger.contains state = true)
    (hne : smaller ≠ larger) : missing states larger < missing states smaller := by
  unfold missing
  apply Finset.card_lt_card
  rw [Finset.ssubset_iff_subset_ne]
  constructor
  · intro state hstate
    simp only [Finset.mem_filter, ← Bool.not_eq_true] at hstate ⊢
    exact ⟨hstate.1, fun h => hstate.2 (hsub state h)⟩
  · intro heq
    apply hne
    apply hsmaller.ext hlarger
    intro state
    by_cases hlt : state < states
    · have hmem := Finset.ext_iff.1 heq state
      simp only [Finset.mem_filter, Finset.mem_range, hlt, true_and] at hmem
      cases hs : smaller.contains state <;> cases hl : larger.contains state <;> simp_all
    · have hs : ¬ smaller.contains state = true := fun h => hlt (hsmaller.lt_of_contains h)
      have hl : ¬ larger.contains state = true := fun h => hlt (hlarger.lt_of_contains h)
      rw [Bool.not_eq_true] at hs hl
      rw [hs, hl]

/-- What the search knows while the edges of `pending` are yet to be met: it found only ancestors
and all targets, and whatever leads to a state that has left the stack. All it met are states. -/
structure Search.Sound (predecessors : Predecessors) (targets ignore : StateSet) (states : Nat)
    (pending : Nat → Nat → Prop) (search : Search) : Prop where
  fits : search.found.Fits states
  targets_found : ∀ state, targets.contains state = true → search.found.contains state = true
  ancestor : ∀ state, search.found.contains state = true →
    predecessors.Ancestor targets ignore state
  stacked : ∀ state ∈ search.stack, search.found.contains state = true
  closed : ∀ source target, search.found.contains target = true →
    predecessors.Leads ignore source target →
      target ∈ search.stack ∨ pending source target ∨ search.found.contains source = true
  unstrayed : search.stray = none

def Search.rounds (states : Nat) (search : Search) : Nat :=
  search.stack.length + missing states search.found

namespace Search

variable {search : Search} {state source : Nat} {todo : List Nat}

theorem Sound.skip
    (hsound : search.Sound predecessors targets ignore states
      fun before after => after = state ∧ before ∈ source :: todo)
    (hold : (ignore.contains source || search.found.contains source) = true) :
    search.Sound predecessors targets ignore states
      fun before after => after = state ∧ before ∈ todo := by
  refine ⟨hsound.fits, hsound.targets_found, hsound.ancestor, hsound.stacked, ?_,
    hsound.unstrayed⟩
  intro before after hafter hleads
  rcases hsound.closed before after hafter hleads with hstack | ⟨rfl, hmem⟩ | hfound
  · exact .inl hstack
  · rcases List.mem_cons.1 hmem with rfl | hmem
    · simp only [hleads.1, Bool.false_or] at hold
      exact .inr (.inr hold)
    · exact .inr (.inl ⟨rfl, hmem⟩)
  · exact .inr (.inr hfound)

theorem Sound.push
    (hsound : search.Sound predecessors targets ignore states
      fun before after => after = state ∧ before ∈ source :: todo)
    (hleads : predecessors.Leads ignore source state) (hlt : source < states)
    (hstate : search.found.contains state = true) :
    ({ search with found := search.found.adjoin source, stack := source :: search.stack } :
        Search).Sound predecessors targets ignore states
      fun before after => after = state ∧ before ∈ todo := by
  have hadjoin (other : Nat) : (search.found.adjoin source).contains other = true ↔ _ :=
    hsound.fits.contains_adjoin hlt
  have hmono (other : Nat) (h : search.found.contains other = true) :
      (search.found.adjoin source).contains other = true := (hadjoin other).2 (.inr h)
  refine ⟨hsound.fits.adjoin hlt, ?_, ?_, ?_, ?_, hsound.unstrayed⟩
  · exact fun other hother => hmono other (hsound.targets_found other hother)
  · intro other hother
    rcases (hadjoin other).1 hother with rfl | hother
    · obtain ⟨target, hpath, htarget⟩ := hsound.ancestor state hstate
      exact ⟨target, .head hleads hpath, htarget⟩
    · exact hsound.ancestor other hother
  · intro other hother
    rcases List.mem_cons.1 hother with rfl | hother
    · exact (hadjoin other).2 (.inl rfl)
    · exact hmono other (hsound.stacked other hother)
  · intro before after hafter hedge
    rcases (hadjoin after).1 hafter with rfl | hafter
    · exact .inl (by simp)
    · rcases hsound.closed before after hafter hedge with hstack | ⟨rfl, hmem⟩ | hfound
      · exact .inl (by simp [hstack])
      · rcases List.mem_cons.1 hmem with rfl | hmem
        · exact .inr (.inr ((hadjoin before).2 (.inl rfl)))
        · exact .inr (.inl ⟨rfl, hmem⟩)
      · exact .inr (.inr (hmono before hfound))

theorem Sound.meet
    (hsound : search.Sound predecessors targets ignore states
      fun before after => after = state ∧ before ∈ source :: todo)
    (hsource : source ∈ predecessors.of state) (hlt : source < states)
    (hstate : search.found.contains state = true) :
    (search.meet ignore source).Sound predecessors targets ignore states
        (fun before after => after = state ∧ before ∈ todo) ∧
      (search.meet ignore source).found.contains state = true ∧
      (search.meet ignore source).rounds states = search.rounds states := by
  rw [Search.meet]
  split
  · next hold => exact ⟨hsound.skip hold, hstate, rfl⟩
  · next hnew =>
    simp only [Bool.or_eq_true, not_or, Bool.not_eq_true] at hnew
    obtain ⟨hkept, hnew⟩ := hnew
    rw [if_neg (by rw [hsound.fits.states_eq]; omega)]
    refine ⟨hsound.push ⟨hkept, hsource⟩ hlt hstate, ?_, ?_⟩
    · exact (hsound.fits.contains_adjoin hlt).2 (.inr hstate)
    · have hmissing := missing_adjoin hsound.fits hlt hnew
      simp only [rounds, List.length_cons]
      omega

theorem Sound.foldl_meet
    (hsound : search.Sound predecessors targets ignore states
      fun before after => after = state ∧ before ∈ todo)
    (hsources : ∀ source ∈ todo, source ∈ predecessors.of state)
    (hlt : ∀ source ∈ todo, source < states) (hstate : search.found.contains state = true) :
    (todo.foldl (Search.meet ignore) search).Sound predecessors targets ignore states
        (fun _ _ => False) ∧
      (todo.foldl (Search.meet ignore) search).rounds states = search.rounds states := by
  induction todo generalizing search with
  | nil => exact ⟨by simpa using hsound, rfl⟩
  | cons source todo ih =>
      obtain ⟨hmet, hstill, hrounds⟩ :=
        hsound.meet (hsources source (by simp)) (hlt source (by simp)) hstate
      rw [List.foldl_cons, ← hrounds]
      exact ih hmet (fun other hother => hsources other (by simp [hother]))
        (fun other hother => hlt other (by simp [hother])) hstill

/-! ## The whole search -/

/-- Every round takes one state off the stack, and each new one on it was not found before. -/
theorem Sound.run (hsources : ∀ target, ∀ source ∈ predecessors.of target, source < states)
    {fuel : Nat} (hfuel : search.rounds states ≤ fuel)
    (hsound : search.Sound predecessors targets ignore states fun _ _ => False) :
    (search.run predecessors ignore fuel).Sound predecessors targets ignore states
        (fun _ _ => False) ∧ (search.run predecessors ignore fuel).stack = [] := by
  induction fuel generalizing search with
  | zero =>
      have hempty : search.stack.length = 0 := by
        simp only [rounds] at hfuel
        omega
      exact ⟨hsound, List.eq_nil_of_length_eq_zero hempty⟩
  | succ fuel ih =>
      rw [Search.run]
      split
      · next hempty => exact ⟨hsound, hempty⟩
      · next state rest hstack =>
        have hstate : search.found.contains state = true :=
          hsound.stacked state (by simp [hstack])
        have hpopped : ({ search with stack := rest } : Search).Sound predecessors targets ignore
            states fun before after => after = state ∧ before ∈ predecessors.of state := by
          refine ⟨hsound.fits, hsound.targets_found, hsound.ancestor, ?_, ?_, hsound.unstrayed⟩
          · exact fun other hother => hsound.stacked other (by simp [hstack, hother])
          · intro before after hafter hleads
            rcases hsound.closed before after hafter hleads with hmem | hfalse | hfound
            · rw [hstack, List.mem_cons] at hmem
              rcases hmem with rfl | hmem
              · exact .inr (.inl ⟨rfl, hleads.2⟩)
              · exact .inl hmem
            · exact hfalse.elim
            · exact .inr (.inr hfound)
        obtain ⟨hmet, hrounds⟩ := hpopped.foldl_meet (fun source hsource => hsource)
          (hsources state) hstate
        refine ih ?_ hmet
        rw [hrounds]
        simp only [rounds, hstack, List.length_cons] at hfuel ⊢
        omega

end Search

/-- The search ends because nothing is left on the stack. -/
theorem sound_search (ignore : StateSet)
    (hsources : ∀ target, ∀ source ∈ predecessors.of target, source < states)
    (htargets : targets.Fits states) :
    (predecessors.search targets ignore).Sound predecessors targets ignore states
        (fun _ _ => False) ∧ (predecessors.search targets ignore).stack = [] := by
  have hstart : (⟨targets, targets.toList.reverse, none⟩ : Search).Sound predecessors targets ignore
      states fun _ _ => False := by
    refine ⟨htargets, fun _ h => h, fun state h => ⟨state, .refl, h⟩, ?_, ?_, rfl⟩
    · intro state hstate
      simpa [StateSet.mem_toList] using hstate
    · intro source target htarget _
      exact .inl (by simpa [StateSet.mem_toList] using htarget)
  have hfuel : (⟨targets, targets.toList.reverse, none⟩ : Search).rounds states ≤
      targets.size + targets.states := by
    have hmissing := missing_le states targets
    simp only [Search.rounds, List.length_reverse, StateSet.size_eq_length, htargets.states_eq]
    omega
  exact hstart.run hsources hfuel

theorem comprises_ancestors
    (hsources : ∀ target, ∀ source ∈ predecessors.of target, source < states)
    (htargets : targets.Fits states) :
    (predecessors.ancestors targets ignore).Comprises states
      (predecessors.Ancestor targets ignore) := by
  obtain ⟨hsound, hstack⟩ := sound_search ignore hsources htargets
  refine ⟨hsound.fits, fun state => ⟨fun h => ⟨hsound.fits.lt_of_contains h, ?_⟩, ?_⟩⟩
  · exact hsound.ancestor state h
  · rintro ⟨-, target, hpath, htarget⟩
    induction hpath using Relation.ReflTransGen.head_induction_on with
    | refl => exact hsound.targets_found target htarget
    | head hleads _ ih =>
        rcases hsound.closed _ _ ih hleads with hmem | hfalse | hfound
        · rw [hstack] at hmem
          cases hmem
        · exact hfalse.elim
        · exact hfound

theorem ancestorsChecked_eq (ignore : StateSet)
    (hsources : ∀ target, ∀ source ∈ predecessors.of target, source < states)
    (htargets : targets.Fits states) :
    predecessors.ancestorsChecked targets ignore = .ok (predecessors.ancestors targets ignore) := by
  rw [ancestorsChecked, (sound_search ignore hsources htargets).1.unstrayed]
  rfl

/-! ## Paths of edges -/

def Passes (edges : List (Nat × Nat)) (ignore : StateSet) (source target : Nat) : Prop :=
  ignore.contains source = false ∧ (source, target) ∈ edges

theorem leads_ofEdges {edges : List (Nat × Nat)} (htargets : ∀ edge ∈ edges, edge.2 < states) :
    (ofEdges states edges).Leads ignore = Passes edges ignore := by
  funext source target
  rw [Leads, Passes, mem_of_ofEdges]
  exact propext (and_congr_right fun _ => and_iff_right_of_imp (htargets _))

/-- A state other than the targets is an ancestor by a path of at least one edge. -/
theorem ancestor_ofEdges_iff {edges : List (Nat × Nat)} {state : Nat}
    (hinside : ∀ edge ∈ edges, edge.2 < states) :
    (ofEdges states edges).Ancestor targets ignore state ↔
      targets.contains state = true ∨
        ∃ target, targets.contains target = true ∧
          Relation.TransGen (Passes edges ignore) state target := by
  rw [Ancestor, leads_ofEdges hinside]
  simp only [Relation.reflTransGen_iff_eq_or_transGen, or_and_right, exists_or, exists_eq_left,
    and_comm]

/-- Edges read backwards give for every state the sources of the edges into it, as often and in the
order as they come. The search behind a set of targets comes to its end with nothing left to look
behind, and finds the targets and the states with a path of edges into them on which all states
before the last are outside those that are ignored. -/
theorem reads_edges_exactly (states : Nat) (edges : List (Nat × Nat))
    (hedges : ∀ edge ∈ edges, edge.1 < states ∧ edge.2 < states) :
    ∃ predecessors, create states edges = .ok predecessors ∧
      (∀ target < states, predecessors.get target =
        .ok ((edges.filter fun edge => edge.2 == target).map (·.1))) ∧
      ∀ targets ignore : StateSet, targets.Fits states →
        (predecessors.search targets ignore).stack = [] ∧
          ∃ found, predecessors.ancestorsChecked targets ignore = .ok found ∧
            found.Fits states ∧ ∀ state, found.contains state = true ↔
              targets.contains state = true ∨ ∃ target, targets.contains target = true ∧
                Relation.TransGen (Passes edges ignore) state target := by
  have hinside : ∀ edge ∈ edges, edge.2 < states := fun edge hedge => (hedges edge hedge).2
  have hsources : ∀ target, ∀ source ∈ (ofEdges states edges).of target, source < states :=
    fun target source hsource => (hedges _ (mem_of_ofEdges.1 hsource).2).1
  refine ⟨ofEdges states edges, if_pos (by simpa using hinside), ?_, ?_⟩
  · intro target htarget
    rw [get, states_ofEdges, if_pos htarget, of_ofEdges, if_pos htarget]
    rfl
  · intro targets ignore htargets
    have hfound : ((ofEdges states edges).ancestors targets ignore).Comprises states _ :=
      comprises_ancestors hsources htargets
    refine ⟨(sound_search ignore hsources htargets).2, _,
      ancestorsChecked_eq ignore hsources htargets, hfound.toFits, fun state => ?_⟩
    rw [hfound.contains_iff, ancestor_ofEdges_iff hinside, and_iff_right_iff_imp]
    rintro (htarget | ⟨target, -, hpath⟩)
    · exact htargets.lt_of_contains htarget
    · obtain ⟨after, hfirst, -⟩ := Relation.TransGen.head'_iff.1 hpath
      exact (hedges _ hfirst.2).1

/-- States 0 and 3 lead to state 1, the latter by two edges, and state 1 to state 2. -/
def funnel : List (Nat × Nat) := [(0, 1), (3, 1), (1, 2), (3, 1)]

theorem reads_edges_exactly_funnel :
    (∀ edge ∈ funnel, edge.1 < 5 ∧ edge.2 < 5) ∧
      ∃ predecessors, create 5 funnel = .ok predecessors ∧ predecessors.get 1 = .ok [0, 3, 3] ∧
        ∃ found, predecessors.ancestorsChecked (.ofTest 5 (· == 2)) (.ofTest 5 (· == 0)) =
            .ok found ∧
          found.contains 3 = true ∧ found.contains 0 = false := by
  have hedges : ∀ edge ∈ funnel, edge.1 < 5 ∧ edge.2 < 5 := by decide
  obtain ⟨predecessors, hcreate, hget, hsearch⟩ := reads_edges_exactly 5 funnel hedges
  obtain ⟨-, found, hfound, -, hcontains⟩ := hsearch (.ofTest 5 (· == 2)) (.ofTest 5 (· == 0))
    (StateSet.comprises_ofTest 5 (· == 2)).toFits
  refine ⟨hedges, predecessors, hcreate, hget 1 (by decide), found, hfound,
    (hcontains 3).2 (.inr ⟨2, by decide +kernel, ?_⟩), ?_⟩
  · exact .tail (.single ⟨by decide +kernel, (by decide : (3, 1) ∈ funnel)⟩)
      ⟨by decide +kernel, by decide⟩
  · rw [← Bool.not_eq_true, hcontains]
    rintro (htarget | ⟨target, -, hpath⟩)
    · exact absurd htarget (by decide +kernel)
    · obtain ⟨after, ⟨hkept, -⟩, -⟩ := Relation.TransGen.head'_iff.1 hpath
      exact absurd hkept (by decide +kernel)

end Hazard.Predecessors
