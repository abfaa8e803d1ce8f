import Hazard.Proofs.IndexSet
import Hazard.Proofs.StateFormulas
/-!
# What compilation keeps of a formula

Compilation succeeds for the state formulas over known propositions and for no others. A compiled
formula has the truth value of its source under every label, refers to nothing outside its nodes,
and looks at the propositions that its source names.
-/

namespace Hazard

/-! ## Truth values -/

def Label.gives (label : Label) (propositions : List String) (name : String) : Bool :=
  (propositions.idxOf? name).any label.contains

namespace Formula

/-- The truth value of a state formula, from those of its atoms. No other formula is true. -/
def truth (holds : String → Bool) : Formula → Bool
  | .atom name => holds name
  | .const value => value
  | .not a => !a.truth holds
  | .and a b => a.truth holds && b.truth holds
  | .or a b => a.truth holds || b.truth holds
  | .implies a b => !a.truth holds || b.truth holds
  | .iff a b => a.truth holds == b.truth holds
  | _ => false

def pointSystem (holds : String → Bool) : TransitionSystem Unit where
  next _ _ := False
  holds _ name := holds name = true

theorem truth_iff_holdsAt {holds : String → Bool} {formula : Formula}
    (hstate : formula.isStateFormula = true) :
    formula.truth holds = true ↔ formula.HoldsAt (pointSystem holds) () := by
  induction formula with
  | atom name => simp [truth, pointSystem]
  | const value => simp [truth]
  | not a ih =>
      rw [HoldsAt, ← ih hstate, truth, Bool.not_eq_true', Bool.not_eq_true]
  | and a b iha ihb | or a b iha ihb | implies a b iha ihb | iff a b iha ihb =>
      obtain ⟨ha, hb⟩ := (Bool.and_eq_true_iff.1 hstate).imp iha ihb
      simp only [truth, HoldsAt, ← ha, ← hb]
      cases a.truth holds <;> cases b.truth holds <;> simp
  | _ => cases hstate

end Formula

namespace Predicate

variable {propositions : List String} {formula : Formula} {waiting operands : List Formula}
  {nodes result : Array PredicateNode} {node : PredicateNode} {first position : Nat}
  {predicate : Predicate}

theorem compile_succeeds_iff :
    (∃ predicate, compile formula propositions = .ok predicate) ↔
      formula.StateOver propositions :=
  ⟨fun ⟨_, hcompile⟩ => stateOver_of_compile hcompile, compile_succeeds⟩

theorem evaluate_eq_truth (hcompile : compile formula propositions = .ok predicate)
    (label : Label) : predicate.evaluate label = formula.truth (label.gives propositions) := by
  have hlabel : Describes propositions label
      (Formula.pointSystem (label.gives propositions)) () := by
    intro name position hname
    simp [Formula.pointSystem, Label.gives, hname]
  rw [Bool.eq_iff_iff, evaluate_iff hcompile hlabel,
    Formula.truth_iff_holdsAt (stateOver_of_compile hcompile).isState]

/-! ## References -/

theorem size_le_flatten (h : flatten propositions waiting nodes = .ok result) :
    nodes.size + waiting.length ≤ result.size := by
  apply flatten_induction (motive := fun waiting nodes =>
    nodes.size + waiting.length ≤ result.size) _ _ h
  · simp
  · intro formula rest nodes node operands _ _ ih
    simp only [Array.size_push, List.length_append, List.length_cons] at ih ⊢
    omega

theorem Renders.operand_lt (h : Renders propositions first formula node operands)
    (operand : Nat) (hoperand : operand ∈ node.operands) : operand < first + operands.length := by
  cases h <;> simp [PredicateNode.operands] at hoperand ⊢ <;> omega

theorem operand_lt_flatten (h : flatten propositions waiting nodes = .ok result)
    (hnodes : ∀ node ∈ nodes, ∀ operand ∈ node.operands, operand < result.size) :
    ∀ node ∈ result, ∀ operand ∈ node.operands, operand < result.size := by
  revert hnodes
  apply flatten_induction (motive := fun _ nodes =>
    (∀ node ∈ nodes, ∀ operand ∈ node.operands, operand < result.size) →
      ∀ node ∈ result, ∀ operand ∈ node.operands, operand < result.size) _ _ h
  · exact id
  · intro formula rest nodes node operands hrenders hflatten ih hnodes
    apply ih
    intro other hother operand hoperand
    rcases Array.mem_push.1 hother with hold | rfl
    · exact hnodes other hold operand hoperand
    · have hlt := hrenders.operand_lt operand hoperand
      have hsize := size_le_flatten hflatten
      simp only [Array.size_push, List.length_append] at hsize
      omega

theorem operand_bounds (hcompile : compile formula propositions = .ok predicate)
    (hnode : predicate.nodes[position]? = some node) (operand : Nat)
    (hoperand : operand ∈ node.operands) :
    position < operand ∧ operand < predicate.nodes.size := by
  constructor
  · have hlater := ordered_of_compile hcompile position node (by simpa using hnode) operand hoperand
    omega
  · exact operand_lt_flatten (compile_eq_ok hcompile) (by simp) node
      (Array.mem_of_getElem? hnode) operand hoperand

/-! ## Propositions -/

/-- The position is the first one of a name that occurs in the formula. -/
def NamedIn (propositions : List String) (position : Nat) (formula : Formula) : Prop :=
  ∃ name ∈ formula.names, propositions.idxOf? name = some position

theorem Renders.namedIn_iff (h : Renders propositions first formula node operands) :
    NamedIn propositions position formula ↔
      .holds position = node ∨ ∃ operand ∈ operands, NamedIn propositions position operand := by
  cases h with
  | atom hname => simp [NamedIn, Formula.names, hname, eq_comm]
  | const value => simp [NamedIn, Formula.names]
  | not a => simp [NamedIn, Formula.names]
  | and a b | or a b | implies a b | iff a b =>
      simp [NamedIn, Formula.names, or_and_right, exists_or]

theorem holds_mem_flatten (h : flatten propositions waiting nodes = .ok result) :
    .holds position ∈ result ↔
      .holds position ∈ nodes ∨ ∃ formula ∈ waiting, NamedIn propositions position formula := by
  apply flatten_induction (motive := fun waiting nodes => .holds position ∈ result ↔
    .holds position ∈ nodes ∨ ∃ formula ∈ waiting, NamedIn propositions position formula) _ _ h
  · simp
  · intro formula rest nodes node operands hrenders _ ih
    rw [ih]
    simp only [List.mem_cons, exists_eq_or_imp, hrenders.namedIn_iff]
    simp only [Array.mem_push, List.mem_append, or_and_right, exists_or, or_assoc]
    rw [or_comm (a := ∃ formula ∈ rest, _)]

theorem mem_positions_iff (hcompile : compile formula propositions = .ok predicate) :
    position ∈ predicate.positions ↔ NamedIn propositions position formula := by
  have hholds : position ∈ predicate.positions ↔ .holds position ∈ predicate.nodes := by
    rw [positions, List.mem_filterMap, ← Array.mem_toList_iff]
    constructor
    · rintro ⟨node, hnode, hposition⟩
      cases node <;> simp_all
    · exact fun hnode => ⟨_, hnode, rfl⟩
  rw [hholds, holds_mem_flatten (compile_eq_ok hcompile)]
  simp

end Predicate

theorem Label.foldlM_mark {positions : List Nat} (label : Label)
    (hroom : ∀ position ∈ positions, position < 64) :
    ∃ final, positions.foldlM mark label = .ok final ∧
      ∀ position, final.contains position = true ↔
        label.contains position = true ∨ position ∈ positions := by
  induction positions generalizing label with
  | nil => exact ⟨label, rfl, by simp⟩
  | cons first rest ih =>
      obtain ⟨hfirst, hrest⟩ := List.forall_mem_cons.1 hroom
      obtain ⟨final, hfinal, hcontains⟩ := ih (label.insert ⟨first, hfirst⟩) hrest
      have hmark : label.mark first = .ok (label.insert ⟨first, hfirst⟩) := by
        rw [mark, index, dif_pos hfirst]
        rfl
      refine ⟨final, ?_, fun position => ?_⟩
      · rw [List.foldlM_cons, hmark]
        exact hfinal
      · simp [hcontains, or_assoc]

/-- Compilation succeeds exactly for the state formulas whose atoms are all known. The result has
the truth value of the formula under every label, every reference leads to a later node, and if
labels have room for the atoms, the propositions looked at are theirs. -/
theorem Predicate.compile_exact (formula : Formula) (propositions : List String) :
    ((∃ predicate, compile formula propositions = .ok predicate) ↔
        formula.isStateFormula = true ∧ ∀ name ∈ formula.names, name ∈ propositions) ∧
      ∀ predicate, compile formula propositions = .ok predicate →
        (∀ label, predicate.evaluate label = formula.truth (label.gives propositions)) ∧
        0 < predicate.nodes.size ∧
        (∀ position node, predicate.nodes[position]? = some node → ∀ operand ∈ node.operands,
          position < operand ∧ operand < predicate.nodes.size) ∧
        ((∀ position, NamedIn propositions position formula → position < 64) →
          ∃ found, predicate.dependencies = .ok found ∧
            ∀ position, found.contains position = true ↔
              NamedIn propositions position formula) := by
  refine ⟨compile_succeeds_iff.trans ⟨fun h => ⟨h.isState, h.known⟩, fun h => ⟨h.1, h.2⟩⟩, ?_⟩
  intro predicate hcompile
  refine ⟨evaluate_eq_truth hcompile, ?_, fun _ _ => operand_bounds hcompile, fun hroom => ?_⟩
  · exact Nat.lt_of_lt_of_le (by simp) (size_le_flatten (compile_eq_ok hcompile))
  · have hpositions : ∀ position ∈ predicate.positions, position < 64 := fun position hposition =>
      hroom position ((mem_positions_iff hcompile).1 hposition)
    obtain ⟨found, hfound, hcontains⟩ := Label.foldlM_mark .empty hpositions
    refine ⟨found, hfound, fun position => ?_⟩
    rw [hcontains, ← mem_positions_iff hcompile]
    simp

def armedOrForced : Formula :=
  .or (.and (.atom "armed") (.not (.atom "blocked"))) (.atom "forced")

/-- The second `armed` among the propositions plays no part. -/
theorem Predicate.compile_exact_armedOrForced :
    ∃ predicate, compile armedOrForced ["blocked", "armed", "armed", "forced"] = .ok predicate ∧
      predicate.evaluate ⟨2⟩ = true ∧ predicate.evaluate ⟨4⟩ = false ∧
      predicate.evaluate ⟨3⟩ = false ∧ predicate.evaluate ⟨11⟩ = true ∧
      ∃ found, predicate.dependencies = .ok found ∧ found.contains 1 = true ∧
        found.contains 2 = false := by
  obtain ⟨hsucceeds, hexact⟩ :=
    compile_exact armedOrForced ["blocked", "armed", "armed", "forced"]
  obtain ⟨predicate, hcompile⟩ := hsucceeds.2 ⟨rfl, by decide⟩
  obtain ⟨htruth, -, -, hfound⟩ := hexact predicate hcompile
  have hnamed (position : Nat) :
      NamedIn ["blocked", "armed", "armed", "forced"] position armedOrForced ↔
        1 = position ∨ 0 = position ∨ 3 = position := by
    simp [NamedIn, armedOrForced, Formula.names, List.idxOf?_cons]
  obtain ⟨found, hdependencies, hcontains⟩ := hfound fun position hposition => by
    have := (hnamed position).1 hposition
    omega
  refine ⟨predicate, hcompile, ?_, ?_, ?_, ?_, found, hdependencies, ?_, ?_⟩
  · rw [htruth]; decide
  · rw [htruth]; decide
  · rw [htruth]; decide
  · rw [htruth]; decide
  · rw [hcontains, hnamed]; decide
  · rw [Bool.eq_false_iff, Ne, hcontains, hnamed]; decide

end Hazard
