import Hazard.Formula.Predicate
import Hazard.Proofs.CtlSemantics
import Hazard.Proofs.Except
/-!
# Compiled formulas mean what they say

A formula becomes a node, and its operands wait until their turn comes, at positions that are known
beforehand. All nodes refer to later ones only, so a sweep from the last to the first finds every
operand with its final value.
-/

namespace Hazard

def PredicateNode.operands : PredicateNode → List Nat
  | .holds _ | .const _ => []
  | .not a => [a]
  | .and a b | .or a b | .implies a b | .iff a b => [a, b]

namespace Predicate

variable {propositions : List String} {formula : Formula} {waiting operands : List Formula}
  {nodes result : Array PredicateNode} {node : PredicateNode} {first : Nat} {label : Label}
  {values : Array Bool}

/-! ## Flattening -/

/-- The node of a formula whose operands will stand at `first` and after it. -/
inductive Renders (propositions : List String) (first : Nat) :
    Formula → PredicateNode → List Formula → Prop
  | atom {name : String} {position : Nat} (hname : propositions.idxOf? name = some position) :
      Renders propositions first (.atom name) (.holds position) []
  | const (value : Bool) : Renders propositions first (.const value) (.const value) []
  | not (a : Formula) : Renders propositions first (.not a) (.not first) [a]
  | and (a b : Formula) : Renders propositions first (.and a b) (.and first (first + 1)) [a, b]
  | or (a b : Formula) : Renders propositions first (.or a b) (.or first (first + 1)) [a, b]
  | implies (a b : Formula) :
      Renders propositions first (.implies a b) (.implies first (first + 1)) [a, b]
  | iff (a b : Formula) : Renders propositions first (.iff a b) (.iff first (first + 1)) [a, b]

theorem Renders.weight_lt (h : Renders propositions first formula node operands) :
    Formula.totalWeight operands < formula.weight := by
  cases h <;> simp [Formula.totalWeight, Formula.weight]

theorem flatten_cons {rest : List Formula}
    (h : flatten propositions (formula :: rest) nodes = .ok result) :
    ∃ node operands, Renders propositions (nodes.size + rest.length + 1) formula node operands ∧
      flatten propositions (rest ++ operands) (nodes.push node) = .ok result := by
  cases formula with
  | atom name =>
      cases hname : propositions.idxOf? name with
      | none => simp [flatten, hname] at h
      | some position =>
          simp only [flatten, hname] at h
          exact ⟨_, [], .atom hname, by simpa using h⟩
  | const value =>
      rw [flatten] at h
      exact ⟨_, [], .const value, by simpa using h⟩
  | not a =>
      rw [flatten] at h
      exact ⟨_, [a], .not a, h⟩
  | and a b =>
      rw [flatten] at h
      exact ⟨_, [a, b], .and a b, h⟩
  | or a b =>
      rw [flatten] at h
      exact ⟨_, [a, b], .or a b, h⟩
  | implies a b =>
      rw [flatten] at h
      exact ⟨_, [a, b], .implies a b, h⟩
  | iff a b =>
      rw [flatten] at h
      exact ⟨_, [a, b], .iff a b, h⟩
  | _ => simp [flatten] at h

/-- Goes back from the end of a successful flattening to its start, node by node. -/
theorem flatten_induction {motive : List Formula → Array PredicateNode → Prop}
    (hdone : motive [] result)
    (hstep : ∀ formula rest nodes node operands,
      Renders propositions (nodes.size + rest.length + 1) formula node operands →
      flatten propositions (rest ++ operands) (nodes.push node) = .ok result →
      motive (rest ++ operands) (nodes.push node) → motive (formula :: rest) nodes)
    (h : flatten propositions waiting nodes = .ok result) : motive waiting nodes := by
  induction hweight : Formula.totalWeight waiting using Nat.strongRecOn
    generalizing waiting nodes with
  | ind weight ih =>
      cases waiting with
      | nil =>
          rw [flatten] at h
          cases h
          exact hdone
      | cons formula rest =>
          obtain ⟨node, operands, hrenders, hrest⟩ := flatten_cons h
          have hlt : Formula.totalWeight (rest ++ operands) < weight := by
            have := hrenders.weight_lt
            rw [← hweight, Formula.totalWeight_append, Formula.totalWeight]
            omega
          exact hstep formula rest nodes node operands hrenders hrest (ih _ hlt hrest rfl)

theorem flatten_extends (h : flatten propositions waiting nodes = .ok result) :
    nodes.toList <+: result.toList := by
  apply flatten_induction (motive := fun _ nodes => nodes.toList <+: result.toList) _ _ h
  · exact List.prefix_rfl
  · intro formula rest nodes node operands _ _ hpushed
    rw [Array.toList_push] at hpushed
    exact (List.prefix_append _ _).trans hpushed

theorem getElem?_flatten (h : flatten propositions waiting (nodes.push node) = .ok result) :
    result[nodes.size]? = some node := by
  obtain ⟨later, hlater⟩ := flatten_extends h
  rw [← Array.getElem?_toList, ← hlater]
  simp

def Ordered (nodes : List PredicateNode) (offset : Nat) : Prop :=
  ∀ position node, nodes[position]? = some node →
    ∀ operand ∈ node.operands, offset + position < operand

theorem Renders.operand_ge (h : Renders propositions first formula node operands)
    (operand : Nat) (hoperand : operand ∈ node.operands) : first ≤ operand := by
  cases h <;> simp [PredicateNode.operands] at hoperand <;> omega

theorem Ordered.push (hnodes : Ordered nodes.toList 0)
    (hnode : ∀ operand ∈ node.operands, nodes.size < operand) :
    Ordered (nodes.push node).toList 0 := by
  intro position other hother operand hoperand
  rw [Array.getElem?_toList, Array.getElem?_push] at hother
  split at hother
  · next hposition =>
    cases hother
    simpa [hposition] using hnode operand hoperand
  · exact hnodes position other (by rwa [Array.getElem?_toList]) operand hoperand

theorem ordered_flatten (h : flatten propositions waiting nodes = .ok result)
    (hnodes : Ordered nodes.toList 0) : Ordered result.toList 0 := by
  revert hnodes
  apply flatten_induction (motive := fun _ nodes => Ordered nodes.toList 0 →
    Ordered result.toList 0) _ _ h
  · exact id
  · intro formula rest nodes node operands hrenders _ ih hnodes
    apply ih
    apply hnodes.push
    intro operand hoperand
    have := hrenders.operand_ge operand hoperand
    omega

/-! ## The sweep -/

def Settled (label : Label) (nodes : List PredicateNode) (offset : Nat) (values : Array Bool) :
    Prop :=
  ∀ position node, nodes[position]? = some node →
    values.getD (offset + position) false = nodeValue label values node

theorem nodeValue_congr {left right : Array Bool}
    (h : ∀ operand ∈ node.operands, left.getD operand false = right.getD operand false) :
    nodeValue label left node = nodeValue label right node := by
  cases node <;> simp_all [nodeValue, PredicateNode.operands]

theorem getD_setIfInBounds {position other : Nat} {value : Bool} (h : position < other) :
    (values.setIfInBounds position value).getD other false = values.getD other false := by
  have hne : position ≠ other := by omega
  simp [hne]

/-- Changing a value leaves a node alone that reads later positions only. -/
theorem nodeValue_setIfInBounds {position : Nat} {value : Bool}
    (h : ∀ operand ∈ node.operands, position < operand) :
    nodeValue label (values.setIfInBounds position value) node = nodeValue label values node :=
  nodeValue_congr fun operand hoperand => getD_setIfInBounds (h operand hoperand)

def sweepFrom (label : Label) (nodes : List PredicateNode) (offset : Nat) (values : Array Bool) :
    Array Bool :=
  (nodes.zipIdx offset).foldr
    (fun (node, position) values => values.setIfInBounds position (nodeValue label values node))
    values

theorem sweepFrom_cons (nodes : List PredicateNode) (offset : Nat) :
    sweepFrom label (node :: nodes) offset values =
      (sweepFrom label nodes (offset + 1) values).setIfInBounds offset
        (nodeValue label (sweepFrom label nodes (offset + 1) values) node) := rfl

theorem size_sweepFrom (nodes : List PredicateNode) (offset : Nat) :
    (sweepFrom label nodes offset values).size = values.size := by
  induction nodes generalizing offset with
  | nil => rfl
  | cons node rest ih => rw [sweepFrom_cons, Array.size_setIfInBounds, ih]

theorem settled_sweepFrom {nodes : List PredicateNode} {offset : Nat}
    (hordered : Ordered nodes offset) (hroom : offset + nodes.length ≤ values.size) :
    Settled label nodes offset (sweepFrom label nodes offset values) := by
  induction nodes generalizing offset with
  | nil =>
      intro position node hnode
      simp at hnode
  | cons node rest ih =>
      have hrest : Ordered rest (offset + 1) := by
        intro position other hother operand hoperand
        have := hordered (position + 1) other hother operand hoperand
        omega
      have hsettled := ih hrest (by simp only [List.length_cons] at hroom; omega)
      intro position other hother
      rw [sweepFrom_cons]
      -- the swept position lies before everything that this node or a later one reads
      rw [nodeValue_setIfInBounds fun operand hoperand => by
        have := hordered position other hother operand hoperand
        omega]
      cases position with
      | zero =>
          cases hother
          have hlt : offset < (sweepFrom label rest (offset + 1) values).size := by
            rw [size_sweepFrom]
            simp only [List.length_cons] at hroom
            omega
          simp [hlt]
      | succ position =>
          rw [getD_setIfInBounds (by omega), ← hsettled position other hother]
          congr 1
          omega

theorem settled_sweep {predicate : Predicate} (hordered : Ordered predicate.nodes.toList 0) :
    Settled label predicate.nodes.toList 0 (predicate.sweep label) :=
  settled_sweepFrom hordered (by simp)

/-! ## Truth -/

section Truth

universe u

variable {σ : Type u} {system : TransitionSystem σ} {state : σ}

/-- The label says which propositions hold in a state; a name stands for its first position. -/
def Describes (propositions : List String) (label : Label) (system : TransitionSystem σ)
    (state : σ) : Prop :=
  ∀ name position, propositions.idxOf? name = some position →
    (label.contains position = true ↔ system.holds state name)

theorem Renders.value_iff (hlabel : Describes propositions label system state)
    (h : Renders propositions first formula node operands)
    (hoperands : ∀ position operand, operands[position]? = some operand →
      (values.getD (first + position) false = true ↔ operand.HoldsAt system state)) :
    nodeValue label values node = true ↔ formula.HoldsAt system state := by
  cases h with
  | atom hname => exact hlabel _ _ hname
  | const value => exact Iff.rfl
  | not a =>
      have ha := hoperands 0 a rfl
      simp [nodeValue, ← ha]
  | and a b | or a b | implies a b | iff a b =>
      have ha := hoperands 0 a rfl
      have hb := hoperands 1 b rfl
      simp only [Formula.HoldsAt, ← ha, ← hb, nodeValue, Nat.add_zero]
      cases values.getD first false <;> cases values.getD (first + 1) false <;> simp

/-- In settled values, every formula that waits has its truth at the position it will get. -/
theorem value_flatten (hlabel : Describes propositions label system state)
    (h : flatten propositions waiting nodes = .ok result)
    (hsettled : Settled label result.toList 0 values) :
    ∀ position formula, waiting[position]? = some formula →
      (values.getD (nodes.size + position) false = true ↔ formula.HoldsAt system state) := by
  apply flatten_induction (motive := fun waiting nodes => ∀ position formula,
    waiting[position]? = some formula →
      (values.getD (nodes.size + position) false = true ↔ formula.HoldsAt system state)) _ _ h
  · intro position formula hformula
    simp at hformula
  · intro formula rest nodes node operands hrenders hflatten ih position other hother
    simp only [Array.size_push] at ih
    cases position with
    | zero =>
        cases hother
        have hnode : result.toList[nodes.size]? = some node := by
          rw [Array.getElem?_toList]
          exact getElem?_flatten hflatten
        have hvalue := hsettled nodes.size node hnode
        rw [Nat.zero_add] at hvalue
        rw [Nat.add_zero, hvalue]
        apply hrenders.value_iff hlabel
        intro position operand hoperand
        have hlater : (rest ++ operands)[rest.length + position]? = some operand := by
          rw [List.getElem?_append_right (by omega), Nat.add_sub_cancel_left]
          exact hoperand
        rw [← ih (rest.length + position) operand hlater]
        have hshift : nodes.size + rest.length + 1 + position =
            nodes.size + 1 + (rest.length + position) := by omega
        rw [hshift]
    | succ position =>
        rw [List.getElem?_cons_succ] at hother
        have hlater : (rest ++ operands)[position]? = some other := by
          rw [List.getElem?_append_left (List.getElem?_eq_some_iff.1 hother).1]
          exact hother
        rw [← ih position other hlater]
        have hshift : nodes.size + (position + 1) = nodes.size + 1 + position := by omega
        rw [hshift]

theorem compile_eq_ok {predicate : Predicate}
    (h : compile formula propositions = .ok predicate) :
    flatten propositions [formula] #[] = .ok predicate.nodes := by
  rw [compile] at h
  split at h
  · obtain ⟨nodes, hnodes, hpredicate⟩ := bind_eq_ok.1 h
    cases hpredicate
    exact hnodes
  · cases h

theorem ordered_of_compile {predicate : Predicate}
    (h : compile formula propositions = .ok predicate) : Ordered predicate.nodes.toList 0 := by
  apply ordered_flatten (compile_eq_ok h)
  intro position node hnode
  simp at hnode

theorem evaluate_iff {predicate : Predicate}
    (hcompile : compile formula propositions = .ok predicate)
    (hlabel : Describes propositions label system state) :
    predicate.evaluate label = true ↔ formula.HoldsAt system state := by
  have hordered := ordered_of_compile hcompile
  exact value_flatten hlabel (compile_eq_ok hcompile) (settled_sweep hordered) 0 formula rfl

end Truth

end Predicate

end Hazard
