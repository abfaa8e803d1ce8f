/-!
# Misuse

An operation called outside its contract answers with the contract it broke.
-/

namespace Hazard

inductive Misuse where
  | emptyStorage
  | oversizedStorage
  | oversizedBuffer
  | misfitVector
  | unstoredState (index : Nat)
  | stateBeyond (state size : Nat)
  | propositionBeyond (index : Nat)
  | faultBeyond (index : Nat)
  | crowdedFaults
  | absentFault (index : Nat)
  | shortCounter
  | zeroDivisor
  | outOfBounds
  deriving DecidableEq, Repr

def Misuse.message : Misuse → String
  | .emptyStorage => "Storage capacity must be positive"
  | .oversizedStorage => "Storage capacity must fit into u32"
  | .oversizedBuffer => "Transition capacity must fit into u32"
  | .misfitVector => "State vector has the wrong size"
  | .unstoredState index => s!"State {index} has not been stored"
  | .stateBeyond state size =>
      s!"State {state} is out of range for a set over {size} states"
  | .propositionBeyond index => s!"Proposition index {index} exceeds the limit of 64"
  | .faultBeyond index => s!"Fault index {index} exceeds the limit of 64"
  | .crowdedFaults => "At most 64 faults are supported"
  | .absentFault index => s!"model has no fault {index}"
  | .shortCounter => "a counter needs a limit above 1"
  | .zeroDivisor => "no remainder by zero"
  | .outOfBounds => "index out of bounds"

end Hazard
