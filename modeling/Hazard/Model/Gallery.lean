import Hazard.Model.Basic
import Hazard.Scalar
/-!
# A gallery of models

Small systems with faults, each a few lines: components that drift, crash, lose messages or burst.
-/

namespace Hazard

namespace Model

variable {α : Type} [Scalar α]

private def sure (target : Bytes) : Candidate α := { target, probability := 1 }

private def flag (value : Bool) : UInt8 := if value then 1 else 0

private def byteAt (state : Bytes) (position : Nat) : UInt8 := state.getD position 0

private def likely (target : Bytes) (probability : α) (distribution : Nat) : List (Candidate α) :=
  if 0 < probability then [{ target, probability, distribution }] else []

/-- Declares a fault for every offset, with the activations given by name; later ones win. -/
private def offsetFaults (offsets : List UInt8) (activations : List (String × Activation)) :
    List (Fault α) :=
  (List.range offsets.length).map fun position =>
    let name := "F" ++ toString (position + 1)
    let own := activations.filter (·.1 = name)
    { name, activation := (own.getLast?.map (·.2)).getD .nondeterministic }

/-- A component that computes 3 plus the offsets of the faults that strike, once. More than 4 is
hazardous. -/
def offsets (offsets : List UInt8) (activations : List (String × Activation)) : Model α where
  stateSize := 2
  propositions := ["hazard"]
  faults := offsetFaults offsets activations
  start := [0, 0]
  holds state _ := 4 < byteAt state 1
  initial _ := .ok [sure [0, 0]]
  step activations state := .ok <|
    if byteAt state 0 != 0 then [sure [1, byteAt state 1]]
    else
      (Activation.combinations activations).map fun strikes =>
        let active := (strikes.zip offsets).filter (·.1)
        sure [1, 3 + (active.map (·.2)).foldl (· + ·) 0]
  refuse _ := some .outOfBounds

/-- A controller at location 0 that runs on (1), crashes and fails in the next step (2), or drifts
into the hazard (3). -/
def controller : Model α where
  stateSize := 1
  propositions := ["hazard"]
  faults := [{ name := "Crash" }, { name := "Drift" }]
  start := [0]
  holds state _ := byteAt state 0 == 3
  initial _ := .ok [sure [0]]
  step activations state :=
    if byteAt state 0 == 0 then
      .ok ((Activation.combinations activations).map fun strikes =>
        match strikes with
        | true :: _ => sure [2]
        | false :: true :: _ => sure [3]
        | _ => sure [1])
    else if byteAt state 0 == 2 then .error (.failure ⟨"controller crashed"⟩)
    else .ok [sure [byteAt state 0]]
  refuse _ := some .outOfBounds

private def occurrence (faults : List (Fault α)) (activations : List Activation) (position : Nat) :
    α :=
  match activations[position]? with
  | some .forced => 1
  | some .nondeterministic => ((faults[position]?).bind (·.probability)).getD 0
  | _ => 0

/-- Two faults, one nested in the other: the second leads to 100, otherwise the first to 200,
otherwise either follows by chance. -/
def nestedFaults : Model α where
  stateSize := 1
  propositions := ["state100", "state200"]
  faults := declaredFaults
  start := [0]
  holds state position := byteAt state 0 == (if position = 0 then 100 else 200)
  initial _ := .ok (likely [0] 1 0)
  step activations state := .ok <|
    if byteAt state 0 != 0 then likely [byteAt state 0] 1 0
    else
      let first := occurrence declaredFaults activations 0
      let second := occurrence declaredFaults activations 1
      likely [100] second 0
        ++ likely [200] ((1 - second) * first) 0
        ++ likely [100] ((1 - second) * (1 - first) * 0.8) 0
        ++ likely [200] ((1 - second) * (1 - first) * 0.2) 0
  refuse _ := some .outOfBounds
where
  declaredFaults : List (Fault α) :=
    [{ name := "F1", probability := some 0.4 }, { name := "F2", probability := some 0.3 }]

def twoWays : Model α where
  stateSize := 1
  propositions := ["goal"]
  faults := []
  start := [0]
  holds state _ := byteAt state 0 == 1
  initial _ := .ok [sure [0]]
  step _ state := .ok <|
    if byteAt state 0 != 0 then [sure [byteAt state 0]]
    else [
      { target := [1], probability := 0.5 },
      { target := [2], probability := 0.5 },
      { target := [1], probability := 0.9, distribution := 1 },
      { target := [2], probability := 0.1, distribution := 1 }]
  refuse position := some (.absentFault position)

def counter (limit : UInt8) (wrap : Bool) : Setup α :=
  if limit ≤ 1 then .error .shortCounter
  else .ok {
    stateSize := 1
    propositions := ["zero", "half", "max"]
    faults := []
    start := [0]
    holds := fun state position =>
      byteAt state 0 == (if position = 0 then 0 else if position = 1 then limit / 2 else limit - 1)
    initial := fun _ => .ok [sure [0]]
    step := fun _ state => .ok <|
      if byteAt state 0 + 1 < limit then [sure [byteAt state 0 + 1]]
      else if wrap then [sure [0]]
      else []
    refuse := fun position => some (.absentFault position) }

/-- A tank filled by a pump until a sensor reports it full, or a timer expires; it ruptures when it
is filled further. A state is the pressure, the time and whether the pump runs. -/
def pressureTank : Model α where
  stateSize := 3
  propositions := ["ruptured", "pumping"]
  faults := [{ name := "SensorStuck" }, { name := "TimerFailure" },
    { name := "PumpStuck", activation := .suppressed }]
  start := [0, 0, 1]
  holds state position :=
    match position with
    | 0 => 8 ≤ byteAt state 0
    | 1 => byteAt state 2 != 0
    | _ => false
  initial _ := .ok [sure [0, 0, 1]]
  step activations state := .ok <|
    let pumping := byteAt state 2 != 0
    if !pumping || 8 ≤ byteAt state 0 then
      [sure [byteAt state 0, byteAt state 1, flag pumping]]
    else
      let pressure := byteAt state 0 + 1
      let elapsed := byteAt state 1 + 1
      (Activation.combinations activations).map fun strikes =>
        let full := !strikes.getD 0 false && 5 ≤ pressure
        let timeout := !strikes.getD 1 false && 7 ≤ elapsed
        sure [pressure, elapsed, flag (strikes.getD 2 false || !(full || timeout))]
  refuse _ := some .outOfBounds

/-- A sender that tries to get a message through, over one of several lossy channels each time,
until it is delivered or the retries are used up. A state is the number of attempts and whether the
message was delivered. -/
def lossyChannels (losses : List α) (retries : UInt8) : Model α where
  stateSize := 2
  propositions := ["delivered", "failed"]
  faults := [{ name := "ChannelDown" }]
  start := [0, 0]
  holds state position :=
    match position with
    | 0 => byteAt state 1 != 0
    | 1 => failed state
    | _ => false
  initial _ := .ok (likely [0, 0] 1 0)
  step activations state := .ok <|
    if byteAt state 1 != 0 || failed state then
      likely [byteAt state 0, flag (byteAt state 1 != 0)] 1 0
    else
      let down := activations[0]? == some .forced
      let attempts := byteAt state 0 + 1
      losses.zipIdx.flatMap fun (loss, channel) =>
        let loss := if down then 1 else loss
        likely [attempts, 1] (1 - loss) channel ++ likely [attempts, 0] loss channel
  refuse _ := some .outOfBounds
where
  failed (state : Bytes) : Bool := byteAt state 1 == 0 && retries < byteAt state 0

end Model

end Hazard
