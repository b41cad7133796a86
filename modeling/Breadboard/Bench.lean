import Breadboard.Engine.Settle

/-!
# Test benches

A bench holds a circuit with the netlists that its evaluation needs, and names nodes by their labels
alone. A label that names no node, or a node that cannot do what is asked, is an error of the test.
-/

namespace Breadboard

/-- What a test asked for in vain. -/
inductive BenchError where
  | noNode (label : String)
  | noDisplay (label : String)
  | notDrivable (label : String)
deriving DecidableEq

/-- The report of an error. -/
def BenchError.message : BenchError → String
  | .noNode label => "no node labelled '" ++ label ++ "'"
  | .noDisplay label => "node '" ++ label ++ "' has no display value"
  | .notDrivable label => "node '" ++ label ++ "' cannot be driven"

/-- A circuit under test. -/
structure Bench where
  circuit : Circuit
  limits : Limits
  cache : NetlistCache

namespace Bench

/-- A bench for a circuit. -/
def new (circuit : Circuit) (limits : Limits) : Bench :=
  ⟨circuit, limits, .empty⟩

/-- Evaluates one tick. -/
def tick (bench : Bench) : Bench × Except Fault Settling :=
  let (circuit, cache, report) := bench.circuit.evaluate bench.limits .top bench.cache
  ({ bench with circuit, cache }, report)

/-- Evaluates ticks up to the first fault and gives the report of the last one, or of an earlier
    evaluation if there are none. -/
def ticksAfter (bench : Bench) (report : Settling) : Nat → Bench × Except Fault Settling
  | 0 => (bench, .ok report)
  | left + 1 =>
    match bench.tick with
    | (bench, .ok report) => bench.ticksAfter report left
    | (bench, .error fault) => (bench, .error fault)

/-- Evaluates a number of ticks and gives the report of the last one. -/
def ticks (bench : Bench) (count : Nat) : Bench × Except Fault Settling :=
  bench.ticksAfter .idle count

/-- The handle of the node with a label. -/
def id (bench : Bench) (label : String) : Except BenchError NodeId :=
  match bench.circuit.findLabel? label with
  | some id => .ok id
  | none => .error (.noNode label)

/-- The shown signal of the node with a label. -/
def read (bench : Bench) (label : String) : Except BenchError Signal := do
  let id ← bench.id label
  match (bench.circuit.node? id).bind Node.display? with
  | some signal => return signal
  | none => throw (.noDisplay label)

/-- Drives the node with a label. -/
def set (bench : Bench) (label : String) (value : Bool) : Except BenchError Bench := do
  let id ← bench.id label
  match (bench.circuit.node? id).bind fun node => node.drive? (.bit value) with
  | some driven =>
    return { bench with circuit := bench.circuit.modifyNode id fun _ => driven }
  | none => throw (.notDrivable label)

end Bench

end Breadboard
