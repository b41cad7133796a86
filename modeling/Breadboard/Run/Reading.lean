import Breadboard.Circuit.Basic

/-!
# Readings

What a run is read for: the shown signals of its output pins, lights and seven-segment displays.
-/

namespace Breadboard

/-- The shown signal of a node. -/
structure Reading where
  node : NodeId
  label : String
  signal : Signal
deriving DecidableEq

/-- The node is read after a run. -/
def Node.isReadout {Inner : Type} (node : Node Inner) : Bool :=
  match node.part with
  | .outputPin .. | .light _ | .sevenSegment _ => true
  | _ => false

/-- The readings of a circuit, in the order of its nodes. -/
def Circuit.readings (circuit : Circuit) : List Reading :=
  circuit.nodes.items.filterMap fun (id, node) =>
    if node.isReadout then node.display?.map fun signal => ⟨id, node.label, signal⟩ else none

end Breadboard
