import Breadboard.Circuit.Nesting

/-!
# Chips

A chip made from a circuit has one port for every pin, named by direction and place. The pins behind
the ports are derived once and kept for as long as the revision of the chip's own circuit stands.
-/

namespace Breadboard.Chip

/-- The port for a pin at a place, labelled like the pin, or by its direction if the pin has no
    label. -/
def portOf (circuit : Circuit) (direction : String) (place : Nat) (pin : NodeId) : PortDecl :=
  let node := circuit.node? pin
  let width := (node.map Node.pinWidth).getD 1
  let label := (node.map Node.label).getD ""
  { id := direction ++ decimalText place
    label := if label = "" then direction else label
    bus := decide (1 < width)
    width := if 1 < width then some width else none }

/-- The chip around a circuit, with a port for every pin. -/
def ofCircuit (name : String) (circuit : Circuit) : Chip Circuit where
  name := name
  inputs := circuit.inputPins.mapIdx (portOf circuit "in")
  outputs := circuit.outputPins.mapIdx (portOf circuit "out")
  circuit := circuit
  bindings := none
  lastInputs := .empty

/-- The pins of a circuit in the order of a chip's ports. -/
def computeBindings (circuit : Circuit) : PinBindings where
  revision := circuit.revision
  inputs := circuit.inputPins
  outputs := circuit.outputPins
  clocked := circuit.containsClock

/-- The pins of the chip: those that are kept, if they belong to the present revision of its
    circuit, and newly derived ones otherwise. -/
def currentBindings (chip : Chip Circuit) : PinBindings :=
  match chip.bindings with
  | some kept =>
    if kept.revision = chip.circuit.revision then kept else computeBindings chip.circuit
  | none => computeBindings chip.circuit

/-- The chip that keeps its pins. -/
def bind (chip : Chip Circuit) : Chip Circuit :=
  { chip with bindings := some chip.currentBindings }

end Breadboard.Chip
