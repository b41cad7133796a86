import Breadboard.Circuit.Basic

/-!
# Structural edits

Adding and removing nodes, wiring, unwiring and moving. Every edit that changes something takes the
fresh revision it is given; one that finds nothing to change leaves the circuit as it is. The caller
sees to it that no two edits are given the same revision.
-/

namespace Breadboard.Circuit

/-- Stamps the circuit as edited. -/
def touch (circuit : Circuit) (fresh : Revision) : Circuit :=
  { circuit with revision := fresh }

/-- Adds a node, whose handle is `circuit.nodes.next`. -/
def addNode (circuit : Circuit) (node : Node Circuit) (fresh : Revision) : Circuit :=
  { circuit with nodes := circuit.nodes.alloc node, revision := fresh }

/-- Removes a node together with every wire at it. -/
def removeNode (circuit : Circuit) (id : NodeId) (fresh : Revision) : Circuit :=
  if circuit.nodes.contains id then
    { nodes := circuit.nodes.remove id
      wires := circuit.wires.filter fun wire => !wire.touches id
      revision := fresh }
  else circuit

/-- Wires two ports together. The ends need not name nodes; wires to missing nodes join nothing. -/
def connect (circuit : Circuit) (first second : Terminal) (fresh : Revision) : Circuit :=
  { circuit with wires := circuit.wires ++ [⟨first, second⟩], revision := fresh }

/-- The number of wires that join two ports. -/
def joinCount (circuit : Circuit) (a b : Terminal) : Nat :=
  (circuit.wires.filter fun wire => wire.joins a b).length

/-- Removes every wire that joins two ports, in either order. -/
def disconnect (circuit : Circuit) (a b : Terminal) (fresh : Revision) : Circuit :=
  if circuit.joinCount a b = 0 then circuit
  else
    { circuit with
      wires := circuit.wires.filter fun wire => !wire.joins a b
      revision := fresh }

/-- Moves a node. Heights order the pins of a chip, so this is a structural edit. -/
def moveNode (circuit : Circuit) (id : NodeId) (place : Position) (fresh : Revision) : Circuit :=
  if circuit.nodes.contains id then
    (circuit.modifyNode id fun node => { node with position := place }).touch fresh
  else circuit

/-- The circuit that the nodes of a path lead into, chip by chip. -/
def inside? (circuit : Circuit) : List NodeId → Option Circuit
  | [] => some circuit
  | id :: path =>
    match (circuit.node? id).map Node.part with
    | some (.chip chip) => chip.circuit.inside? path
    | _ => none

/-- Changes the circuit that a path leads into, if it leads into one. -/
def modifyInside (circuit : Circuit) (change : Circuit → Circuit) : List NodeId → Circuit
  | [] => change circuit
  | id :: path =>
    circuit.modifyNode id fun node =>
      match node.part with
      | .chip chip =>
        { node with part := .chip { chip with circuit := chip.circuit.modifyInside change path } }
      | _ => node

end Breadboard.Circuit
