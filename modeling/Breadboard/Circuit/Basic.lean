import Breadboard.Circuit.Arena
import Breadboard.Part.Catalog
import Breadboard.Part.Oscillator
import Breadboard.Part.Segments
import Breadboard.Port.Map

/-!
# Circuits

A circuit is an arena of nodes and a list of wires between their ports. A node carries what its kind
of component needs, and a chip carries a circuit of its own, so circuits nest to any depth. The
types of nodes and chips leave open what stands for the circuit inside a chip; `Circuit` closes the
knot.

Every structural edit stamps a circuit with a fresh revision. What is derived from a circuit, its
nets or the pins of a chip, holds as long as the revision that it was derived from.
-/

namespace Breadboard

/-- The handle of a node: its slot in the circuit. -/
abbrev NodeId := Nat

/-- The stamp of a structural edit. -/
abbrev Revision := Nat

/-- A port of a node. -/
structure Terminal where
  node : NodeId
  port : String
deriving DecidableEq

/-- An undirected connection of two ports; the order tells only how it was drawn. -/
structure Wire where
  first : Terminal
  second : Terminal
deriving DecidableEq

namespace Wire

/-- An end of the wire is at the node. -/
def touches (wire : Wire) (node : NodeId) : Bool :=
  wire.first.node == node || wire.second.node == node

/-- The wire joins the two ports, in either order. -/
def joins (wire : Wire) (a b : Terminal) : Bool :=
  (wire.first == a && wire.second == b) || (wire.first == b && wire.second == a)

end Wire

/-- A place on the canvas. Only the height acts on a simulation: it orders the pins of a chip. -/
structure Position where
  x : Int
  /-- The height; smaller is higher. -/
  y : Int
deriving DecidableEq

/-- The internal pins of a chip in the order of its ports, derived from its circuit. -/
structure PinBindings where
  /-- The revision of the circuit that the pins were derived from. -/
  revision : Revision
  inputs : List NodeId
  outputs : List NodeId
  /-- The circuit contains an oscillator, at any depth. -/
  clocked : Bool
deriving DecidableEq

/-- A chip: a circuit behind declared ports. The port at a place in the list belongs to the internal
    pin of the same direction at that place, counted downward. -/
structure Chip (Inner : Type) where
  name : String
  inputs : List PortDecl
  outputs : List PortDecl
  circuit : Inner
  /-- The pins, as they were last derived. -/
  bindings : Option PinBindings
  /-- The inputs of the last evaluation. -/
  lastInputs : PortMap

/-- What a node is, with the state that it needs. -/
inductive Part (Inner : Type) where
  /-- A pin that is driven from outside. -/
  | inputPin (width : PinWidth) (state : Signal)
  | switch (on : Bool)
  /-- A pin that shows what it receives. -/
  | outputPin (width : PinWidth) (shown : Signal)
  | light (lit : Bool)
  | gate (function : Gate)
  | triBuffer
  | merge (lanes : LaneCount)
  | split (lanes : LaneCount)
  | resize (direction : Resize)
  | sevenSegment (segments : Segments)
  | clock (oscillator : Oscillator)
  /-- A point where any number of wires meet. -/
  | joint
  | comment
  | chip (chip : Chip Inner)
  /-- A component of a type that is not known; it is kept and never evaluated. -/
  | unknown

/-- A component in its place in a circuit. -/
structure Node (Inner : Type) where
  label : String
  position : Position
  part : Part Inner
  /-- The signals received in the current pass. -/
  inputs : PortMap
  /-- The signals that are driven. -/
  outputs : PortMap

/-- Nodes and the wires between their ports. -/
structure Circuit where
  nodes : Arena (Node Circuit)
  wires : List Wire
  revision : Revision

/-- The type of a component, unless it is unknown. -/
def Part.type? {Inner : Type} : Part Inner → Option PartType
  | .inputPin width _ => some (.inputPin width)
  | .switch _ => some .switch
  | .outputPin width _ => some (.outputPin width)
  | .light _ => some .light
  | .gate function => some (.gate function)
  | .triBuffer => some .triBuffer
  | .merge lanes => some (.merge lanes)
  | .split lanes => some (.split lanes)
  | .resize direction => some (.resize direction)
  | .sevenSegment _ => some .sevenSegment
  | .clock _ => some .clock
  | .joint => some .joint
  | .comment => some .comment
  | .chip _ => some .chip
  | .unknown => none

/-- The shape of one of a chip's ports. -/
def Chip.portShape {Inner : Type} (chip : Chip Inner) (port : String) : PortShape :=
  Breadboard.portShape PartType.chip.name chip.inputs chip.outputs port

namespace Node

variable {Inner : Type}

/-- A new node at the origin, labelled with the name of its chip or by its type. -/
def ofPart (part : Part Inner) : Node Inner where
  label := match part with
    | .chip chip => chip.name
    | _ => ((part.type?.bind PartType.definition?).map Definition.label).getD ""
  position := ⟨0, 0⟩
  part := part
  inputs := .empty
  outputs := .empty

/-- The node with a label. -/
def labelled (node : Node Inner) (label : String) : Node Inner :=
  { node with label }

/-- The node at a place. -/
def placed (node : Node Inner) (x y : Int) : Node Inner :=
  { node with position := ⟨x, y⟩ }

/-- The shape of a port. Every port of an unknown component drives and listens. -/
def portShape (node : Node Inner) (port : String) : PortShape :=
  match node.part with
  | .chip chip => chip.portShape port
  | part =>
    match part.type?, part.type?.bind PartType.definition? with
    | some type, some definition => type.portShape definition port
    | _, _ => Breadboard.portShape "" [] [] port

/-- The node is a joint. -/
def isJoint (node : Node Inner) : Bool :=
  match node.part with
  | .joint => true
  | _ => false

/-- The node is an input pin. -/
def isInputPin (node : Node Inner) : Bool :=
  match node.part with
  | .inputPin .. => true
  | _ => false

/-- The node is an output pin. -/
def isOutputPin (node : Node Inner) : Bool :=
  match node.part with
  | .outputPin .. => true
  | _ => false

/-- The number of bits of a pin; other nodes count as one bit wide. -/
def pinWidth (node : Node Inner) : Nat :=
  match node.part with
  | .inputPin width _ => width.bits
  | .outputPin width _ => width.bits
  | _ => 1

/-- What a user drives a pin or a switch with: a pin takes a signal in the form of its width, a
    switch as a single bit. Other nodes cannot be driven. -/
def drive? (node : Node Inner) (signal : Signal) : Option (Node Inner) :=
  match node.part with
  | .inputPin width _ => some { node with part := .inputPin width (signal.normalise width.bits) }
  | .switch _ => some { node with part := .switch signal.toBool }
  | _ => none

/-- What a user sees on a node: what is shown for pins, lights and displays, what is driven for
    sources, and the main output for all others. -/
def display? (node : Node Inner) : Option Signal :=
  match node.part with
  | .outputPin _ shown => some shown
  | .light lit => some (.bit lit)
  | .sevenSegment segments => some (.bus segments.toBus)
  | .inputPin _ state => some state
  | .switch on => some (.bit on)
  | .clock oscillator => some (.bit oscillator.output)
  | .joint => node.outputs.get? "joint"
  | _ => node.outputs.get? "out"

/-- The node with a signal at an output. -/
def setOutput (node : Node Inner) (port : String) (signal : Signal) : Node Inner :=
  { node with outputs := node.outputs.insert port signal }

end Node

namespace Circuit

/-- The circuit without nodes. -/
def empty (revision : Revision) : Circuit :=
  ⟨.empty, [], revision⟩

instance : Inhabited Circuit := ⟨empty 0⟩

/-- The node in a slot. -/
def node? (circuit : Circuit) (id : NodeId) : Option (Node Circuit) :=
  circuit.nodes.get? id

/-- The number of nodes. -/
def nodeCount (circuit : Circuit) : Nat :=
  circuit.nodes.size

/-- The handle of the first node with a label. -/
def findLabel? (circuit : Circuit) (label : String) : Option NodeId :=
  (circuit.nodes.items.find? fun item => item.2.label == label).map Prod.fst

/-- The handles of the nodes that pass a test, from top to bottom, and in the order of slots at one
    height. -/
def sortedNodes (circuit : Circuit) (test : Node Circuit → Bool) : List NodeId :=
  let chosen := circuit.nodes.items.filter fun item => test item.2
  (chosen.mergeSort fun a b => a.2.position.y ≤ b.2.position.y).map Prod.fst

/-- The input pins, from top to bottom. -/
def inputPins (circuit : Circuit) : List NodeId :=
  circuit.sortedNodes Node.isInputPin

/-- The output pins, from top to bottom. -/
def outputPins (circuit : Circuit) : List NodeId :=
  circuit.sortedNodes Node.isOutputPin

/-- Changes the state of a node. This is no structural edit: the revision stays. -/
def modifyNode (circuit : Circuit) (id : NodeId) (change : Node Circuit → Node Circuit) : Circuit :=
  { circuit with nodes := circuit.nodes.modify id change }

end Circuit

end Breadboard
