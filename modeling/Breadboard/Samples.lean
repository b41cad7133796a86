import Breadboard.Circuit.Chip
import Breadboard.Circuit.Edit

/-!
# Sample circuits

Small circuits whose behaviour is known: an inverter, a light behind a gate, a bus that is merged
and split again, a full adder, and chips around them. They carry no revisions; `Circuit.renew`
stamps them.
-/

namespace Breadboard.Samples

/-- A circuit of nodes, whose handles are their places in the list, and of wires. -/
def ofParts (nodes : List (Node Circuit)) (wires : List (NodeId × String × NodeId × String)) :
    Circuit where
  nodes := ⟨nodes.map some⟩
  wires := wires.map fun (first, out, second, into) => ⟨⟨first, out⟩, ⟨second, into⟩⟩
  revision := 0

/-- An input pin of one bit. -/
def pinIn (label : String) (state : Bool) : Node Circuit :=
  (Node.ofPart (.inputPin .one (.bit state))).labelled label

/-- An output pin of one bit. -/
def pinOut (label : String) : Node Circuit :=
  (Node.ofPart (.outputPin .one (.bit false))).labelled label

/-- A gate with the label of its type. -/
def gate (function : Gate) : Node Circuit :=
  Node.ofPart (.gate function)

/-- A switch. -/
def switch (label : String) (on : Bool) : Node Circuit :=
  (Node.ofPart (.switch on)).labelled label

/-- A pin `A`, inverted on a pin `Q`. -/
def inverter (a : Bool) : Circuit :=
  ofParts [pinIn "A" a, gate .not, pinOut "Q"] [(0, "out", 1, "in"), (1, "out", 2, "in")]

/-- Two switches `A` and `B`, and a light `L` that is lit when both are closed. -/
def andLight (a b : Bool) : Circuit :=
  ofParts
    [switch "A" a, switch "B" b, gate .and, (Node.ofPart (.light false)).labelled "L"]
    [(0, "out", 2, "a"), (1, "out", 2, "b"), (2, "out", 3, "in")]

/-- The pins of one lane of `mergeSplit`. -/
def lanePins (lane : Nat) (bit : Bool) : List (Node Circuit) :=
  [pinIn ("I" ++ decimalText lane) bit, pinOut ("O" ++ decimalText lane)]

/-- The wires of one lane of `mergeSplit`. -/
def laneWires (lane : Nat) : List (NodeId × String × NodeId × String) :=
  [(2 * lane + 3, "out", 0, "i" ++ decimalText lane),
    (1, "o" ++ decimalText lane, 2 * lane + 4, "in")]

/-- Four pins, merged into a bus that is shown on a pin `BUS` and split onto four pins again. -/
def mergeSplit (bits : List Bool) : Circuit :=
  let bus := (Node.ofPart (.outputPin .four (.zero 4))).labelled "BUS"
  let lanes := List.range 4
  ofParts
    ([Node.ofPart (.merge .four), Node.ofPart (.split .four), bus]
      ++ lanes.flatMap fun lane => lanePins lane (bits.getD lane false))
    ([(0, "out", 1, "in"), (0, "out", 2, "in")] ++ lanes.flatMap laneWires)

/-- The sum `S` and the carry `COUT` of three bits `A`, `B` and `CIN`. -/
def fullAdder : Circuit :=
  ofParts
    [(pinIn "A" false).placed 0 0, (pinIn "B" false).placed 0 40, (pinIn "CIN" false).placed 0 80,
      gate .xor, gate .xor, gate .and, gate .and, gate .or,
      (pinOut "S").placed 200 0, (pinOut "COUT").placed 200 40]
    [(0, "out", 3, "a"), (1, "out", 3, "b"), (3, "out", 4, "a"), (2, "out", 4, "b"),
      (4, "out", 8, "in"), (0, "out", 5, "a"), (1, "out", 5, "b"), (3, "out", 6, "a"),
      (2, "out", 6, "b"), (5, "out", 7, "a"), (6, "out", 7, "b"), (7, "out", 9, "in")]

/-- A chip that wires its one input straight to its one output. -/
def wireChip : Chip Circuit :=
  .ofCircuit "WIRE"
    (ofParts [(pinIn "IN" false).placed 0 0, (pinOut "OUT").placed 100 0] [(0, "out", 1, "in")])

/-- A pin `A`, passed through a chip onto a pin `Q`. -/
def aroundChip (chip : Chip Circuit) (a : Bool) : Circuit :=
  ofParts [pinIn "A" a, (Node.ofPart (.chip chip)).labelled "X", pinOut "Q"]
    [(0, "out", 1, "in0"), (1, "out0", 2, "in")]

/-- A chip that passes its input through, with as many chips around each other. -/
def nestedWire : Nat → Chip Circuit
  | 0 => wireChip
  | depth + 1 => .ofCircuit "WIRE2" (aroundChip (nestedWire depth) false)

/-- A full adder as a chip, of which a pin feeds the first input. -/
def adderChip (a : Bool) : Circuit :=
  aroundChip (.ofCircuit "ADD" fullAdder) a

/-- The sample circuit with a name, its pins driven with the given bits; those missing are clear. -/
def ofName? (name : String) (bits : List Bool) (depth : Nat) : Option Circuit :=
  let a := bits.getD 0 false
  match name with
  | "inverter" => some (inverter a)
  | "and_light" => some (andLight a (bits.getD 1 false))
  | "merge_split" => some (mergeSplit bits)
  | "full_adder" => some fullAdder
  | "chip" => some (aroundChip (nestedWire depth) a)
  | "adder_chip" => some (adderChip a)
  | _ => none

end Breadboard.Samples
