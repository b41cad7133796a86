import Breadboard.Circuit.Fold

/-!
# Facts and changes at every depth

Whether a circuit contains an oscillator, how many, setting the frequency of all of them, and the
circuit as a file would give it: with fresh revisions throughout, numbered from inside out, and
without anything derived.
-/

namespace Breadboard

/-- The node is an oscillator or a chip whose circuit is known to contain one. -/
def Node.isClocked (node : Node Bool) : Bool :=
  match node.part with
  | .clock _ => true
  | .chip chip => chip.circuit
  | _ => false

/-- The number of oscillators of a node, the numbers in its chip's circuit being known. -/
def Node.clocks (node : Node Nat) : Nat :=
  match node.part with
  | .clock _ => 1
  | .chip chip => chip.circuit
  | _ => 0

/-- The node with its oscillator, if it is one, at a frequency. -/
def Node.retuned {Inner : Type} (frequency : Frequency) (node : Node Inner) : Node Inner :=
  match node.part with
  | .clock oscillator => { node with part := .clock { oscillator with frequency } }
  | _ => node

namespace Circuit

/-- Some node at some depth is an oscillator. -/
def containsClock : Circuit → Bool :=
  fold fun nodes _ _ => nodes.values.any Node.isClocked

/-- The number of oscillators at all depths. -/
def clockCount : Circuit → Nat :=
  fold fun nodes _ _ => (nodes.values.map Node.clocks).foldl Nat.add 0

/-- Sets every oscillator at every depth to a frequency. -/
def retune (frequency : Frequency) : Circuit → Circuit :=
  fold fun nodes wires revision => ⟨nodes.map (Node.retuned frequency), wires, revision⟩

/-- Gives the circuits inside the nodes their revisions in turn, from the first fresh one on, and
    drops what the chips have derived. -/
def renewSlots : List (Option (Node (Revision → Circuit × Revision))) → Revision →
    List (Option (Node Circuit)) × Revision
  | [], fresh => ([], fresh)
  | none :: rest, fresh =>
    let (slots, next) := renewSlots rest fresh
    (none :: slots, next)
  | some node :: rest, fresh =>
    match node.part with
    | .chip chip =>
      let (circuit, next) := chip.circuit fresh
      let renewed : Chip Circuit := { chip with circuit, bindings := none, lastInputs := .empty }
      let (slots, next) := renewSlots rest next
      (some { node with part := .chip renewed } :: slots, next)
    | _ =>
      let (slots, next) := renewSlots rest fresh
      (some (node.map fun inner => (inner fresh).1) :: slots, next)

/-- The circuit with fresh revisions throughout and nothing derived, and the next fresh revision. A
    circuit is stamped after the circuits inside it. -/
def renew (circuit : Circuit) (fresh : Revision) : Circuit × Revision :=
  fold (fun nodes wires _ next =>
    let (slots, own) := renewSlots nodes.slots next
    (⟨⟨slots⟩, wires, own⟩, own + 1)) circuit fresh

end Circuit

/-- The node with fresh revisions for the circuits inside its chip, and the next fresh revision. -/
def Node.renew (node : Node Circuit) (fresh : Revision) : Node Circuit × Revision :=
  match node.part with
  | .chip chip =>
    let (circuit, next) := chip.circuit.renew fresh
    let renewed : Chip Circuit := { chip with circuit, bindings := none, lastInputs := .empty }
    ({ node with part := .chip renewed }, next)
  | _ => (node, fresh)

/-- The node is an oscillator or a chip that contains one at some depth. -/
def Node.containsClock (node : Node Circuit) : Bool :=
  (node.map Circuit.containsClock).isClocked

end Breadboard
