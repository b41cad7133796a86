import Breadboard.Circuit.Basic

/-!
# Recursion over nested circuits

Whatever is computed over a circuit and all circuits inside its chips is computed layer by layer:
each layer sees the results of the inner circuits in their places. `Circuit.fold` is that recursion,
and `Circuit.fold_eq` its one equation.
-/

namespace Breadboard

variable {α β : Type}

/-- A chip with another thing in the place of its circuit. -/
def Chip.map (change : α → β) (chip : Chip α) : Chip β where
  name := chip.name
  inputs := chip.inputs
  outputs := chip.outputs
  circuit := change chip.circuit
  bindings := chip.bindings
  lastInputs := chip.lastInputs

/-- A part with another thing in the place of a chip's circuit. -/
def Part.map (change : α → β) : Part α → Part β
  | .inputPin width state => .inputPin width state
  | .switch on => .switch on
  | .outputPin width shown => .outputPin width shown
  | .light lit => .light lit
  | .gate function => .gate function
  | .triBuffer => .triBuffer
  | .merge lanes => .merge lanes
  | .split lanes => .split lanes
  | .resize direction => .resize direction
  | .sevenSegment segments => .sevenSegment segments
  | .clock oscillator => .clock oscillator
  | .joint => .joint
  | .comment => .comment
  | .chip body => .chip (body.map change)
  | .unknown => .unknown

/-- A node with another thing in the place of a chip's circuit. -/
def Node.map (change : α → β) (node : Node α) : Node β where
  label := node.label
  position := node.position
  part := node.part.map change
  inputs := node.inputs
  outputs := node.outputs

section Fold

variable (layer : Arena (Node α) → List Wire → Revision → α)

mutual

/-- The result for a circuit, from the results for the circuits inside its chips. -/
def Circuit.fold : Circuit → α
  | ⟨nodes, wires, revision⟩ => layer (Circuit.foldArena nodes) wires revision

/-- The nodes with the results in the places of the inner circuits. -/
def Circuit.foldArena : Arena (Node Circuit) → Arena (Node α)
  | ⟨slots⟩ => ⟨Circuit.foldSlots slots⟩

@[inherit_doc Circuit.foldArena]
def Circuit.foldSlots : List (Option (Node Circuit)) → List (Option (Node α))
  | [] => []
  | slot :: rest => Circuit.foldSlot slot :: Circuit.foldSlots rest

@[inherit_doc Circuit.foldArena]
def Circuit.foldSlot : Option (Node Circuit) → Option (Node α)
  | none => none
  | some node => some (Circuit.foldNode node)

@[inherit_doc Circuit.foldArena]
def Circuit.foldNode : Node Circuit → Node α
  | ⟨label, position, part, inputs, outputs⟩ =>
    ⟨label, position, Circuit.foldPart part, inputs, outputs⟩

@[inherit_doc Circuit.foldArena]
def Circuit.foldPart : Part Circuit → Part α
  | .inputPin width state => .inputPin width state
  | .switch on => .switch on
  | .outputPin width shown => .outputPin width shown
  | .light lit => .light lit
  | .gate function => .gate function
  | .triBuffer => .triBuffer
  | .merge lanes => .merge lanes
  | .split lanes => .split lanes
  | .resize direction => .resize direction
  | .sevenSegment segments => .sevenSegment segments
  | .clock oscillator => .clock oscillator
  | .joint => .joint
  | .comment => .comment
  | .chip body => .chip (Circuit.foldChip body)
  | .unknown => .unknown

@[inherit_doc Circuit.foldArena]
def Circuit.foldChip : Chip Circuit → Chip α
  | ⟨name, inputs, outputs, circuit, bindings, lastInputs⟩ =>
    ⟨name, inputs, outputs, Circuit.fold circuit, bindings, lastInputs⟩

end

theorem Circuit.foldChip_eq (chip : Chip Circuit) :
    Circuit.foldChip layer chip = chip.map (Circuit.fold layer) := by
  cases chip
  simp [Circuit.foldChip, Chip.map]

theorem Circuit.foldPart_eq (part : Part Circuit) :
    Circuit.foldPart layer part = part.map (Circuit.fold layer) := by
  cases part <;> simp [Circuit.foldPart, Part.map, Circuit.foldChip_eq]

theorem Circuit.foldNode_eq (node : Node Circuit) :
    Circuit.foldNode layer node = node.map (Circuit.fold layer) := by
  cases node
  simp [Circuit.foldNode, Node.map, Circuit.foldPart_eq]

theorem Circuit.foldSlots_eq (slots : List (Option (Node Circuit))) :
    Circuit.foldSlots layer slots = slots.map (Option.map (Node.map (Circuit.fold layer))) := by
  induction slots with
  | nil => simp [Circuit.foldSlots]
  | cons slot rest inductionHypothesis =>
    cases slot <;>
      simp [Circuit.foldSlots, Circuit.foldSlot, Circuit.foldNode_eq, inductionHypothesis]

/-- The result for a circuit is the layer's result for its nodes, each inner circuit replaced by its
    own result. -/
theorem Circuit.fold_eq (circuit : Circuit) :
    circuit.fold layer =
      layer (circuit.nodes.map (Node.map (Circuit.fold layer))) circuit.wires circuit.revision := by
  cases circuit with
  | mk nodes wires revision =>
    cases nodes
    simp [Circuit.fold, Circuit.foldArena, Arena.map, Circuit.foldSlots_eq]

end Fold

end Breadboard
