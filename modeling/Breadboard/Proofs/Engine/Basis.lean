import Breadboard.Proofs.Circuit.Outline
import Breadboard.Proofs.Engine.Emission
import Breadboard.Proofs.Engine.Lasting

/-!
# What a tick starts from and what it shows

The basis of a circuit is what a tick cannot overwrite: the structure, the states of switches and of
input pins that stand behind no port of a chip, the outputs of oscillators, and the signals at ports
that nothing writes to. Everything else that a circuit holds is stale when a tick begins. What is
observed of a circuit are the staged inputs, the outputs, and all that pins, lights, displays and joints
show, at every depth. Both are views, so both are told node by node.
-/

namespace Breadboard

namespace Chip

/-- The internal pins that are driven from the ports of the chip. -/
def boundPins (chip : Chip Circuit) : List NodeId :=
  (chip.inputs.zip chip.circuit.inputPins).map Prod.snd

/-- The ports that internal pins are copied to. -/
def copiedPorts (chip : Chip Circuit) : List String :=
  (chip.outputs.zip chip.circuit.outputPins).map fun port => port.1.id

end Chip

/-- The node without its state, if it is an input pin. -/
def Node.grounded (node : Node Circuit) : Node Circuit :=
  match node.part with
  | .inputPin width _ => { node with part := .inputPin width (.bit false) }
  | _ => node

/-- The circuit with some of its input pins without their states. -/
def Circuit.grounded (pins : List NodeId) (circuit : Circuit) : Circuit :=
  pins.foldl (fun circuit pin => circuit.modifyNode pin Node.grounded) circuit

/-- The ports that steps and the beginning of a tick write to, joints apart. -/
def Node.written (node : Node Circuit) : List String :=
  match node.part with
  | .split lanes => splitPorts lanes
  | .resize .eightToFour => ["high", "low"]
  | .chip body => body.copiedPorts
  | .outputPin .. | .light _ | .sevenSegment _ | .joint | .comment | .unknown => []
  | _ => ["out"]

/-- The signals at ports that nothing writes to. A joint has none, since it is cleared when a tick
begins. -/
def Node.stored (node : Node Circuit) : PortMap :=
  if node.isJoint then .empty else node.outputs.without node.written

/-- The part without what a tick overwrites. -/
def Part.held : Part Circuit → Part Circuit
  | .outputPin width _ => .outputPin width (.bit false)
  | .light _ => .light false
  | .sevenSegment _ => .sevenSegment .dark
  | .clock oscillator => .clock { Oscillator.initial with state := oscillator.output }
  | .chip body =>
    .chip { body with
      circuit := body.circuit.grounded body.boundPins
      bindings := none
      lastInputs := .empty }
  | other => other

/-- The node without what a tick overwrites. -/
def Node.based (node : Node Circuit) : Node Circuit :=
  { node with part := node.part.held, inputs := .empty, outputs := node.stored }

/-- The circuit without what a tick overwrites, and without stamps. -/
def Circuit.basis : Circuit → Circuit :=
  Circuit.viewed (fun _ => 0) Node.based

/-- The node without what a tick overwrites, and without stamps. -/
def Node.basis : Node Circuit → Node Circuit :=
  Node.viewed (fun _ => 0) Node.based

/-- The part as a user sees it: of an oscillator its output, and nothing that a chip has derived. -/
def Part.observable : Part Circuit → Part Circuit
  | .clock oscillator => .clock { Oscillator.initial with state := oscillator.output }
  | .chip body => .chip { body with bindings := none, lastInputs := .empty }
  | other => other

/-- The circuit with its staged inputs, its outputs and its displays, at every depth. -/
def Circuit.observed : Circuit → Circuit :=
  Circuit.viewed (fun _ => 0) fun node => { node with part := node.part.observable }

/-- The node with its staged inputs, its outputs and what it displays, at every depth. -/
def Node.observed : Node Circuit → Node Circuit :=
  Node.viewed (fun _ => 0) fun node => { node with part := node.part.observable }

namespace Circuit

variable {circuit left right : Circuit} {pins : List NodeId}

/-- Grounding pins grounds the nodes that they name.

Proof: by induction on the pins. A pin that is named twice is grounded once. -/
theorem node?_grounded (pins : List NodeId) (circuit : Circuit) (id : NodeId) :
    (circuit.grounded pins).node? id =
      (circuit.node? id).map fun node => if id ∈ pins then node.grounded else node := by
  have twice (node : Node Circuit) : node.grounded.grounded = node.grounded := by
    obtain ⟨_, _, part, _, _⟩ := node
    cases part <;> rfl
  induction pins generalizing circuit with
  | nil =>
    rw [show circuit.grounded [] = circuit from rfl]
    simp
  | cons pin rest inductionHypothesis =>
    rw [show circuit.grounded (pin :: rest) = (circuit.modifyNode pin Node.grounded).grounded rest
      from rfl, inductionHypothesis, node?_modifyNode]
    by_cases here : pin = id
    · subst here
      rw [if_pos rfl, Option.map_map]
      refine Option.map_congr fun node _ => ?_
      simp only [Function.comp_apply, List.mem_cons, true_or, if_true, twice, ite_self]
    · rw [if_neg here]
      refine Option.map_congr fun node _ => ?_
      have same : id ∈ pin :: rest ↔ id ∈ rest := by simp [Ne.symm here]
      simp only [same]

/-- Grounding pins keeps the frame. -/
theorem sameFrame_grounded (pins : List NodeId) (circuit : Circuit) :
    (circuit.grounded pins).SameFrame circuit :=
  sameFrame_foldl (fun pin => pin) (fun _ => Node.grounded) pins circuit

/-- Grounding pins keeps the outline. -/
theorem outline_grounded (pins : List NodeId) (circuit : Circuit) :
    (circuit.grounded pins).outline = circuit.outline := by
  have frame := sameFrame_grounded pins circuit
  refine viewed_ext frame.size (fun id => ?_) frame.wires rfl
  rw [node?_grounded, Option.map_map]
  refine Option.map_congr fun node _ => ?_
  simp only [Function.comp_apply]
  split
  · obtain ⟨_, _, part, _, _⟩ := node
    cases part <;> rfl
  · rfl

/-- What a tick cannot overwrite of a node has the outline of the node. -/
theorem outline_based (node : Node Circuit) : node.based.outline = node.outline := by
  obtain ⟨label, position, part, inputs, outputs⟩ := node
  cases part with
  | chip body =>
    have inner := outline_grounded body.boundPins body.circuit
    simp only [outline] at inner
    simp only [Node.outline, Node.viewed, Node.based, Node.outlined, Node.map, Part.map, Part.held,
      Part.outline, Chip.map, inner]
  | _ => rfl

/-- The basis has the outline of the circuit. -/
theorem outline_basis (circuit : Circuit) : circuit.basis.outline = circuit.outline :=
  outline_viewed outline_based circuit

/-- Circuits with one basis have one outline. -/
theorem outline_of_basis_eq (same : left.basis = right.basis) : left.outline = right.outline := by
  rw [← outline_basis left, same, outline_basis]

end Circuit

namespace Node

/-- The basis of a node writes to the ports that the node writes to. -/
theorem written_basis (node : Node Circuit) : node.basis.written = node.written := by
  obtain ⟨label, position, part, inputs, outputs⟩ := node
  cases part with
  | chip body =>
    have pins : (Circuit.grounded (body.map Circuit.basis).boundPins body.circuit.basis).outputPins =
        body.circuit.outputPins :=
      Circuit.outputPins_of_outline_eq ((Circuit.outline_grounded _ _).trans (Circuit.outline_basis _))
    exact congrArg (fun pins => (body.outputs.zip pins).map fun port => port.1.id) pins
  | resize direction => cases direction <;> rfl
  | _ => rfl

/-- The basis of a node holds the signals at ports that nothing writes to. -/
theorem outputs_basis (node : Node Circuit) : node.basis.outputs = node.stored := by
  obtain ⟨label, position, part, inputs, outputs⟩ := node
  cases part with
  | chip body =>
    have pins : body.circuit.basis.outputPins = body.circuit.outputPins :=
      Circuit.outputPins_of_outline_eq (Circuit.outline_basis _)
    exact congrArg (fun pins => outputs.without
      ((body.outputs.zip pins).map fun port => port.1.id)) pins
  | resize direction => cases direction <;> rfl
  | _ => rfl

end Node

end Breadboard
