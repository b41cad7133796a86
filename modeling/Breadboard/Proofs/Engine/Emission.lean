import Breadboard.Proofs.Engine.Plain
import Breadboard.Proofs.Port.Writing

/-!
# What a step writes

A step writes some entries to the outputs of a node and may change what the node displays; nothing
else. What it writes and displays depends on the staged inputs and on what the part holds, so a second
step from the same inputs changes nothing.
-/

namespace Breadboard

namespace Node

/-- What a step writes to the outputs of a primitive component. -/
def emitted (node : Node Circuit) : List (String × Signal) :=
  let inputs := node.inputs
  match node.part with
  | .inputPin width state => [("out", state.normalise width.bits)]
  | .switch on => [("out", .bit on)]
  | .gate function => [("out", .bit (inputs.gateOutput function))]
  | .triBuffer => [("out", .bit (inputs.bitAt "en" && inputs.bitAt "in"))]
  | .merge lanes => [("out", .bus (inputs.merged lanes))]
  | .split lanes => (splitPorts lanes).zipIdx.map fun lane =>
    (lane.1, .bit ((inputs.lanesAt "in").get (lanes.lanes - 1 - lane.2)))
  | .resize .eightToFour =>
    [("high", .bus ((inputs.lanesAt "in").slice 4 4)), ("low", .bus ((inputs.lanesAt "in").slice 0 4))]
  | .resize .fourToEight =>
    [("out", .bus (((inputs.lanesAt "low").resize 4).append ((inputs.lanesAt "high").resize 4)))]
  | _ => []

/-- The part with what a step makes it display. -/
def displayed (node : Node Circuit) : Part Circuit :=
  let inputs := node.inputs
  match node.part with
  | .outputPin width _ => .outputPin width ((inputs.get? "in").getD (.zero width.bits))
  | .light _ => .light (inputs.bitAt "in")
  | .sevenSegment _ => .sevenSegment (Segments.ofPorts inputs.bitAt)
  | part => part

/-- A step displays and writes, and does nothing else. -/
theorem step_eq (node : Node Circuit) :
    node.step =
      { node with part := node.displayed, outputs := node.outputs.writeAll node.emitted } := by
  obtain ⟨label, position, part, inputs, outputs⟩ := node
  cases part with
  | split lanes =>
    simp only [step, emitted, displayed, PortMap.writeSplit, PortMap.writeAll, List.foldl_map]
  | resize direction => cases direction <;> rfl
  | _ => rfl

/-- A second step from the same inputs changes nothing. -/
@[simp] theorem step_step (node : Node Circuit) : node.step.step = node.step := by
  have emittedAgain : node.step.emitted = node.emitted := by
    obtain ⟨label, position, part, inputs, outputs⟩ := node
    cases part with
    | resize direction => cases direction <;> rfl
    | _ => rfl
  have displayedAgain : node.step.displayed = node.displayed := by
    obtain ⟨label, position, part, inputs, outputs⟩ := node
    cases part with
    | resize direction => cases direction <;> rfl
    | _ => rfl
  rw [step_eq node.step, emittedAgain, displayedAgain, step_eq node]
  simp only [PortMap.writeAll_writeAll]

end Node

/-- What a chip writes to its outputs: what its output pins received. -/
def Chip.copied (chip : Chip Circuit) (pins : List NodeId) : List (String × Signal) :=
  (chip.outputs.zip pins).map fun port => (port.1.id, received chip.circuit port.2)

/-- Copying what output pins received is writing it. -/
theorem Chip.copyOutputs_eq (chip : Chip Circuit) (pins : List NodeId) (outputs : PortMap) :
    chip.copyOutputs pins outputs = outputs.writeAll (chip.copied pins) := by
  rw [copyOutputs, PortMap.writeAll, copied, List.foldl_map]

/-- A port is written what its pin received. Where several ports share a name, the last one that has a
pin counts. -/
theorem Chip.get?_copyOutputs (chip : Chip Circuit) {pins : List NodeId} {place : Nat} {decl : PortDecl}
    {pin : NodeId} (isDecl : chip.outputs[place]? = some decl) (isPin : pins[place]? = some pin)
    (last : ∀ later other, place < later → chip.outputs[later]? = some other →
      later < pins.length → other.id ≠ decl.id) (outputs : PortMap) :
    (chip.copyOutputs pins outputs).get? decl.id = some (received chip.circuit pin) := by
  have zipped : (chip.outputs.zip pins)[place]? = some (decl, pin) :=
    List.getElem?_zip_eq_some.mpr ⟨isDecl, isPin⟩
  have here : (chip.copied pins)[place]? = some (decl.id, received chip.circuit pin) := by
    rw [copied, List.getElem?_map, zipped]
    rfl
  have written : PortMap.lastOf? (chip.copied pins) decl.id = some (received chip.circuit pin) := by
    refine PortMap.lastOf?_eq_some here fun later entry after atLater => ?_
    rw [copied, List.getElem?_map, Option.map_eq_some_iff] at atLater
    obtain ⟨⟨other, otherPin⟩, otherZipped, rfl⟩ := atLater
    obtain ⟨isOther, isOtherPin⟩ := List.getElem?_zip_eq_some.mp otherZipped
    exact last later other after isOther (List.getElem?_eq_some_iff.mp isOtherPin).1
  rw [copyOutputs_eq, PortMap.get?_writeAll, written, Option.some_or]

/-- Where no two ports share a name, every port is written what its pin received. -/
theorem Chip.get?_copyOutputs_of_nodup (chip : Chip Circuit) {pins : List NodeId} {place : Nat}
    {decl : PortDecl} {pin : NodeId} (distinct : (chip.outputs.map PortDecl.id).Nodup)
    (isDecl : chip.outputs[place]? = some decl) (isPin : pins[place]? = some pin) (outputs : PortMap) :
    (chip.copyOutputs pins outputs).get? decl.id = some (received chip.circuit pin) := by
  refine chip.get?_copyOutputs isDecl isPin (fun later other behind isOther _ sameName => ?_) outputs
  have place? : (chip.outputs.map PortDecl.id)[place]? = some decl.id := by
    rw [List.getElem?_map, isDecl, Option.map_some]
  have later? : (chip.outputs.map PortDecl.id)[later]? = some decl.id := by
    rw [List.getElem?_map, isOther, Option.map_some, sameName]
  have inside := (List.getElem?_eq_some_iff.mp place?).1
  exact Nat.ne_of_lt behind ((List.getElem?_inj inside distinct).mp (place?.trans later?.symm))

namespace Node

variable (inner : Circuit → Circuit) (initial : Bool) (node : Node Circuit)

/-- What a step does to the outputs of nodes is to write to them. -/
def Writes (step : Node Circuit → Node Circuit) : Prop :=
  ∀ node, ∃ entries, (step node).outputs = node.outputs.writeAll entries

/-- A step writes to the outputs of a node. -/
theorem writes_plainStep : Writes (plainStep inner initial) := by
  intro node
  unfold plainStep
  split
  · exact ⟨_, Chip.copyOutputs_eq ..⟩
  · exact ⟨node.emitted, by rw [step_eq]⟩

/-- A step leaves the staged inputs. -/
@[simp] theorem inputs_plainStep : (node.plainStep inner initial).inputs = node.inputs := by
  unfold plainStep
  split
  · rfl
  · rw [step_eq]

variable {node}

/-- A joint is told by its part. -/
theorem isJoint_iff : node.isJoint = true ↔ node.part = .joint := by
  obtain ⟨label, position, part, inputs, outputs⟩ := node
  cases part <;> simp [isJoint]

/-- A step of a joint does nothing. -/
theorem plainStep_of_isJoint (joint : node.isJoint = true) :
    node.plainStep inner initial = node := by
  rw [plainStep, isJoint_iff.mp joint]
  simp only [step, isJoint_iff.mp joint]

/-- A primitive component is stepped alone. -/
theorem plainStep_of_not_chip (notChip : ∀ body, node.part ≠ .chip body) :
    node.plainStep inner initial = node.step := by
  unfold plainStep
  split
  · next body isChip => exact absurd isChip (notChip body)
  · rfl

/-- A chip is stepped to the chip that it reaches. -/
theorem plainStep_of_chip {body : Chip Circuit} (isChip : node.part = .chip body) :
    node.plainStep inner initial =
      node.enclosing (Chip.computeBindings body.circuit).outputs
        (body.reached inner initial node.inputs) := by
  rw [plainStep, isChip]

/-- A primitive component that was stepped is not changed by another step. -/
theorem step_plainStep (notChip : ∀ body, (node.plainStep inner initial).part ≠ .chip body) :
    (node.plainStep inner initial).step = node.plainStep inner initial := by
  have wasNoChip : ∀ body, node.part ≠ .chip body := by
    intro body isChip
    rw [plainStep_of_chip inner initial isChip] at notChip
    exact notChip _ rfl
  rw [plainStep_of_not_chip inner initial wasNoChip, step_step]

/-- What is a chip after a step was one before. -/
theorem chip_of_plainStep {body : Chip Circuit}
    (isChip : (node.plainStep inner initial).part = .chip body) :
    ∃ before, node.part = .chip before ∧ body = before.reached inner initial node.inputs := by
  cases part : node.part with
  | chip before =>
    rw [plainStep_of_chip inner initial part] at isChip
    exact ⟨before, rfl, (Part.chip.inj isChip).symm⟩
  | _ =>
    rw [plainStep_of_not_chip inner initial (by simp [part]), step_eq] at isChip
    simp [displayed, part] at isChip

variable (shown : Option Signal)

/-- Showing a signal leaves the staged inputs. -/
@[simp] theorem inputs_showing : (node.showing shown).inputs = node.inputs := by
  cases shown <;> rfl

/-- Showing a signal leaves the part. -/
@[simp] theorem part_showing : (node.showing shown).part = node.part := by
  cases shown <;> rfl

/-- Showing a signal leaves the joint that a node is or is not. -/
@[simp] theorem isJoint_showing : (node.showing shown).isJoint = node.isJoint := by
  cases shown <;> rfl

@[simp] theorem showing_none : node.showing none = node :=
  rfl

/-- Showing a signal twice is showing it. -/
@[simp] theorem showing_showing : (node.showing shown).showing shown = node.showing shown := by
  cases shown with
  | none => rfl
  | some signal => simp [showing, setOutput]

end Node

end Breadboard
