import Breadboard.Proofs.Engine.Driving

/-!
# The basis lasts

An evaluation writes only to the ports that it always writes to, so it keeps the basis of every node at
every depth. It also leaves the pins that a chip was driven at: driving them again from the same inputs
changes nothing.
-/

namespace Breadboard

namespace Node

variable {node other : Node Circuit}

/-- Nodes with the same label and position, parts that hold the same and the same signals at ports that
nothing writes to have one basis. -/
theorem basis_ext (label : node.label = other.label) (position : node.position = other.position)
    (part : node.basis.part = other.basis.part) (stored : node.stored = other.stored) :
    node.basis = other.basis := by
  have eta (node : Node Circuit) : node.basis =
      ⟨node.label, node.position, node.basis.part, .empty, node.stored⟩ := by
    rw [← outputs_basis]
    rfl
  rw [eta node, eta other, label, position, part, stored]

/-- The basis of a chip holds its circuit without the states of driven pins. -/
theorem part_basis_of_chip {body : Chip Circuit} (isChip : node.part = .chip body) :
    node.basis.part = .chip
      ⟨body.name, body.inputs, body.outputs, body.circuit.basis.grounded body.boundPins, none,
        .empty⟩ := by
  obtain ⟨label, position, _, inputs, outputs⟩ := node
  simp only at isChip
  subst isChip
  have pins : (body.map Circuit.basis).boundPins = body.boundPins := by
    simp only [Chip.boundPins, Chip.map]
    rw [Circuit.inputPins_of_outline_eq (Circuit.outline_basis body.circuit)]
  simp only [basis, viewed, based, map, Part.map, Part.held]
  exact congrArg (fun pins => Part.chip
    ⟨body.name, body.inputs, body.outputs, body.circuit.basis.grounded pins, none, .empty⟩) pins

/-- What has the basis of a chip is a chip with the same basis. -/
theorem chip_of_basis_eq (same : node.basis = other.basis) {body : Chip Circuit}
    (isChip : node.part = .chip body) :
    ∃ otherBody, other.part = .chip otherBody ∧ body.SameBasis otherBody := by
  have parts := congrArg Node.part same
  rw [part_basis_of_chip isChip] at parts
  cases isOther : other.part with
  | chip otherBody =>
    rw [part_basis_of_chip isOther] at parts
    simp only [Part.chip.injEq, Chip.mk.injEq, and_true] at parts
    obtain ⟨name, inputs, outputs, circuit⟩ := parts
    exact ⟨otherBody, rfl, name, inputs, outputs, circuit⟩
  | _ =>
    obtain ⟨label, position, part, inputs, outputs⟩ := other
    simp only at isOther
    subst isOther
    cases parts

/-- A step writes to all the ports that it may write to, unless the node is a chip or an oscillator,
which are not written to by steps of their own. -/
theorem map_fst_emitted (notChip : ∀ body, node.part ≠ .chip body)
    (notClock : ∀ oscillator, node.part ≠ .clock oscillator) :
    node.emitted.map Prod.fst = node.written := by
  obtain ⟨label, position, part, inputs, outputs⟩ := node
  cases part with
  | chip body => exact absurd rfl (notChip body)
  | clock oscillator => exact absurd rfl (notClock oscillator)
  | split lanes =>
    simp only [emitted, written, List.map_map]
    exact List.zipIdx_map_fst 0 (splitPorts lanes)
  | resize direction => cases direction <;> rfl
  | _ => rfl

/-- A step writes to no other ports. -/
theorem mem_written_of_emitted (notChip : ∀ body, node.part ≠ .chip body) :
    ∀ entry ∈ node.emitted, entry.1 ∈ node.written := by
  intro entry member
  by_cases clock : ∃ oscillator, node.part = .clock oscillator
  · obtain ⟨oscillator, isClock⟩ := clock
    rw [emitted, isClock] at member
    cases member
  · rw [← map_fst_emitted notChip fun oscillator isClock => clock ⟨oscillator, isClock⟩]
    exact List.mem_map_of_mem member

end Node

/-- Driving the pins of a chip keeps any view of its circuit, the pins apart, that looks at a driven pin
without its state as before. -/
theorem Chip.grounded_driven_viewed {stamp : Revision → Revision} {view : Node Circuit → Node Circuit}
    (pins : ∀ node : Node Circuit, node.isInputPin = true → ∀ signal,
      ((node.driveFrom signal).viewed stamp view).grounded = (node.viewed stamp view).grounded)
    (chip : Chip Circuit) (inputs : PortMap) :
    ((chip.driven inputs).viewed stamp view).grounded chip.boundPins =
      (chip.circuit.viewed stamp view).grounded chip.boundPins := by
  have frame := chip.sameFrame_driven inputs
  have leftFrame := Circuit.sameFrame_grounded chip.boundPins ((chip.driven inputs).viewed stamp view)
  have rightFrame := Circuit.sameFrame_grounded chip.boundPins (chip.circuit.viewed stamp view)
  refine Circuit.ext_node? ?_ (fun id => ?_) ?_ ?_
  · rw [leftFrame.size, rightFrame.size]
    simp [Circuit.viewed_eq, Arena.map, frame.size]
  · simp only [Circuit.node?_grounded, Circuit.node?_viewed, Option.map_map]
    rw [node?_driven, Option.map_map]
    refine Option.map_congr fun node found => ?_
    simp only [Function.comp_apply]
    cases drives : chip.driver? id with
    | none => rfl
    | some decl =>
      have bound : id ∈ chip.boundPins := by
        rw [← isSome_driver?, drives]
        rfl
      rw [if_pos bound, if_pos bound]
      exact pins node (isInputPin_of_bound bound found) _
  · rw [leftFrame.wires, rightFrame.wires]
    simp [Circuit.viewed_eq, frame.wires]
  · rw [leftFrame.revision, rightFrame.revision]
    simp [Circuit.viewed_eq, frame.revision]

/-- Driving the pins of a chip keeps the basis of its circuit, the pins apart. -/
theorem Chip.grounded_driven (chip : Chip Circuit) (inputs : PortMap) :
    (chip.driven inputs).basis.grounded chip.boundPins = chip.circuit.basis.grounded chip.boundPins :=
  chip.grounded_driven_viewed (fun _ pin => Node.grounded_basis_driveFrom pin) inputs

/-- Driving the pins of a chip keeps the outline of its circuit. -/
theorem Chip.outline_driven (chip : Chip Circuit) (inputs : PortMap) :
    (chip.driven inputs).outline = chip.circuit.outline := by
  have grounded := congrArg Circuit.outline (chip.grounded_driven inputs)
  rwa [Circuit.outline_grounded, Circuit.outline_grounded, Circuit.outline_basis,
    Circuit.outline_basis] at grounded

namespace Node

/-- Putting a circuit with the basis of the driven one into a chip keeps the basis of the node. -/
theorem basis_enclosing {node : Node Circuit} {body : Chip Circuit} (isChip : node.part = .chip body)
    (inputs : PortMap) {circuit : Circuit} (same : circuit.basis = (body.driven inputs).basis) :
    (node.enclosing (Chip.computeBindings body.circuit).outputs (body.around inputs circuit)).basis =
      node.basis := by
  have outlines : circuit.outline = body.circuit.outline :=
    (Circuit.outline_of_basis_eq same).trans (body.outline_driven inputs)
  have inputPins := Circuit.inputPins_of_outline_eq outlines
  have outputPins := Circuit.outputPins_of_outline_eq outlines
  refine basis_ext rfl rfl ?_ ?_
  · have bound : (body.around inputs circuit).boundPins = body.boundPins :=
      congrArg (fun pins => (body.inputs.zip pins).map Prod.snd) inputPins
    have isEnclosed : (node.enclosing (Chip.computeBindings body.circuit).outputs
        (body.around inputs circuit)).part = .chip (body.around inputs circuit) := rfl
    rw [part_basis_of_chip isEnclosed, part_basis_of_chip isChip]
    simp only [Part.chip.injEq, Chip.mk.injEq, and_true]
    refine ⟨rfl, rfl, rfl, ?_⟩
    rw [bound]
    exact (congrArg (Circuit.grounded body.boundPins) same).trans (body.grounded_driven inputs)
  · obtain ⟨label, position, _, nodeInputs, outputs⟩ := node
    simp only at isChip
    subst isChip
    have ports : (body.around inputs circuit).copiedPorts = body.copiedPorts :=
      congrArg (fun pins => (body.outputs.zip pins).map fun port : PortDecl × NodeId => port.1.id)
        outputPins
    simp only [stored, enclosing, isJoint, written, Bool.false_eq_true, if_false, ports]
    rw [Chip.copyOutputs_eq, PortMap.without_writeAll]
    intro entry member
    obtain ⟨port, zipped, rfl⟩ := List.mem_map.mp member
    exact List.mem_map.mpr ⟨port, zipped, rfl⟩

/-- An evaluation keeps the basis of every node. -/
theorem lasting_basis : Node.Lasting fun before after => after.basis = before.basis where
  refl _ := rfl
  trans first second := second.trans first
  staged _ _ := rfl
  quieted node := by
    obtain ⟨label, position, part, inputs, outputs⟩ := node
    cases part with
    | clock oscillator =>
      exact basis_ext rfl rfl rfl (PortMap.without_insert (List.mem_singleton_self _) _)
    | _ => rfl
  shown node signal joint := by
    refine basis_ext rfl rfl rfl ?_
    have stillJoint : (node.setOutput "joint" signal).isJoint = true := joint
    rw [stored, stored, if_pos joint, if_pos stillJoint]
  stepped node notChip := by
    have sameWritten : node.step.written = node.written := by
      obtain ⟨label, position, part, inputs, outputs⟩ := node
      cases part with
      | resize direction => cases direction <;> rfl
      | _ => rfl
    have sameJoint : node.step.isJoint = node.isJoint := by
      rw [← plainStep_of_not_chip (fun circuit => circuit) true notChip, isJoint_plainStep]
    refine basis_ext ?_ ?_ ?_ ?_
    · rw [step_eq]
    · rw [step_eq]
    · obtain ⟨label, position, part, inputs, outputs⟩ := node
      cases part with
      | resize direction => cases direction <;> rfl
      | _ => rfl
    · have outputs : node.step.outputs = node.outputs.writeAll node.emitted := by rw [step_eq]
      rw [stored, stored, sameJoint, sameWritten, outputs,
        PortMap.without_writeAll (mem_written_of_emitted notChip)]
  enclosed _ _ isChip inputs _ related :=
    basis_enclosing isChip inputs (related.viewed_eq fun _ _ kept => kept)

/-- A driven pin keeps its state, and goes on to drive its net with it. -/
def Pinned (before after : Node Circuit) : Prop :=
  ∀ width state, before.part = .inputPin width state → state.normalise width.bits = state →
    before.outputs.get? "out" = some state →
      after.part = .inputPin width state ∧ after.outputs.get? "out" = some state

/-- An evaluation leaves driven pins alone. -/
theorem lasting_pinned : Node.Lasting Pinned where
  refl _ _ _ part _ drives := ⟨part, drives⟩
  trans first second width state part normal drives := by
    obtain ⟨partBetween, drivesBetween⟩ := first width state part normal drives
    exact second width state partBetween normal drivesBetween
  staged _ _ _ _ part _ drives := ⟨part, drives⟩
  quieted node width state part _ drives := by
    obtain ⟨label, position, _, inputs, outputs⟩ := node
    simp only at part
    subst part
    exact ⟨rfl, drives⟩
  shown node signal joint width state part := by
    rw [isJoint_iff.mp joint] at part
    cases part
  stepped node _ width state part normal drives := by
    rw [step, part]
    refine ⟨part, ?_⟩
    simp only [setOutput, PortMap.get?_insert, if_true, normal]
  enclosed node body isChip _ _ _ width state part := by
    rw [isChip] at part
    cases part

end Node

namespace Chip

variable {chip : Chip Circuit} {inputs : PortMap} {circuit : Circuit}

/-- A pin that keeps the state that it was driven to is not changed by driving it to that state. -/
theorem driveFrom_of_pinned {before after : Node Circuit} (pin : before.isInputPin = true)
    (signal : Option Signal) (pinned : Node.Pinned (before.driveFrom signal) after) :
    after.driveFrom signal = after := by
  obtain ⟨width, state, part⟩ := Node.isInputPin_iff.mp pin
  rw [Node.driveFrom_of_part part] at pinned
  obtain ⟨partAfter, drives⟩ := pinned width _ rfl (Signal.normalise_normalise _ _)
    (by rw [PortMap.get?_insert, if_pos rfl])
  rw [Node.driveFrom_of_part partAfter, PortMap.insert_of_get? drives, ← partAfter]

/-- Driving the pins of a chip again from the same inputs changes nothing in a circuit that kept its
driven pins. -/
theorem driven_around (kept : Circuit.Related Node.Pinned (chip.driven inputs) circuit)
    (outline : circuit.outline = chip.circuit.outline) :
    (chip.around inputs circuit).driven inputs = circuit := by
  have frame := (chip.around inputs circuit).sameFrame_driven inputs
  refine Circuit.ext_node? frame.size (fun id => ?_) frame.wires frame.revision
  have sameDriver : (chip.around inputs circuit).driver? id = chip.driver? id := by
    rw [driver?, driver?]
    exact congrArg (fun pins : List NodeId =>
      (((chip.inputs.zip pins).filter (·.2 == id)).getLast?).map Prod.fst)
      (Circuit.inputPins_of_outline_eq outline)
  rw [node?_driven, sameDriver]
  change (circuit.node? id).map _ = circuit.node? id
  cases found : circuit.node? id with
  | none => rfl
  | some after =>
    obtain ⟨before, foundDriven, pinned⟩ := kept.origin found
    rw [node?_driven] at foundDriven
    obtain ⟨node, foundNode, rfl⟩ := Option.map_eq_some_iff.mp foundDriven
    cases drives : chip.driver? id with
    | none => rfl
    | some decl =>
      have bound : id ∈ chip.boundPins := by
        rw [← isSome_driver?, drives]
        rfl
      rw [drives] at pinned
      exact congrArg some (driveFrom_of_pinned (isInputPin_of_bound bound foundNode) _ pinned)

/-- A declared input is seen as it is. -/
theorem get?_seen {decl : PortDecl} (declared : decl ∈ chip.inputs) (inputs : PortMap) :
    (chip.seen inputs).get? decl.id = inputs.get? decl.id := by
  have isDeclared : (chip.inputs.any fun other => other.id == decl.id) = true :=
    List.any_eq_true.mpr ⟨decl, declared, beq_self_eq_true _⟩
  rw [seen, PortMap.get?_filter, if_pos isDeclared]

end Chip

end Breadboard
