import Breadboard.Proofs.Engine.Basis
import Breadboard.Proofs.Signal.WiredOr

/-!
# Driving the pins of a chip

Every internal pin behind a declared input is driven from the last port that it stands behind, whatever
it held before. So chips with one basis that see the same inputs have driven circuits with one basis,
and a circuit that was driven, settled and is driven again from the same inputs does not change. An
evaluation keeps the basis of every node and leaves driven pins alone.
-/

namespace Breadboard

namespace Node

variable {node : Node Circuit}

/-- An input pin is told by its part. -/
theorem isInputPin_iff : node.isInputPin = true ↔ ∃ width state, node.part = .inputPin width state := by
  obtain ⟨label, position, part, inputs, outputs⟩ := node
  cases part <;> simp [isInputPin]

/-- An input pin is driven to a state, which it drives its net with. -/
theorem driveFrom_of_part {width : PinWidth} {state : Signal} (part : node.part = .inputPin width state)
    (signal : Option Signal) :
    node.driveFrom signal =
      { node with
        part := .inputPin width ((signal.getD (.zero width.bits)).normalise width.bits)
        outputs := node.outputs.insert "out" ((signal.getD (.zero width.bits)).normalise width.bits) } := by
  obtain ⟨label, position, _, inputs, outputs⟩ := node
  simp only at part
  subst part
  rfl

/-- A node that is driven again forgets what it was driven with before. -/
theorem driveFrom_driveFrom (node : Node Circuit) (first second : Option Signal) :
    (node.driveFrom first).driveFrom second = node.driveFrom second := by
  obtain ⟨label, position, part, inputs, outputs⟩ := node
  cases part with
  | inputPin width state =>
    rw [driveFrom_of_part rfl, driveFrom_of_part rfl, driveFrom_of_part rfl]
    simp only [mk.injEq, true_and]
    exact PortMap.insert_insert ..
  | _ => rfl

/-- Of several signals that a node is driven with only the last one counts.

Proof: by induction on the signals, from the last one. -/
theorem foldl_driveFrom (node : Node Circuit) (signals : List (Option Signal)) :
    signals.foldl (fun node signal => node.driveFrom signal) node =
      signals.getLast?.elim node node.driveFrom := by
  induction signals using List.reverseRecOn with
  | nil => rfl
  | append_singleton signals last inductionHypothesis =>
    rw [List.foldl_append, inductionHypothesis, List.getLast?_append]
    cases signals.getLast? with
    | none => rfl
    | some previous => exact driveFrom_driveFrom node previous last

/-- The basis of a driven input pin is told by its basis without a state. -/
theorem basis_driveFrom (pin : node.isInputPin = true) (signal : Option Signal) :
    (node.driveFrom signal).basis =
      { node.basis.grounded.driveFrom signal with outputs := node.basis.grounded.outputs } := by
  obtain ⟨label, position, part, inputs, outputs⟩ := node
  obtain ⟨width, state, rfl⟩ := isInputPin_iff.mp pin
  simp only [basis, viewed, based, map, Part.map, Part.held, grounded, driveFrom, drive?, setOutput,
    stored, isJoint, written, Option.getD_some, pinWidth, Bool.false_eq_true, if_false]
  rw [PortMap.without_insert (List.mem_singleton_self _)]

/-- Driving an input pin keeps its basis without a state. -/
theorem grounded_basis_driveFrom (pin : node.isInputPin = true) (signal : Option Signal) :
    (node.driveFrom signal).basis.grounded = node.basis.grounded := by
  rw [basis_driveFrom pin]
  obtain ⟨label, position, part, inputs, outputs⟩ := node
  obtain ⟨width, state, rfl⟩ := isInputPin_iff.mp pin
  rfl

end Node

/-- The nodes that pass a test are what is sorted by height. -/
theorem Circuit.of_mem_sortedNodes {circuit : Circuit} {test : Node Circuit → Bool} {id : NodeId}
    (member : id ∈ circuit.sortedNodes test) :
    ∃ node, circuit.node? id = some node ∧ test node = true := by
  simp only [sortedNodes, List.mem_map, List.mem_mergeSort, List.mem_filter] at member
  obtain ⟨⟨_, node⟩, ⟨item, passes⟩, rfl⟩ := member
  exact ⟨node, Arena.mem_items.mp item, passes⟩

namespace Chip

variable {chip left right : Chip Circuit} {inputs other : PortMap} {id : NodeId}

/-- The port that an internal pin is driven from: the last one of those that it stands behind. -/
def driver? (chip : Chip Circuit) (id : NodeId) : Option PortDecl :=
  (((chip.inputs.zip chip.circuit.inputPins).filter (·.2 == id)).getLast?).map Prod.fst

/-- The pins that are driven are those that some port drives. -/
theorem isSome_driver? : (chip.driver? id).isSome = true ↔ id ∈ chip.boundPins := by
  rw [driver?, Option.isSome_map, List.getLast?_isSome, ne_eq, List.filter_eq_nil_iff, boundPins,
    List.mem_map]
  simp

/-- A bound pin is an input pin. -/
theorem isInputPin_of_bound (bound : id ∈ chip.boundPins) {node : Node Circuit}
    (found : chip.circuit.node? id = some node) : node.isInputPin = true := by
  obtain ⟨⟨decl, pin⟩, member, rfl⟩ := List.mem_map.mp bound
  obtain ⟨present, foundPin, passes⟩ := Circuit.of_mem_sortedNodes (List.of_mem_zip member).2
  rw [found] at foundPin
  cases foundPin
  exact passes

/-- A port that drives a pin is a declared input. -/
theorem mem_inputs_of_driver? {decl : PortDecl} (drives : chip.driver? id = some decl) :
    decl ∈ chip.inputs := by
  obtain ⟨port, last, rfl⟩ := Option.map_eq_some_iff.mp drives
  exact (List.of_mem_zip (List.mem_filter.mp (List.mem_of_getLast? last)).1).1

/-- The declared input that drives a node, if the ports stand before some pins: the last of those that
do. -/
def driverAt? (chip : Chip Circuit) (pins : List NodeId) (id : NodeId) : Option PortDecl :=
  (((chip.inputs.zip pins).filter (·.2 == id)).getLast?).map Prod.fst

/-- Driving pins of a chip drives every node that some port drives, and no other. -/
theorem node?_drivePins (chip : Chip Circuit) (inputs : PortMap) (pins : List NodeId) (id : NodeId) :
    (chip.drivePins inputs pins).node? id = (chip.circuit.node? id).map fun node =>
      (chip.driverAt? pins id).elim node fun decl => node.driveFrom (inputs.get? decl.id) := by
  rw [drivePins, Circuit.node?_foldl_modifyNode]
  refine Option.map_congr fun node _ => ?_
  have signals : ((chip.inputs.zip pins).filter (·.2 == id)).foldl
      (fun node port => Node.driveFrom (inputs.get? port.1.id) node) node =
        (((chip.inputs.zip pins).filter (·.2 == id)).map
          fun port => inputs.get? port.1.id).foldl (fun node signal => node.driveFrom signal) node := by
    rw [List.foldl_map]
  rw [signals, Node.foldl_driveFrom, List.getLast?_map, driverAt?]
  cases ((chip.inputs.zip pins).filter (·.2 == id)).getLast? <;> rfl

/-- Driving the pins of a chip drives every node that some port drives, and no other. -/
theorem node?_driven (chip : Chip Circuit) (inputs : PortMap) (id : NodeId) :
    (chip.driven inputs).node? id = (chip.circuit.node? id).map fun node =>
      (chip.driver? id).elim node fun decl => node.driveFrom (inputs.get? decl.id) :=
  chip.node?_drivePins inputs chip.circuit.inputPins id

/-- Driving the pins of a chip keeps the frame of its circuit. -/
theorem sameFrame_driven (chip : Chip Circuit) (inputs : PortMap) :
    (chip.driven inputs).SameFrame chip.circuit :=
  Circuit.sameFrame_foldl (fun port : PortDecl × NodeId => port.2)
    (fun port => Node.driveFrom (inputs.get? port.1.id)) _ _

/-- Only declared inputs drive pins. -/
theorem driven_congr (agree : ∀ decl ∈ chip.inputs, inputs.get? decl.id = other.get? decl.id) :
    chip.driven inputs = chip.driven other := by
  have left := chip.sameFrame_driven inputs
  have right := chip.sameFrame_driven other
  refine Circuit.ext_node? (left.size.trans right.size.symm) (fun id => ?_)
    (left.wires.trans right.wires.symm) (left.revision.trans right.revision.symm)
  rw [node?_driven, node?_driven]
  cases drives : chip.driver? id with
  | none => rfl
  | some decl =>
    simp only [Option.elim_some]
    rw [agree decl (mem_inputs_of_driver? drives)]

/-- Chips with one name and the same ports, around circuits with one basis, driven pins apart. -/
structure SameBasis (left right : Chip Circuit) : Prop where
  name : left.name = right.name
  inputs : left.inputs = right.inputs
  outputs : left.outputs = right.outputs
  circuit : left.circuit.basis.grounded left.boundPins = right.circuit.basis.grounded right.boundPins

namespace SameBasis

variable (same : left.SameBasis right)
include same

/-- The circuits have one outline. -/
theorem outline : left.circuit.outline = right.circuit.outline := by
  have grounded := congrArg Circuit.outline same.circuit
  rwa [Circuit.outline_grounded, Circuit.outline_grounded, Circuit.outline_basis,
    Circuit.outline_basis] at grounded

/-- The same ports drive the same pins. -/
theorem driver? (id : NodeId) : left.driver? id = right.driver? id := by
  rw [Chip.driver?, Chip.driver?, same.inputs, Circuit.inputPins_of_outline_eq same.outline]

/-- The same pins are driven. -/
theorem boundPins : left.boundPins = right.boundPins := by
  rw [Chip.boundPins, Chip.boundPins, same.inputs, Circuit.inputPins_of_outline_eq same.outline]

/-- Driven from the same inputs, the circuits have one basis.

Proof: node by node. A pin that is driven forgets its state, and its basis without a state is the
same; any other node has the same basis from the start. -/
theorem basis_driven (inputs : PortMap) : (left.driven inputs).basis = (right.driven inputs).basis := by
  have leftFrame := left.sameFrame_driven inputs
  have rightFrame := right.sameFrame_driven inputs
  have here (id : NodeId) := congrArg (Circuit.node? · id) same.circuit
  have frames : left.circuit.wires = right.circuit.wires ∧
      left.circuit.nodes.slots.length = right.circuit.nodes.slots.length :=
    ⟨(Circuit.frame_of_viewed_eq same.outline).1, (Circuit.frame_of_viewed_eq same.outline).2.2⟩
  refine Circuit.viewed_ext (leftFrame.size.trans (frames.2.trans rightFrame.size.symm))
    (fun id => ?_) (leftFrame.wires.trans (frames.1.trans rightFrame.wires.symm)) rfl
  have atId := here id
  simp only [Circuit.node?_grounded, Circuit.basis, Circuit.node?_viewed, Option.map_map,
    same.boundPins] at atId
  rw [node?_driven, node?_driven, same.driver?]
  cases foundLeft : left.circuit.node? id with
  | none =>
    rw [foundLeft, Option.map_none] at atId
    rw [Option.map_eq_none_iff.mp atId.symm]
  | some node =>
    rw [foundLeft, Option.map_some] at atId
    obtain ⟨other, foundRight, sameNode⟩ := Option.map_eq_some_iff.mp atId.symm
    rw [foundRight]
    simp only [Option.map_some, Option.some.injEq, Function.comp_apply] at sameNode ⊢
    cases drives : right.driver? id with
    | none =>
      have free : id ∉ right.boundPins := by
        rw [← isSome_driver?, drives]
        simp
      rw [if_neg free, if_neg free] at sameNode
      exact sameNode.symm
    | some decl =>
      have bound : id ∈ right.boundPins := by
        rw [← isSome_driver?, drives]
        rfl
      rw [if_pos bound, if_pos bound] at sameNode
      have leftPin := isInputPin_of_bound (same.boundPins ▸ bound) foundLeft
      have rightPin := isInputPin_of_bound bound foundRight
      exact (Node.basis_driveFrom leftPin _).trans
        ((congrArg (fun grounded : Node Circuit =>
          { grounded.driveFrom (inputs.get? decl.id) with outputs := grounded.outputs })
          sameNode.symm).trans (Node.basis_driveFrom rightPin _).symm)

end SameBasis

end Chip

end Breadboard
