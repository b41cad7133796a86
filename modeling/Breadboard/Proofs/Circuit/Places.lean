import Breadboard.Proofs.Circuit.Blueprint
import Breadboard.Proofs.Circuit.Nodes
import Breadboard.Proofs.Json.Numerals

/-!
# Places of pins

The pins of a circuit stand from top to bottom, and at one height in the order of their slots. Sorting by
height says so only because it keeps pins of one height in the order in which they are listed. The order
depends on what a simulation does not touch. A chip that is made from a circuit numbers its ports by the
places of the pins, so every port has the direction and the width of the pin at its place.
-/

namespace Breadboard

/-- Numbers with one decimal text are equal. -/
theorem decimalText_injective : Function.Injective decimalText := by
  intro left right same
  have digits : Text.decimal left = Text.decimal right := String.ofList_injective same
  have values := congrArg (Text.value? 10) digits
  rw [Text.value?_decimal, Text.value?_decimal] at values
  exact Option.some.inj values

section Shape

variable {typeName port : String} {inputs outputs : List PortDecl} {decl : PortDecl}

/-- A port that is declared as an input only listens, in the width of its declaration. -/
theorem portShape_of_input (declared : inputs.find? (·.id == port) = some decl)
    (undeclared : outputs.find? (·.id == port) = none) :
    portShape typeName inputs outputs port = ⟨.input, max (decl.declaredWidth typeName) 1, false⟩ := by
  simp only [portShape, declared, undeclared]
  rfl

/-- A port that is declared as an output only drives, in the width of its declaration. -/
theorem portShape_of_output (undeclared : inputs.find? (·.id == port) = none)
    (declared : outputs.find? (·.id == port) = some decl) :
    portShape typeName inputs outputs port = ⟨.output, max (decl.declaredWidth typeName) 1, false⟩ := by
  simp only [portShape, declared, undeclared]
  rfl

end Shape

namespace Node

/-- The blueprint keeps what is an input pin. -/
theorem isInputPin_blueprint (node : Node Circuit) : node.blueprint.isInputPin = node.isInputPin := by
  obtain ⟨_, _, part, _, _⟩ := node
  cases part <;> rfl

/-- The blueprint keeps what is an output pin. -/
theorem isOutputPin_blueprint (node : Node Circuit) : node.blueprint.isOutputPin = node.isOutputPin := by
  obtain ⟨_, _, part, _, _⟩ := node
  cases part <;> rfl

/-- The blueprint keeps the width of a pin. -/
theorem pinWidth_blueprint (node : Node Circuit) : node.blueprint.pinWidth = node.pinWidth := by
  obtain ⟨_, _, part, _, _⟩ := node
  cases part <;> rfl

end Node

namespace Circuit

variable {circuit left right : Circuit} {test : Node Circuit → Bool} {ids : List NodeId}

/-- The first node stands above the second one, or at its height in an earlier slot. -/
def Precedes (circuit : Circuit) (first second : NodeId) : Prop :=
  ∃ upper lower, circuit.node? first = some upper ∧ circuit.node? second = some lower ∧
    (upper.position.y < lower.position.y ∨ upper.position.y = lower.position.y ∧ first < second)

/-- The handles are those of the nodes that pass a test, each of them once, from top to bottom and at one
height in the order of slots. -/
structure ListsDownward (circuit : Circuit) (test : Node Circuit → Bool) (ids : List NodeId) : Prop where
  mem_iff : ∀ id, id ∈ ids ↔ ∃ node, circuit.node? id = some node ∧ test node = true
  ordered : ids.Pairwise circuit.Precedes

/-- Nothing precedes itself. -/
theorem Precedes.ne {first second : NodeId} (precedes : circuit.Precedes first second) :
    first ≠ second := by
  rintro rfl
  obtain ⟨upper, lower, found, foundToo, below⟩ := precedes
  rw [found] at foundToo
  cases foundToo
  rcases below with higher | ⟨-, earlier⟩
  · exact Int.lt_irrefl _ higher
  · exact Nat.lt_irrefl _ earlier

/-- What is listed downward is listed once. -/
theorem ListsDownward.nodup (lists : circuit.ListsDownward test ids) : ids.Nodup :=
  lists.ordered.imp Precedes.ne

/-- Sorting by height keeps the nodes of one height in their order.

Proof: at one height any list is sorted, so what is listed at the height is a sublist of the sorted
list, and there is nothing more at that height in it. -/
theorem filter_mergeSort (items : List (NodeId × Node Circuit)) (height : Int) :
    (items.mergeSort fun a b => a.2.position.y ≤ b.2.position.y).filter (·.2.position.y == height) =
      items.filter (·.2.position.y == height) := by
  have level : (items.filter (·.2.position.y == height)).Pairwise
      fun a b => decide (a.2.position.y ≤ b.2.position.y) = true := by
    refine List.pairwise_of_forall_mem_list fun a memberA b memberB => ?_
    have heightA : a.2.position.y = height := by simpa using (List.mem_filter.mp memberA).2
    have heightB : b.2.position.y = height := by simpa using (List.mem_filter.mp memberB).2
    simp [heightA, heightB]
  have kept : (items.filter (·.2.position.y == height)).Sublist
      (items.mergeSort fun a b => a.2.position.y ≤ b.2.position.y) :=
    List.sublist_mergeSort (by simp; omega) (by simp; omega) level List.filter_sublist
  have keptAtHeight := kept.filter (·.2.position.y == height)
  rw [List.filter_filter] at keptAtHeight
  simp only [Bool.and_self] at keptAtHeight
  have all := ((List.mergeSort_perm items fun a b => a.2.position.y ≤ b.2.position.y).filter
    (·.2.position.y == height)).length_eq
  exact (keptAtHeight.eq_of_length all.symm).symm

/-- The nodes that are sorted by height are listed downward. -/
theorem listsDownward_sortedNodes (circuit : Circuit) (test : Node Circuit → Bool) :
    circuit.ListsDownward test (circuit.sortedNodes test) := by
  constructor
  · intro id
    simp only [sortedNodes, List.mem_map, List.mem_mergeSort, List.mem_filter]
    constructor
    · rintro ⟨⟨_, node⟩, ⟨item, passes⟩, rfl⟩
      exact ⟨node, Arena.mem_items.mp item, passes⟩
    · rintro ⟨node, found, passes⟩
      exact ⟨(id, node), ⟨Arena.mem_items.mpr found, passes⟩, rfl⟩
  · rw [sortedNodes, List.pairwise_map]
    generalize chosen : circuit.nodes.items.filter (fun item => test item.2) = items
    have isItem (item : NodeId × Node Circuit) (member : item ∈ items) :
        circuit.node? item.1 = some item.2 := by
      rw [← chosen] at member
      exact Arena.mem_items.mp (List.mem_filter.mp member).1
    have bySlot : items.Pairwise (·.1 < ·.1) := chosen ▸ circuit.nodes.pairwise_items.filter _
    have byHeight : (items.mergeSort fun a b => a.2.position.y ≤ b.2.position.y).Pairwise
        fun a b => decide (a.2.position.y ≤ b.2.position.y) = true :=
      List.pairwise_mergeSort (by simp; omega) (by simp; omega) items
    rw [List.pairwise_iff_forall_sublist] at byHeight ⊢
    intro upper lower inOrder
    have notBelow := of_decide_eq_true (byHeight inOrder)
    refine ⟨upper.2, lower.2, isItem upper ?_, isItem lower ?_, ?_⟩
    · exact List.mem_mergeSort.mp (inOrder.subset (.head _))
    · exact List.mem_mergeSort.mp (inOrder.subset (.tail _ (.head _)))
    · rcases Int.lt_or_eq_of_le notBelow with higher | level
      · exact .inl higher
      · have atHeight := inOrder.filter (·.2.position.y == lower.2.position.y)
        rw [filter_mergeSort] at atHeight
        simp only [List.filter_cons, level, beq_self_eq_true, if_true, List.filter_nil] at atHeight
        have listed := atHeight.trans List.filter_sublist
        exact .inr ⟨level, List.pairwise_iff_forall_sublist.mp bySlot listed⟩

/-- Circuits with one blueprint have the same input pins in the same order. -/
theorem inputPins_of_blueprint_eq (same : left.blueprint = right.blueprint) :
    left.inputPins = right.inputPins := by
  have seen (circuit : Circuit) : circuit.blueprint.inputPins = circuit.inputPins :=
    sortedNodes_viewed circuit _ Node.isInputPin_blueprint fun _ => rfl
  rw [← seen left, same, seen]

/-- Circuits with one blueprint have the same output pins in the same order. -/
theorem outputPins_of_blueprint_eq (same : left.blueprint = right.blueprint) :
    left.outputPins = right.outputPins := by
  have seen (circuit : Circuit) : circuit.blueprint.outputPins = circuit.outputPins :=
    sortedNodes_viewed circuit _ Node.isOutputPin_blueprint fun _ => rfl
  rw [← seen left, same, seen]

end Circuit

namespace Chip

variable {chip : Chip Circuit} {circuit : Circuit} {direction : String} {place : Nat} {pin : NodeId}

/-- The ports of one direction have names of their own. -/
theorem portName_injective (direction : String) :
    Function.Injective fun place => direction ++ decimalText place := by
  intro left right same
  have characters := congrArg String.toList same
  rw [String.toList_append, String.toList_append] at characters
  exact decimalText_injective (String.toList_injective (List.append_cancel_left characters))

/-- The ports for pins have different names. -/
theorem nodup_ports (circuit : Circuit) (direction : String) (pins : List NodeId) :
    ((pins.mapIdx (portOf circuit direction)).map PortDecl.id).Nodup := by
  have names : (pins.mapIdx (portOf circuit direction)).map PortDecl.id =
      (List.range pins.length).map fun place => direction ++ decimalText place :=
    List.ext_getElem (by simp) fun place _ _ => by simp [portOf]
  rw [names]
  exact List.nodup_range.map (portName_injective direction)

/-- The port for a pin is the first one with its name. -/
theorem find?_ports (circuit : Circuit) (direction : String) {pins : List NodeId}
    (isPin : pins[place]? = some pin) :
    (pins.mapIdx (portOf circuit direction)).find? (·.id == direction ++ decimalText place) =
      some (portOf circuit direction place pin) := by
  obtain ⟨inside, rfl⟩ := List.getElem?_eq_some_iff.mp isPin
  refine List.find?_eq_some_iff_getElem.mpr ⟨by simp [portOf], place, by simpa using inside, by simp, ?_⟩
  intro earlier before
  simp only [List.getElem_mapIdx, portOf, Bool.not_eq_true', beq_eq_false_iff_ne, ne_eq]
  exact (portName_injective direction).ne (Nat.ne_of_lt before)

/-- No port has a name that begins with another direction. -/
theorem find?_ports_eq_none (circuit : Circuit) (pins : List NodeId) {name : String}
    (differs : ∀ place, direction ++ decimalText place ≠ name) :
    (pins.mapIdx (portOf circuit direction)).find? (·.id == name) = none := by
  rw [List.find?_eq_none]
  intro decl member
  obtain ⟨place, inside, rfl⟩ := List.mem_mapIdx.mp member
  simpa [portOf] using differs place

/-- Names of input ports are no names of output ports. -/
theorem in_ne_out (place other : Nat) : "in" ++ decimalText place ≠ "out" ++ decimalText other := by
  intro same
  have characters := congrArg (fun text => text.toList.head?) same
  simp [String.toList_append] at characters

/-- The width of the port for a pin is that of the pin. -/
theorem declaredWidth_portOf (direction : String) (place : Nat) {node : Node Circuit}
    (found : circuit.node? pin = some node) :
    (portOf circuit direction place pin).declaredWidth PartType.chip.name = node.pinWidth := by
  have positive := node.pinWidth_pos
  simp only [PortDecl.declaredWidth, portOf, found, Option.map_some, Option.getD_some, decide_eq_true_eq]
  split
  · rfl
  · omega

/-- The ports of a chip are named by direction and place, and each of them has the direction and the width
of the internal pin at its place. -/
structure FitsPins (chip : Chip Circuit) : Prop where
  inputs : ∀ place pin node, chip.circuit.inputPins[place]? = some pin →
    chip.circuit.node? pin = some node →
      (chip.inputs[place]?).map PortDecl.id = some ("in" ++ decimalText place) ∧
        chip.portShape ("in" ++ decimalText place) = ⟨.input, node.pinWidth, false⟩
  outputs : ∀ place pin node, chip.circuit.outputPins[place]? = some pin →
    chip.circuit.node? pin = some node →
      (chip.outputs[place]?).map PortDecl.id = some ("out" ++ decimalText place) ∧
        chip.portShape ("out" ++ decimalText place) = ⟨.output, node.pinWidth, false⟩

/-- A chip that is made from a circuit has ports that fit the pins. -/
theorem fitsPins_ofCircuit (name : String) (circuit : Circuit) : (ofCircuit name circuit).FitsPins where
  inputs place pin node isPin found := by
    have declared := find?_ports circuit "in" isPin
    have undeclared := find?_ports_eq_none circuit circuit.outputPins
      fun other => (in_ne_out place other).symm
    have width := declaredWidth_portOf "in" place found
    have wide : max node.pinWidth 1 = node.pinWidth := max_eq_left node.pinWidth_pos
    change circuit.inputPins[place]? = some pin at isPin
    simp only [ofCircuit] at declared undeclared width ⊢
    constructor
    · rw [List.getElem?_mapIdx, isPin]
      rfl
    · rw [portShape, portShape_of_input declared undeclared, width, wide]
  outputs place pin node isPin found := by
    have declared := find?_ports circuit "out" isPin
    have undeclared := find?_ports_eq_none circuit circuit.inputPins fun other => in_ne_out other place
    have width := declaredWidth_portOf "out" place found
    have wide : max node.pinWidth 1 = node.pinWidth := max_eq_left node.pinWidth_pos
    change circuit.outputPins[place]? = some pin at isPin
    simp only [ofCircuit] at declared undeclared width ⊢
    constructor
    · rw [List.getElem?_mapIdx, isPin]
      rfl
    · rw [portShape, portShape_of_output undeclared declared, width, wide]

/-- Whether ports fit the pins is told by the ports and by the blueprint of the circuit. -/
theorem FitsPins.of_blueprint_eq {other : Chip Circuit} (fits : chip.FitsPins)
    (inputs : other.inputs = chip.inputs) (outputs : other.outputs = chip.outputs)
    (same : other.circuit.blueprint = chip.circuit.blueprint) : other.FitsPins := by
  have sameShape (port : String) : other.portShape port = chip.portShape port := by
    rw [portShape, portShape, inputs, outputs]
  have counterpart {id : NodeId} {node : Node Circuit} (found : other.circuit.node? id = some node) :
      ∃ original, chip.circuit.node? id = some original ∧ original.pinWidth = node.pinWidth := by
    obtain ⟨original, here, sameNode⟩ := Circuit.counterpart_of_viewed_eq same found
    refine ⟨original, here, ?_⟩
    rw [← Node.pinWidth_blueprint original, ← Node.pinWidth_blueprint node]
    exact congrArg Node.pinWidth sameNode.symm
  constructor
  · intro place pin node isPin found
    rw [Circuit.inputPins_of_blueprint_eq same] at isPin
    obtain ⟨original, here, width⟩ := counterpart found
    rw [inputs, sameShape, ← width]
    exact fits.inputs place pin original isPin here
  · intro place pin node isPin found
    rw [Circuit.outputPins_of_blueprint_eq same] at isPin
    obtain ⟨original, here, width⟩ := counterpart found
    rw [outputs, sameShape, ← width]
    exact fits.outputs place pin original isPin here

end Chip

end Breadboard
