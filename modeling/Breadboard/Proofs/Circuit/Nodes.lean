import Breadboard.Circuit.Chip
import Breadboard.Circuit.Edit
import Mathlib.Data.List.Basic

/-!
# Nodes of a circuit, at every depth

A circuit is told by its wires, its revision, its number of slots and the nodes that its handles
name; so what an operation does to a circuit is stated as what it does to `node?`. The circuits
inside chips are reached by induction: they are smaller than the circuit that holds them.
-/

namespace Breadboard

namespace Arena

variable {α β : Type}

/-- Arenas with equally many slots that answer every handle alike are equal. -/
theorem ext_get? {left right : Arena α} (size : left.slots.length = right.slots.length)
    (same : ∀ id, left.get? id = right.get? id) : left = right := by
  obtain ⟨leftSlots⟩ := left
  obtain ⟨rightSlots⟩ := right
  congr 1
  refine List.ext_getElem size fun id inLeft inRight => ?_
  have here := same id
  simp only [get?, List.getElem?_eq_getElem inLeft, List.getElem?_eq_getElem inRight,
    Option.join_some] at here
  exact here

/-- A handle that names an item lies within the slots. -/
theorem lt_of_get? {arena : Arena α} {id : Nat} {item : α} (found : arena.get? id = some item) :
    id < arena.slots.length := by
  rw [get?, Option.join_eq_some_iff] at found
  exact (List.getElem?_eq_some_iff.mp found).1

/-- Listed from a handle on are the items that the slots hold, each with its handle. -/
theorem mem_itemsFrom {slots : List (Option α)} {start id : Nat} {item : α} :
    (id, item) ∈ itemsFrom start slots ↔ ∃ place, slots[place]? = some (some item) ∧
      id = start + place := by
  induction slots generalizing start with
  | nil => simp [itemsFrom]
  | cons slot rest inductionHypothesis =>
    cases slot with
    | none =>
      rw [itemsFrom, inductionHypothesis]
      constructor
      · rintro ⟨place, here, rfl⟩
        exact ⟨place + 1, here, by omega⟩
      · rintro ⟨place, here, rfl⟩
        cases place with
        | zero => simp at here
        | succ place => exact ⟨place, here, by omega⟩
    | some present =>
      rw [itemsFrom, List.mem_cons, inductionHypothesis]
      constructor
      · rintro (same | ⟨place, here, rfl⟩)
        · obtain ⟨rfl, rfl⟩ := Prod.mk.inj same
          exact ⟨0, rfl, rfl⟩
        · exact ⟨place + 1, here, by omega⟩
      · rintro ⟨place, here, rfl⟩
        cases place with
        | zero =>
          left
          simpa using here.symm
        | succ place => exact .inr ⟨place, here, by omega⟩

/-- The items are what the handles name. -/
theorem mem_items {arena : Arena α} {id : Nat} {item : α} :
    (id, item) ∈ arena.items ↔ arena.get? id = some item := by
  simp only [items, mem_itemsFrom, get?, Option.join_eq_some_iff]
  constructor
  · rintro ⟨place, here, rfl⟩
    rwa [Nat.zero_add]
  · exact fun here => ⟨id, here, (Nat.zero_add id).symm⟩

/-- Items are listed in the order of their handles.

Proof: by induction on the slots. -/
theorem pairwise_itemsFrom (slots : List (Option α)) (start : Nat) :
    (itemsFrom start slots).Pairwise (·.1 < ·.1) := by
  induction slots generalizing start with
  | nil => exact .nil
  | cons slot slots inductionHypothesis =>
    cases slot with
    | none => exact inductionHypothesis (start + 1)
    | some item =>
      refine .cons (fun later member => ?_) (inductionHypothesis (start + 1))
      obtain ⟨place, _, handle⟩ := mem_itemsFrom.mp member
      simp only [handle]
      omega

/-- The items are listed in the order of their slots, which is that of allocation. -/
theorem pairwise_items (arena : Arena α) : arena.items.Pairwise (·.1 < ·.1) :=
  pairwise_itemsFrom arena.slots 0

/-- A value is an item that some handle names. -/
theorem mem_values {arena : Arena α} {item : α} :
    item ∈ arena.values ↔ ∃ id, arena.get? id = some item := by
  have held : item ∈ arena.values ↔ some item ∈ arena.slots := by
    simp [values, List.mem_filterMap]
  rw [held, List.mem_iff_getElem?]
  simp only [get?, Option.join_eq_some_iff]

/-- Items listed from a handle on are changed where they stand. -/
theorem itemsFrom_map (change : α → β) (slots : List (Option α)) (start : Nat) :
    itemsFrom start (slots.map (Option.map change)) =
      (itemsFrom start slots).map fun item => (item.1, change item.2) := by
  induction slots generalizing start with
  | nil => rfl
  | cons slot rest inductionHypothesis =>
    cases slot with
    | none => exact inductionHypothesis (start + 1)
    | some present => exact congrArg (_ :: ·) (inductionHypothesis (start + 1))

/-- Changing every item changes the listed items where they stand. -/
theorem items_map (arena : Arena α) (change : α → β) :
    (arena.map change).items = arena.items.map fun item => (item.1, change item.2) :=
  itemsFrom_map change arena.slots 0

/-- Lists of slots that are related slot by slot answer every handle with related items. -/
theorem rel_join_of_slots {relation : α → β → Prop} {left : List (Option α)}
    {right : List (Option β)} (related : List.Forall₂ (Option.Rel relation) left right) (id : Nat) :
    Option.Rel relation left[id]?.join right[id]?.join := by
  induction related generalizing id with
  | nil => exact .none
  | cons head _ inductionHypothesis =>
    cases id with
    | zero => simpa using head
    | succ id => simpa using inductionHypothesis id

end Arena

/-- A node has at least one bit. -/
theorem Node.pinWidth_pos {Inner : Type} (node : Node Inner) : 0 < node.pinWidth := by
  have bits (width : PinWidth) : 0 < width.bits := by cases width <;> decide
  rw [pinWidth]
  split
  · exact bits _
  · exact bits _
  · exact Nat.one_pos

namespace Circuit

/-- Circuits with the same wires, revision and number of slots whose handles name the same nodes are
equal. -/
theorem ext_node? {left right : Circuit} (size : left.nodes.slots.length = right.nodes.slots.length)
    (same : ∀ id, left.node? id = right.node? id) (wires : left.wires = right.wires)
    (revision : left.revision = right.revision) : left = right := by
  obtain ⟨leftNodes, leftWires, leftRevision⟩ := left
  obtain ⟨rightNodes, rightWires, rightRevision⟩ := right
  have nodes : leftNodes = rightNodes := Arena.ext_get? size same
  simp only at wires revision
  rw [nodes, wires, revision]

/-- Changing a node changes what its handle names and nothing else. -/
theorem node?_modifyNode (circuit : Circuit) (id other : NodeId)
    (change : Node Circuit → Node Circuit) :
    (circuit.modifyNode id change).node? other =
      if id = other then (circuit.node? other).map change else circuit.node? other :=
  Arena.get?_modify ..

/-- The circuit inside a chip is smaller than the circuit that the chip stands in. -/
theorem sizeOf_inner {circuit : Circuit} {id : NodeId} {node : Node Circuit} {chip : Chip Circuit}
    (found : circuit.node? id = some node) (isChip : node.part = .chip chip) :
    sizeOf chip.circuit < sizeOf circuit := by
  obtain ⟨⟨slots⟩, wires, revision⟩ := circuit
  obtain ⟨label, position, part, inputs, outputs⟩ := node
  obtain ⟨name, declaredInputs, declaredOutputs, inner, bindings, lastInputs⟩ := chip
  simp only at isChip
  subst isChip
  simp only [node?, Arena.get?, Option.join_eq_some_iff] at found
  have member := List.sizeOf_lt_of_mem (List.mem_of_getElem? found)
  simp only [Option.some.sizeOf_spec, Node.mk.sizeOf_spec, Part.chip.sizeOf_spec,
    Chip.mk.sizeOf_spec] at member
  simp only [Circuit.mk.sizeOf_spec, Arena.mk.sizeOf_spec]
  omega

/-- What holds of a circuit as soon as it holds of the circuits inside its chips holds of every
circuit. -/
theorem nesting_induction {motive : Circuit → Prop}
    (step : ∀ circuit, (∀ id node chip, circuit.node? id = some node → node.part = .chip chip →
      motive chip.circuit) → motive circuit) (circuit : Circuit) : motive circuit := by
  generalize size : sizeOf circuit = n
  induction n using Nat.strongRecOn generalizing circuit with
  | ind n inductionHypothesis =>
    refine step circuit fun id node chip found isChip => ?_
    have smaller := sizeOf_inner found isChip
    exact inductionHypothesis _ (size ▸ smaller) _ rfl

/-- A path leads on from a chip where it leads from the circuit of the chip. -/
theorem inside?_cons_iff {circuit inner : Circuit} {id : NodeId} {path : List NodeId} :
    circuit.inside? (id :: path) = some inner ↔ ∃ node body, circuit.node? id = some node ∧
      node.part = .chip body ∧ body.circuit.inside? path = some inner := by
  rw [inside?]
  constructor
  · intro leads
    split at leads
    · next body isChip =>
      obtain ⟨node, found, part⟩ := Option.map_eq_some_iff.mp isChip
      exact ⟨node, body, found, part, leads⟩
    · cases leads
  · rintro ⟨node, body, found, part, leads⟩
    rw [found, Option.map_some, part]
    exact leads

/-- The second circuit is the first one or lies inside one of its chips, at any depth. -/
def Contains (circuit inner : Circuit) : Prop :=
  ∃ path, circuit.inside? path = some inner

/-- A circuit contains itself. -/
theorem Contains.refl (circuit : Circuit) : circuit.Contains circuit :=
  ⟨[], by rw [inside?]⟩

/-- What the circuit inside a chip contains is contained in the circuit that the chip stands in. -/
theorem Contains.inside {circuit : Circuit} {id : NodeId} {node : Node Circuit}
    {chip : Chip Circuit} (found : circuit.node? id = some node) (isChip : node.part = .chip chip)
    {inner : Circuit} (contained : chip.circuit.Contains inner) : circuit.Contains inner := by
  obtain ⟨path, leads⟩ := contained
  exact ⟨id :: path, inside?_cons_iff.mpr ⟨node, chip, found, isChip, leads⟩⟩

end Circuit

end Breadboard
