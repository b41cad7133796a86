import Breadboard.Proofs.Circuit.Editing

/-!
# Bare circuits

A bare circuit is a circuit without stamps and without what its chips have derived, at every depth: all
that a user can build, drive or see, and all that a file holds. Giving a circuit fresh stamps leaves the
bare circuit, and every change of a circuit that does not look at what is derived is a change of the
bare circuit.
-/

namespace Breadboard

namespace Arena

variable {α β : Type} (arena : Arena α) (change : α → β)

/-- Changing every item changes the item that is put in too. -/
theorem map_alloc (item : α) : (arena.alloc item).map change = (arena.map change).alloc (change item) := by
  simp [map, alloc]

/-- The slots that are occupied stay so when every item is changed. -/
theorem contains_map (id : Nat) : (arena.map change).contains id = arena.contains id := by
  rw [contains, contains, get?_map, Option.isSome_map]

/-- A slot may be vacated before or after every item is changed. -/
theorem map_remove (id : Nat) : (arena.remove id).map change = (arena.map change).remove id := by
  refine ext_get? (by simp [map, remove]) fun other => ?_
  rw [get?_map, get?_remove, get?_remove, get?_map]
  split <;> rfl

variable {change}

/-- An item may be changed before or after every item is, if the changes agree about it. -/
theorem map_modify {single : α → α} {changed : β → β}
    (commutes : ∀ item, change (single item) = changed (change item)) (id : Nat) :
    (arena.modify id single).map change = (arena.map change).modify id changed := by
  refine ext_get? (by simp [map, modify]) fun other => ?_
  rw [get?_map, get?_modify, get?_modify, get?_map]
  split
  · rw [Option.map_map, Option.map_map]
    exact Option.map_congr fun item _ => commutes item
  · rfl

end Arena

/-- The part without what its chip has derived. -/
def Part.bare : Part Circuit → Part Circuit
  | .chip body => .chip { body with bindings := none, lastInputs := .empty }
  | other => other

/-- What is dropped of a chip does not look at its circuit. -/
theorem Node.map_withBarePart (inner : Circuit → Circuit) (node : Node Circuit) :
    ({ node with part := node.part.bare } : Node Circuit).map inner =
      { node.map inner with part := (node.map inner).part.bare } := by
  obtain ⟨label, position, part, inputs, outputs⟩ := node
  cases part <;> rfl

/-- The circuit without stamps and without anything derived, at every depth. -/
def Circuit.bare : Circuit → Circuit :=
  Circuit.viewed (fun _ => 0) fun node => { node with part := node.part.bare }

/-- The node without stamps and without anything derived, at every depth. -/
def Node.bare : Node Circuit → Node Circuit :=
  Node.viewed (fun _ => 0) fun node => { node with part := node.part.bare }

namespace Node

variable {node other : Node Circuit}

/-- A bare node receives and drives what the node does. -/
@[simp] theorem signals_bare (node : Node Circuit) :
    node.bare.inputs = node.inputs ∧ node.bare.outputs = node.outputs :=
  ⟨rfl, rfl⟩

/-- A node that is no chip is bare. -/
theorem bare_of_not_chip (notChip : ∀ body, node.part ≠ .chip body) : node.bare = node := by
  obtain ⟨label, position, part, inputs, outputs⟩ := node
  cases part with
  | chip body => exact absurd rfl (notChip body)
  | _ => rfl

/-- A chip is bare once its circuit is and what it has derived is dropped. -/
theorem bare_of_chip {body : Chip Circuit} (isChip : node.part = .chip body) :
    node.bare =
      { node with
        part := .chip { body with
          circuit := body.circuit.bare
          bindings := none
          lastInputs := .empty } } := by
  obtain ⟨label, position, part, inputs, outputs⟩ := node
  simp only at isChip
  subst isChip
  rfl

/-- Around circuits that are the same once bare, chips that differ in nothing else but what they have
derived are the same once bare. -/
theorem bare_congr_chip {body : Chip Circuit} (isChip : node.part = .chip body) {circuit : Circuit}
    (same : circuit.bare = body.circuit.bare) (bindings : Option PinBindings) (lastInputs : PortMap) :
    ({ node with part := .chip { body with circuit, bindings, lastInputs } } : Node Circuit).bare =
      node.bare := by
  rw [bare_of_chip isChip, bare_of_chip rfl]
  simp only [same]

/-- Nodes that are the same once bare are the same, or chips around circuits that are the same once bare
which differ in nothing else but what they have derived. -/
theorem cases_of_bare_eq (same : node.bare = other.bare) :
    (other = node ∧ ∀ body, node.part ≠ .chip body) ∨
      ∃ body circuit bindings lastInputs, node.part = .chip body ∧ circuit.bare = body.circuit.bare ∧
        other = { node with part := .chip { body with circuit, bindings, lastInputs } } := by
  by_cases plain : ∀ body, node.part ≠ .chip body
  · rw [bare_of_not_chip plain] at same
    by_cases otherPlain : ∀ body, other.part ≠ .chip body
    · rw [bare_of_not_chip otherPlain] at same
      exact .inl ⟨same.symm, plain⟩
    · push Not at otherPlain
      obtain ⟨otherBody, isChip⟩ := otherPlain
      rw [bare_of_chip isChip] at same
      exact absurd (congrArg part same) (plain _)
  · push Not at plain
    obtain ⟨body, isChip⟩ := plain
    by_cases otherPlain : ∀ body, other.part ≠ .chip body
    · rw [bare_of_chip isChip, bare_of_not_chip otherPlain] at same
      exact absurd (congrArg part same).symm (otherPlain _)
    · push Not at otherPlain
      obtain ⟨otherBody, otherIsChip⟩ := otherPlain
      obtain ⟨label, position, otherPart, inputs, outputs⟩ := other
      simp only at otherIsChip
      subst otherIsChip
      rw [bare_of_chip isChip, bare_of_chip rfl] at same
      simp only [mk.injEq, Part.chip.injEq, Chip.mk.injEq] at same
      obtain ⟨rfl, rfl, ⟨name, declaredInputs, declaredOutputs, inner, _⟩, rfl, rfl⟩ := same
      refine .inr ⟨body, otherBody.circuit, otherBody.bindings, otherBody.lastInputs, isChip, inner.symm, ?_⟩
      simp only [name, declaredInputs, declaredOutputs]

/-- Driving a node drives the bare node. -/
theorem bare_driven (signal : Signal) (node : Node Circuit) :
    ((node.drive? signal).getD node).bare = (node.bare.drive? signal).getD node.bare := by
  obtain ⟨label, position, part, inputs, outputs⟩ := node
  cases part <;> rfl

/-- Changing an oscillator changes the one of the bare node. -/
theorem bare_adjusted (change : Oscillator → Oscillator) (node : Node Circuit) :
    (node.adjusted change).bare = node.bare.adjusted change := by
  obtain ⟨label, position, part, inputs, outputs⟩ := node
  cases part <;> rfl

end Node

namespace Circuit

variable {left right : Circuit}

/-- A circuit is bare once its nodes are and its stamp is dropped. -/
theorem bare_eq (circuit : Circuit) :
    circuit.bare = ⟨circuit.nodes.map Node.bare, circuit.wires, 0⟩ :=
  viewed_eq circuit

/-- A handle names in the bare circuit the bare node that it named. -/
theorem node?_bare (circuit : Circuit) (id : NodeId) :
    circuit.bare.node? id = (circuit.node? id).map Node.bare :=
  node?_viewed circuit id

/-- The bare circuit has the wires of the circuit, as many slots, and no stamp. -/
theorem frame_bare (circuit : Circuit) :
    circuit.bare.wires = circuit.wires ∧ circuit.bare.revision = 0 ∧
      circuit.bare.nodes.slots.length = circuit.nodes.slots.length := by
  simp [bare, viewed_eq, Arena.map]

/-- Circuits with the same wires and equally many slots whose nodes are the same once bare are the same
once bare. -/
theorem bare_congr (size : left.nodes.slots.length = right.nodes.slots.length)
    (nodes : ∀ id, (left.node? id).map Node.bare = (right.node? id).map Node.bare)
    (wires : left.wires = right.wires) : left.bare = right.bare :=
  viewed_ext size nodes wires rfl

/-- A node has a counterpart in a circuit that is the same once bare. -/
theorem counterpart_of_bare_eq (same : left.bare = right.bare) {id : NodeId} {node : Node Circuit}
    (found : left.node? id = some node) :
    ∃ other, right.node? id = some other ∧ node.bare = other.bare :=
  counterpart_of_viewed_eq same found

/-- The bare circuit has the outline of the circuit. -/
theorem outline_bare (circuit : Circuit) : circuit.bare.outline = circuit.outline := by
  have same : (Node.outlined ∘ fun node => { node with part := node.part.bare }) = Node.outlined := by
    funext ⟨label, position, part, inputs, outputs⟩
    cases part <;> rfl
  rw [outline, bare, viewed_viewed Node.map_withBarePart, same]
  rfl

/-- Circuits that are the same once bare have one outline. -/
theorem outline_of_bare_eq (same : left.bare = right.bare) : left.outline = right.outline := by
  rw [← outline_bare left, same, outline_bare]

section Changes

variable {change bareChange : Node Circuit → Node Circuit}

/-- Changing a node changes the bare node in the bare circuit. -/
theorem bare_modifyNode (commutes : ∀ node : Node Circuit, (change node).bare = bareChange node.bare)
    (circuit : Circuit) (id : NodeId) :
    (circuit.modifyNode id change).bare = circuit.bare.modifyNode id bareChange := by
  rw [bare_eq, bare_eq, modifyNode, modifyNode, Arena.map_modify _ commutes]

/-- Changing the circuit inside a chip changes the bare circuit inside the bare chip. -/
theorem bare_refit {change bareChange : Circuit → Circuit}
    (commutes : ∀ inner : Circuit, (change inner).bare = bareChange inner.bare) (node : Node Circuit) :
    (node.refit change).bare = node.bare.refit bareChange := by
  obtain ⟨label, position, part, inputs, outputs⟩ := node
  cases part with
  | chip body =>
    have isChip : (⟨label, position, .chip body, inputs, outputs⟩ : Node Circuit).part = .chip body := rfl
    rw [Node.bare_of_chip isChip]
    simp only [Node.refit]
    rw [Node.bare_of_chip rfl]
    simp only [commutes]
  | _ => rfl

/-- Changing the circuit that a path leads into changes the bare circuit that it leads into.

Proof: by induction on the path. -/
theorem bare_modifyInside {change bareChange : Circuit → Circuit}
    (commutes : ∀ inner : Circuit, (change inner).bare = bareChange inner.bare) (circuit : Circuit)
    (path : List NodeId) :
    (circuit.modifyInside change path).bare = circuit.bare.modifyInside bareChange path := by
  induction path generalizing circuit with
  | nil =>
    rw [modifyInside, modifyInside]
    exact commutes circuit
  | cons id path inductionHypothesis =>
    rw [modifyInside_cons, modifyInside_cons]
    exact bare_modifyNode (bare_refit fun inner => inductionHypothesis inner) circuit id

/-- A path leads into the bare circuit that it led into.

Proof: by induction on the path. -/
theorem inside?_bare (circuit : Circuit) (path : List NodeId) :
    circuit.bare.inside? path = (circuit.inside? path).map bare := by
  induction path generalizing circuit with
  | nil =>
    rw [inside?, inside?]
    rfl
  | cons id path inductionHypothesis =>
    rw [inside?, inside?, node?_bare]
    cases circuit.node? id with
    | none => rfl
    | some node =>
      obtain ⟨label, position, part, inputs, outputs⟩ := node
      cases part with
      | chip body =>
        rw [Option.map_some, Node.bare_of_chip rfl]
        exact inductionHypothesis body.circuit
      | _ => rfl

end Changes

end Circuit

/-- The edit with the bare node in the place of the one that it brings in. -/
def Edit.bare : Edit Circuit → Edit Circuit
  | add node => add node.bare
  | other => other

namespace Circuit

/-- An edit of the circuit is an edit of the bare circuit. -/
theorem bare_apply (edit : Edit Circuit) (fresh : Revision) (circuit : Circuit) :
    (edit.apply fresh circuit).bare = edit.bare.apply 0 circuit.bare := by
  cases edit with
  | touch => simp only [Edit.apply, Edit.bare, touch, bare_eq]
  | add node => simp only [Edit.apply, Edit.bare, addNode, bare_eq, Arena.map_alloc]
  | remove id =>
    simp only [Edit.apply, Edit.bare, removeNode, bare_eq circuit, Arena.contains_map]
    split
    · rw [bare_eq, Arena.map_remove]
    · exact bare_eq circuit
  | connect first second => simp only [Edit.apply, Edit.bare, connect, bare_eq]
  | disconnect a b =>
    have sameCount : circuit.bare.joinCount a b = circuit.joinCount a b := by
      rw [joinCount, joinCount, bare_eq]
    simp only [Edit.apply, Edit.bare, disconnect, sameCount]
    split
    · rfl
    · rw [bare_eq, bare_eq]
  | move id place =>
    let moved (node : Node Circuit) : Node Circuit := { node with position := place }
    have commutes (node : Node Circuit) : (moved node).bare = moved node.bare := rfl
    simp only [Edit.apply, Edit.bare, moveNode, bare_eq circuit, Arena.contains_map]
    split
    · have nodes := Arena.map_modify circuit.nodes commutes id
      rw [bare_eq]
      exact congrArg (fun nodes : Arena (Node Circuit) => (⟨nodes, circuit.wires, 0⟩ : Circuit)) nodes
    · exact bare_eq circuit

/-- The slots of a circuit that is renewed hold renewed nodes, each from some fresh revision on.

Proof: by induction on the slots. -/
theorem renewSlots_rel (slots : List (Option (Node Circuit))) (fresh : Revision) :
    List.Forall₂ (Option.Rel fun node renewed => ∃ start, renewed = (Node.renew node start).1) slots
      (renewSlots (slots.map (Option.map (Node.map renew))) fresh).1 := by
  induction slots generalizing fresh with
  | nil => exact .nil
  | cons slot rest inductionHypothesis =>
    cases slot with
    | none => exact .cons .none (inductionHypothesis fresh)
    | some node =>
      obtain ⟨label, position, part, inputs, outputs⟩ := node
      cases part with
      | chip body => exact .cons (.some ⟨fresh, rfl⟩) (inductionHypothesis _)
      | _ => exact .cons (.some ⟨fresh, rfl⟩) (inductionHypothesis fresh)

/-- A circuit is renewed slot by slot, and its wires stay. -/
theorem renew_eq (circuit : Circuit) (fresh : Revision) :
    (circuit.renew fresh).1.nodes.slots =
        (renewSlots (circuit.nodes.slots.map (Option.map (Node.map renew))) fresh).1 ∧
      (circuit.renew fresh).1.wires = circuit.wires := by
  unfold renew
  rw [fold_eq]
  exact ⟨rfl, rfl⟩

/-- A handle names in a renewed circuit the renewed node that it named. -/
theorem node?_renew (circuit : Circuit) (fresh : Revision) (id : NodeId) :
    ∃ start, (circuit.renew fresh).1.node? id =
      (circuit.node? id).map fun node => (node.renew start).1 := by
  have here := Arena.rel_join_of_slots (renewSlots_rel circuit.nodes.slots fresh) id
  rw [node?, Arena.get?, (circuit.renew_eq fresh).1, node?, Arena.get?]
  revert here
  generalize (renewSlots _ fresh).1[id]?.join = renewed, circuit.nodes.slots[id]?.join = original
  rintro (⟨start, rfl⟩ | _)
  · exact ⟨start, rfl⟩
  · exact ⟨fresh, rfl⟩

/-- A renewed circuit is the same once bare.

Proof: by induction over the nesting. -/
theorem bare_renew (circuit : Circuit) (fresh : Revision) : (circuit.renew fresh).1.bare = circuit.bare := by
  induction circuit using nesting_induction generalizing fresh with
  | step circuit inductionHypothesis =>
    obtain ⟨slots, wires⟩ := circuit.renew_eq fresh
    refine bare_congr ?_ (fun id => ?_) wires
    · rw [slots]
      exact (renewSlots_rel circuit.nodes.slots fresh).length_eq.symm
    · obtain ⟨start, renewed⟩ := circuit.node?_renew fresh id
      rw [renewed, Option.map_map]
      refine Option.map_congr fun node found => ?_
      obtain ⟨label, position, part, inputs, outputs⟩ := node
      cases part with
      | chip body =>
        exact Node.bare_congr_chip rfl (inductionHypothesis id _ body found rfl start) none .empty
      | _ => rfl

/-- The property holds of every chip of the circuit, at any depth. -/
def EveryChip (property : Chip Circuit → Prop) (circuit : Circuit) : Prop :=
  circuit.Throughout fun inner => ∀ id node body, inner.node? id = some node →
    node.part = .chip body → property body

/-- What holds of every chip holds of those on the level and of every chip inside them. -/
theorem everyChip_iff {property : Chip Circuit → Prop} {circuit : Circuit} :
    circuit.EveryChip property ↔ ∀ id node body, circuit.node? id = some node →
      node.part = .chip body → property body ∧ body.circuit.EveryChip property := by
  constructor
  · intro every id node body found isChip
    exact ⟨every circuit (.refl circuit) id node body found isChip, every.inside found isChip⟩
  · intro each
    exact throughout_iff.mpr ⟨fun id node body found isChip => (each id node body found isChip).1,
      fun id node body found isChip => (each id node body found isChip).2⟩

/-- What holds of every chip among the nodes and of those inside it holds of every chip. -/
theorem everyChip_of_values {property : Chip Circuit → Prop} {circuit : Circuit}
    (each : ∀ node ∈ circuit.nodes.values, ∀ body, node.part = .chip body →
      property body ∧ body.circuit.EveryChip property) : circuit.EveryChip property :=
  everyChip_iff.mpr fun id node body found => each node (Arena.mem_values.mpr ⟨id, found⟩) body

/-- After an edit a property holds of every chip if it did before and holds of those that come in. -/
theorem EveryChip.edit {property : Chip Circuit → Prop} {circuit : Circuit}
    (every : circuit.EveryChip property) (edit : Edit Circuit) (fresh : Revision)
    (brought : ∀ body, edit.Brings body → property body ∧ body.circuit.EveryChip property) :
    (edit.apply fresh circuit).EveryChip property := by
  rcases edit.apply_cases fresh circuit with unchanged | ⟨_, gathers⟩
  · rwa [unchanged]
  · refine everyChip_iff.mpr fun id node body found isChip => ?_
    rcases gathers id node body found isChip with ⟨origin, original, here, wasChip⟩ | brings
    · exact everyChip_iff.mp every origin original body here wasChip
    · exact brought body brings

/-- No chip of the circuit, at any depth, keeps pins. -/
def Underived : Circuit → Prop :=
  EveryChip fun body => body.bindings = none

/-- All chips of the circuit, at any depth, go by the pins that they would derive now. -/
def Bound : Circuit → Prop :=
  EveryChip fun body => body.currentBindings = Chip.computeBindings body.circuit

/-- A chip that keeps no pins derives them. -/
theorem currentBindings_of_none {body : Chip Circuit} (none : body.bindings = none) :
    body.currentBindings = Chip.computeBindings body.circuit := by
  rw [Chip.currentBindings, none]

/-- Where no chip keeps pins, all chips derive them. -/
theorem Underived.bound {circuit : Circuit} (underived : circuit.Underived) : circuit.Bound :=
  Throughout.imp (fun _ each id node body found isChip =>
    currentBindings_of_none (each id node body found isChip)) underived

/-- A renewed circuit keeps no pins.

Proof: by induction over the nesting. -/
theorem underived_renew (circuit : Circuit) (fresh : Revision) : (circuit.renew fresh).1.Underived := by
  induction circuit using nesting_induction generalizing fresh with
  | step circuit inductionHypothesis =>
    refine everyChip_iff.mpr fun id node body found isChip => ?_
    obtain ⟨start, renewed⟩ := circuit.node?_renew fresh id
    rw [renewed] at found
    obtain ⟨original, here, rfl⟩ := Option.map_eq_some_iff.mp found
    obtain ⟨label, position, part, inputs, outputs⟩ := original
    cases part with
    | chip wasBody =>
      cases isChip
      exact ⟨rfl, inductionHypothesis id _ wasBody here rfl start⟩
    | _ => cases isChip

end Circuit

end Breadboard
