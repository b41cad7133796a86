import Breadboard.Proofs.Circuit.Outline

/-!
# Blueprints

The blueprint of a circuit is its outline with the stamps left on: everything but what moves when a
circuit is simulated. Nets and revisions are the same for circuits with one blueprint, on every level,
so whatever is known of the nets by their revisions is known of both circuits or of neither.
-/

namespace Breadboard

/-- The circuit without anything that moves in a simulation. -/
def Circuit.blueprint : Circuit → Circuit :=
  Circuit.viewed id Node.outlined

/-- The node without anything that moves in a simulation. -/
def Node.blueprint : Node Circuit → Node Circuit :=
  Node.viewed id Node.outlined

namespace Node

/-- Nodes that differ in their signals only have one blueprint. -/
theorem blueprint_congr {before after : Node Circuit} (part : after.part = before.part)
    (label : after.label = before.label) (position : after.position = before.position) :
    after.blueprint = before.blueprint := by
  simp only [blueprint, viewed, outlined, map, label, position, part]

/-- What a user drives a node to has the blueprint of the node. -/
theorem blueprint_drive? {node driven : Node Circuit} {signal : Signal}
    (drives : node.drive? signal = some driven) : driven.blueprint = node.blueprint := by
  obtain ⟨label, position, part, inputs, outputs⟩ := node
  cases part with
  | inputPin width state =>
    simp only [drive?, Option.some.injEq] at drives
    subst drives
    rfl
  | switch on =>
    simp only [drive?, Option.some.injEq] at drives
    subst drives
    rfl
  | _ => cases drives

/-- A node keeps its blueprint when it is driven, if it can be driven. -/
theorem blueprint_driven (signal : Signal) (node : Node Circuit) :
    ((node.drive? signal).getD node).blueprint = node.blueprint := by
  cases drives : node.drive? signal with
  | none => rfl
  | some driven => exact blueprint_drive? drives

/-- The node with its oscillator, if it is one, changed. -/
def adjusted {Inner : Type} (change : Oscillator → Oscillator) (node : Node Inner) : Node Inner :=
  match node.part with
  | .clock oscillator => { node with part := .clock (change oscillator) }
  | _ => node

/-- A node keeps its blueprint when its oscillator is changed. -/
theorem blueprint_adjusted (change : Oscillator → Oscillator) (node : Node Circuit) :
    (node.adjusted change).blueprint = node.blueprint := by
  obtain ⟨label, position, part, inputs, outputs⟩ := node
  cases part <;> rfl

/-- Changing an oscillator leaves what the node drives. -/
@[simp] theorem outputs_adjusted {Inner : Type} (change : Oscillator → Oscillator) (node : Node Inner) :
    (node.adjusted change).outputs = node.outputs := by
  obtain ⟨label, position, part, inputs, outputs⟩ := node
  cases part <;> rfl

/-- A chip around a circuit with the blueprint of its own has the blueprint of the chip, whatever it
derived and drives. -/
theorem blueprint_of_chip {node : Node Circuit} {body : Chip Circuit} (isChip : node.part = .chip body)
    {circuit : Circuit} (same : circuit.blueprint = body.circuit.blueprint)
    (bindings : Option PinBindings) (lastInputs outputs : PortMap) :
    ({ node with
        part := .chip { body with circuit, bindings, lastInputs }
        outputs } : Node Circuit).blueprint = node.blueprint := by
  obtain ⟨label, position, part, inputs, before⟩ := node
  simp only at isChip
  subst isChip
  simp only [blueprint, viewed, outlined, map, Part.map, Chip.map, Part.outline]
  rw [show Circuit.viewed id Node.outlined circuit = circuit.blueprint from rfl, same]
  rfl

end Node

namespace Circuit

variable {left right : Circuit}

/-- Circuits with one blueprint have the same nets. -/
theorem nets_of_blueprint_eq (same : left.blueprint = right.blueprint) :
    (Netlist.build left).nets = (Netlist.build right).nets := by
  rw [← nets_outlined id left, ← nets_outlined id right]
  exact congrArg (fun circuit => (Netlist.build circuit).nets) same

/-- Circuits with one blueprint have one revision. -/
theorem revision_of_blueprint_eq (same : left.blueprint = right.blueprint) :
    left.revision = right.revision :=
  (frame_of_viewed_eq same).2.1

/-- A path that leads into a circuit leads into one with the same blueprint in any circuit with one
blueprint.

Proof: by induction on the path. -/
theorem inside?_of_blueprint_eq (same : left.blueprint = right.blueprint) {path : List NodeId}
    {inner : Circuit} (leads : right.inside? path = some inner) :
    ∃ other, left.inside? path = some other ∧ other.blueprint = inner.blueprint := by
  induction path generalizing left right with
  | nil =>
    rw [inside?] at leads
    cases leads
    exact ⟨left, by rw [inside?], same⟩
  | cons id path inductionHypothesis =>
    obtain ⟨node, body, found, isChip, deeper⟩ := inside?_cons_iff.mp leads
    obtain ⟨other, foundOther, sameNode⟩ := counterpart_of_viewed_eq same.symm found
    obtain ⟨otherBody, isOther, sameInner⟩ := Node.chip_of_outlined_eq sameNode isChip
    obtain ⟨reached, leadsToo, sameReached⟩ := inductionHypothesis sameInner.symm deeper
    exact ⟨reached, inside?_cons_iff.mpr ⟨other, otherBody, foundOther, isOther, leadsToo⟩, sameReached⟩

/-- What a circuit contains is the circuit itself or contained in the circuit of one of its chips. -/
theorem contains_iff {circuit inner : Circuit} :
    circuit.Contains inner ↔ inner = circuit ∨ ∃ id node body, circuit.node? id = some node ∧
      node.part = .chip body ∧ body.circuit.Contains inner := by
  constructor
  · rintro ⟨path, leads⟩
    cases path with
    | nil =>
      rw [inside?] at leads
      exact .inl (Option.some.inj leads).symm
    | cons id path =>
      obtain ⟨node, body, found, isChip, deeper⟩ := inside?_cons_iff.mp leads
      exact .inr ⟨id, node, body, found, isChip, path, deeper⟩
  · rintro (rfl | ⟨id, node, body, found, isChip, contained⟩)
    · exact .refl _
    · exact contained.inside found isChip

/-- What is contained in a contained circuit is contained. -/
theorem Contains.trans {circuit middle inner : Circuit} (one : circuit.Contains middle)
    (two : middle.Contains inner) : circuit.Contains inner := by
  obtain ⟨path, leads⟩ := one
  induction path generalizing circuit with
  | nil =>
    rw [inside?] at leads
    cases leads
    exact two
  | cons id path inductionHypothesis =>
    obtain ⟨node, body, found, isChip, deeper⟩ := inside?_cons_iff.mp leads
    exact (inductionHypothesis deeper).inside found isChip

/-- The property holds of the circuit and of all circuits inside its chips, at any depth. -/
def Throughout (property : Circuit → Prop) (circuit : Circuit) : Prop :=
  ∀ inner, circuit.Contains inner → property inner

variable {property : Circuit → Prop}

/-- What holds throughout a circuit holds of it and throughout the circuits of its chips. -/
theorem throughout_iff {circuit : Circuit} :
    circuit.Throughout property ↔ property circuit ∧ ∀ id node body, circuit.node? id = some node →
      node.part = .chip body → body.circuit.Throughout property := by
  constructor
  · intro throughout
    refine ⟨throughout circuit (.refl circuit), ?_⟩
    intro id node body found isChip inner contained
    exact throughout inner (contained.inside found isChip)
  · rintro ⟨here, inside⟩ inner contained
    rcases contains_iff.mp contained with rfl | ⟨id, node, body, found, isChip, deeper⟩
    · exact here
    · exact inside id node body found isChip inner deeper

/-- What holds throughout a circuit holds throughout what it contains. -/
theorem Throughout.inside {circuit : Circuit} (throughout : circuit.Throughout property)
    {id : NodeId} {node : Node Circuit} {body : Chip Circuit} (found : circuit.node? id = some node)
    (isChip : node.part = .chip body) : body.circuit.Throughout property :=
  (throughout_iff.mp throughout).2 id node body found isChip

/-- What holds throughout a circuit holds throughout every part of it. -/
theorem Throughout.of_contains {circuit inner : Circuit} (throughout : circuit.Throughout property)
    (contained : circuit.Contains inner) : inner.Throughout property :=
  fun _ deeper => throughout _ (contained.trans deeper)

/-- What follows from a property that holds throughout a circuit holds throughout it. -/
theorem Throughout.imp {other : Circuit → Prop} (weaken : ∀ circuit, property circuit → other circuit)
    {circuit : Circuit} (throughout : circuit.Throughout property) : circuit.Throughout other :=
  fun inner contained => weaken inner (throughout inner contained)

/-- What blueprints tell of a circuit holds throughout all circuits with one blueprint or none.

Proof: by induction over the nesting. Every chip has a counterpart around a circuit of the same
blueprint. -/
theorem Throughout.of_blueprint_eq
    (told : ∀ {left right : Circuit}, left.blueprint = right.blueprint → property left → property right)
    (same : left.blueprint = right.blueprint) (throughout : left.Throughout property) :
    right.Throughout property := by
  induction right using nesting_induction generalizing left with
  | step right inductionHypothesis =>
    refine throughout_iff.mpr ⟨told same (throughout left (.refl left)), ?_⟩
    intro id node body found isChip
    obtain ⟨other, foundOther, sameNode⟩ := counterpart_of_viewed_eq same.symm found
    obtain ⟨otherBody, isOther, sameInner⟩ := Node.chip_of_outlined_eq sameNode isChip
    exact inductionHypothesis id node body found isChip sameInner.symm
      (throughout.inside foundOther isOther)

/-- A table tells the nets of the circuit and of those inside its chips by their revisions. -/
def Tabled (table : Revision → List Net) : Circuit → Prop :=
  Throughout fun inner => (Netlist.build inner).nets = table inner.revision

/-- A table that tells the nets of a circuit, and of the circuits of the chips among its nodes, tells all. -/
theorem Tabled.of_values {table : Revision → List Net} {circuit : Circuit}
    (nets : (Netlist.build circuit).nets = table circuit.revision)
    (each : ∀ node ∈ circuit.nodes.values, ∀ body, node.part = .chip body → body.circuit.Tabled table) :
    circuit.Tabled table :=
  throughout_iff.mpr ⟨nets, fun id node body found => each node (Arena.mem_values.mpr ⟨id, found⟩) body⟩

/-- A table tells the nets of all circuits with one blueprint or of none of them. -/
theorem Tabled.of_blueprint_eq {table : Revision → List Net} (same : left.blueprint = right.blueprint)
    (tabled : left.Tabled table) : right.Tabled table := by
  refine Throughout.of_blueprint_eq (fun {left right} same told => ?_) same tabled
  rw [← nets_of_blueprint_eq same, ← revision_of_blueprint_eq same]
  exact told

/-- The revisions of the circuit and of those inside its chips were given out before another one. -/
def StampedBefore (fresh : Revision) : Circuit → Prop :=
  Throughout fun inner => inner.revision < fresh

/-- All circuits with one blueprint were stamped before a revision or none of them. -/
theorem StampedBefore.of_blueprint_eq {fresh : Revision} (same : left.blueprint = right.blueprint)
    (stamped : left.StampedBefore fresh) : right.StampedBefore fresh :=
  Throughout.of_blueprint_eq (fun same before => revision_of_blueprint_eq same ▸ before) same stamped

end Circuit

end Breadboard
