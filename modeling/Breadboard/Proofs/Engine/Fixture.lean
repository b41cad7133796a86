import Breadboard.Proofs.Engine.Clockwork
import Breadboard.Proofs.Engine.Holding
import Breadboard.Proofs.Engine.Steadiness

/-!
# The fixture of a circuit

The fixture is all of a circuit that its simulation does not touch: everything but staged inputs and
outputs, what pins, lights and displays show, the states of pins that stand behind ports of chips, and what
chips have derived. An evaluation keeps the fixture at every depth, with whatever netlists it begins and
wherever it ends, as long as chips go by current pins. Only on the level that a tick begins on do oscillators
move, and nothing of them but their state and their count.
-/

namespace Breadboard

/-- The part without what an evaluation may change. -/
def Part.fixed : Part Circuit → Part Circuit
  | .outputPin width _ => .outputPin width (.bit false)
  | .light _ => .light false
  | .sevenSegment _ => .sevenSegment .dark
  | .chip body =>
    .chip { body with
      circuit := body.circuit.grounded body.boundPins
      bindings := none
      lastInputs := .empty }
  | other => other

/-- The node without what an evaluation may change. -/
def Node.fixed (node : Node Circuit) : Node Circuit :=
  { node with part := node.part.fixed, inputs := .empty, outputs := .empty }

/-- The circuit without what an evaluation may change at any depth. -/
def Circuit.fixture : Circuit → Circuit :=
  Circuit.viewed id Node.fixed

/-- The node without what an evaluation may change at any depth. -/
def Node.fixture : Node Circuit → Node Circuit :=
  Node.viewed id Node.fixed

/-- The oscillator at the beginning of its low phase. -/
def Oscillator.unwound (oscillator : Oscillator) : Oscillator :=
  { oscillator with state := false, tick := 0 }

/-- The circuit with the oscillators of the level itself at the beginning of their low phases. -/
def Circuit.unwound (circuit : Circuit) : Circuit :=
  { circuit with nodes := circuit.nodes.map (Node.adjusted Oscillator.unwound) }

/-- All chips of the node, at any depth, go by the pins that they would derive now. -/
def Node.Bound (node : Node Circuit) : Prop :=
  ∀ body, node.part = .chip body →
    body.currentBindings = Chip.computeBindings body.circuit ∧ body.circuit.Bound

namespace Circuit

/-- All chips of a circuit go by current pins if those of its nodes do. -/
theorem bound_iff {circuit : Circuit} :
    circuit.Bound ↔ ∀ id node, circuit.node? id = some node → node.Bound :=
  everyChip_iff.trans ⟨fun each id node found body => each id node body found,
    fun each id node body found => each id node found body⟩

variable {left right : Circuit}

/-- The fixture has the outline of the circuit. -/
theorem outline_fixture (circuit : Circuit) : circuit.fixture.outline = circuit.outline := by
  refine outline_viewed (fun node => ?_) circuit
  obtain ⟨label, position, part, inputs, outputs⟩ := node
  cases part with
  | chip body =>
    have inner := outline_grounded body.boundPins body.circuit
    simp only [outline] at inner
    simp only [Node.outline, Node.viewed, Node.fixed, Node.outlined, Node.map, Part.map, Part.fixed,
      Part.outline, Chip.map, inner]
  | _ => rfl

/-- Circuits with one fixture have one outline. -/
theorem outline_of_fixture_eq (same : left.fixture = right.fixture) : left.outline = right.outline := by
  rw [← outline_fixture left, same, outline_fixture]

/-- Circuits with one fixture have one revision. -/
theorem revision_of_fixture_eq (same : left.fixture = right.fixture) : left.revision = right.revision :=
  (frame_of_viewed_eq same).2.1

end Circuit

namespace Node

variable {node after : Node Circuit}

/-- The fixture of a chip holds the fixture of its circuit without the states of driven pins. -/
theorem fixture_of_chip {body : Chip Circuit} (isChip : node.part = .chip body) :
    node.fixture =
      ⟨node.label, node.position, .chip ⟨body.name, body.inputs, body.outputs,
        body.circuit.fixture.grounded body.boundPins, none, .empty⟩, .empty, .empty⟩ := by
  obtain ⟨label, position, _, inputs, outputs⟩ := node
  simp only at isChip
  subst isChip
  have pins : (body.map Circuit.fixture).boundPins = body.boundPins := by
    simp only [Chip.boundPins, Chip.map]
    rw [Circuit.inputPins_of_outline_eq (Circuit.outline_fixture body.circuit)]
  simp only [fixture, viewed, fixed, map, Part.map, Part.fixed]
  exact congrArg (fun pins => (⟨label, position, .chip ⟨body.name, body.inputs, body.outputs,
    body.circuit.fixture.grounded pins, none, .empty⟩, .empty, .empty⟩ : Node Circuit)) pins

/-- A node that is no chip holds no pins. -/
theorem bound_of_not_chip (notChip : ∀ body, node.part ≠ .chip body) : node.Bound :=
  fun body isChip => absurd isChip (notChip body)

/-- If its chips go by current pins, the node keeps its fixture, and they go on to do so. -/
def KeepsFixture (before after : Node Circuit) : Prop :=
  before.Bound → after.Bound ∧ after.fixture = before.fixture

theorem KeepsFixture.refl (node : Node Circuit) : node.KeepsFixture node :=
  fun bound => ⟨bound, rfl⟩

theorem KeepsFixture.trans {first second third : Node Circuit} (one : first.KeepsFixture second)
    (two : second.KeepsFixture third) : first.KeepsFixture third := by
  intro bound
  obtain ⟨boundBetween, sameFirst⟩ := one bound
  obtain ⟨boundAfter, sameSecond⟩ := two boundBetween
  exact ⟨boundAfter, sameSecond.trans sameFirst⟩

/-- A node that differs in its signals only keeps its fixture. -/
theorem KeepsFixture.of_part (label : after.label = node.label) (position : after.position = node.position)
    (part : after.part = node.part) : node.KeepsFixture after := by
  intro bound
  refine ⟨fun body isChip => bound body (part ▸ isChip), ?_⟩
  simp only [fixture, viewed, fixed, map, label, position, part]

end Node

namespace Circuit

variable {before after : Circuit}

/-- Circuits whose nodes keep their fixtures have one fixture, and go on to go by current pins. -/
theorem Related.keepsFixture (related : Related Node.KeepsFixture before after) (bound : before.Bound) :
    after.Bound ∧ after.fixture = before.fixture := by
  have each : Related (fun node changed => changed.Bound ∧ changed.fixture = node.fixture) before after :=
    related.imp_of_found fun id node _ found kept => kept (bound_iff.mp bound id node found)
  refine ⟨bound_iff.mpr fun id node found => ?_, each.viewed_eq fun _ _ kept => kept.2⟩
  obtain ⟨_, _, kept⟩ := each.origin found
  exact kept.1

end Circuit

namespace Node

variable {node after : Node Circuit}

/-- A driven node has the chip that it had. -/
theorem bound_driveFrom (signal : Option Signal) (bound : node.Bound) : (node.driveFrom signal).Bound := by
  obtain ⟨label, position, part, inputs, outputs⟩ := node
  cases part with
  | chip body => exact bound
  | _ => exact bound_of_not_chip nofun

/-- Driving an input pin keeps its fixture without a state. -/
theorem grounded_fixture_driveFrom (pin : node.isInputPin = true) (signal : Option Signal) :
    (node.driveFrom signal).fixture.grounded = node.fixture.grounded := by
  obtain ⟨label, position, part, inputs, outputs⟩ := node
  obtain ⟨width, state, rfl⟩ := isInputPin_iff.mp pin
  rfl

end Node

/-- Driving the pins of a chip changes no chip. -/
theorem Circuit.Bound.driven {chip : Chip Circuit} (bound : chip.circuit.Bound) (inputs : PortMap) :
    (chip.driven inputs).Bound := by
  have related : Circuit.Related (fun before after => before.Bound → after.Bound) chip.circuit
      (chip.driven inputs) :=
    Circuit.related_driven (fun _ bound => bound) (fun one two bound => two (one bound))
      (fun signal _ bound => Node.bound_driveFrom signal bound) chip inputs
  refine Circuit.bound_iff.mpr fun id node found => ?_
  obtain ⟨original, here, kept⟩ := related.origin found
  exact kept (Circuit.bound_iff.mp bound id original here)

namespace Node

variable {node after : Node Circuit}

/-- A chip whose circuit was driven and kept its fixture from then on keeps its own. -/
theorem keepsFixture_holding {body : Chip Circuit} (isChip : node.part = .chip body) {inputs : PortMap}
    {circuit : Circuit} (related : Circuit.Related KeepsFixture (body.drivenAsBound inputs) circuit)
    (isReached : after.part = .chip (body.holding inputs circuit)) (label : after.label = node.label)
    (position : after.position = node.position) : node.KeepsFixture after := by
  intro bound
  obtain ⟨current, inner⟩ := bound body isChip
  have driven : body.drivenAsBound inputs = body.driven inputs := by
    rw [Chip.drivenAsBound, current, Chip.driven]
  rw [driven] at related
  obtain ⟨boundReached, same⟩ := related.keepsFixture (inner.driven inputs)
  have outline : circuit.outline = body.circuit.outline :=
    (Circuit.outline_of_fixture_eq same).trans (body.outline_driven inputs)
  have revision : circuit.revision = body.circuit.revision :=
    (Circuit.revision_of_fixture_eq same).trans (body.sameFrame_driven inputs).revision
  constructor
  · intro reached isThere
    obtain rfl := Part.chip.inj (isReached.symm.trans isThere)
    refine ⟨(Chip.currentBindings_holding revision).trans (current.trans ?_), boundReached⟩
    exact (Circuit.computeBindings_of_outline_eq outline revision).symm
  · have pins : (body.holding inputs circuit).boundPins = body.boundPins :=
      congrArg (fun pins => (body.inputs.zip pins).map Prod.snd) (Circuit.inputPins_of_outline_eq outline)
    have grounded : circuit.fixture.grounded body.boundPins =
        body.circuit.fixture.grounded body.boundPins :=
      (congrArg (Circuit.grounded body.boundPins) same).trans
        (body.grounded_driven_viewed (fun _ pin => grounded_fixture_driveFrom pin) inputs)
    rw [fixture_of_chip isReached, fixture_of_chip isChip, label, position, pins]
    change (⟨_, _, .chip ⟨_, _, _, circuit.fixture.grounded body.boundPins, _, _⟩, _, _⟩ :
      Node Circuit) = _
    rw [grounded]
    rfl

/-- Whatever passes do, if chips go by current pins, nodes keep their fixtures. -/
theorem passInvariant_keepsFixture :
    PassInvariant KeepsFixture (fun _ => True) (fun _ => True) fun _ => True where
  refl := .refl
  trans := .trans
  staged _ _ := .of_part rfl rfl rfl
  quieted node := by
    obtain ⟨label, position, part, inputs, outputs⟩ := node
    cases part <;> exact .of_part rfl rfl rfl
  shown _ _ := .of_part rfl rfl rfl
  stepped node notChip := by
    obtain ⟨label, position, part, inputs, outputs⟩ := node
    cases part with
    | chip body => exact absurd rfl (notChip body)
    | resize direction => cases direction <;> exact fun _ => ⟨bound_of_not_chip nofun, rfl⟩
    | _ => exact fun _ => ⟨bound_of_not_chip nofun, rfl⟩
  enclosed _ _ isChip _ _ related := keepsFixture_holding isChip related rfl rfl rfl
  abandoned _ _ isChip _ _ related := keepsFixture_holding isChip related rfl rfl rfl
  driven _ _ _ := trivial
  lasts _ _ := trivial
  inner _ _ _ _ _ _ := trivial
  asked _ _ := trivial

/-- If its chips go by current pins, the node keeps its fixture but for the state and the count of its
oscillator, and they go on to do so. -/
def KeepsUnwound (before after : Node Circuit) : Prop :=
  before.Bound → after.Bound ∧
    after.fixture.adjusted Oscillator.unwound = before.fixture.adjusted Oscillator.unwound

theorem KeepsUnwound.trans {first second third : Node Circuit} (one : first.KeepsUnwound second)
    (two : second.KeepsUnwound third) : first.KeepsUnwound third := by
  intro bound
  obtain ⟨boundBetween, sameFirst⟩ := one bound
  obtain ⟨boundAfter, sameSecond⟩ := two boundBetween
  exact ⟨boundAfter, sameSecond.trans sameFirst⟩

/-- What keeps a fixture keeps it but for an oscillator. -/
theorem KeepsFixture.keepsUnwound (kept : node.KeepsFixture after) : node.KeepsUnwound after :=
  fun bound => ⟨(kept bound).1, congrArg (adjusted Oscillator.unwound) (kept bound).2⟩

end Node

/-- Counting a tick moves nothing of an oscillator but its state and its count. -/
theorem Oscillator.unwound_advance {oscillator advanced : Oscillator} {interval : Nat}
    (advances : oscillator.advance interval = .ok advanced) : advanced.unwound = oscillator.unwound := by
  unfold advance count at advances
  split at advances
  · cases advances
    rfl
  · split at advances
    · cases advances
      split <;> rfl
    · cases advances

/-- The beginning of a tick moves nothing but oscillators, even where one cannot advance. -/
theorem Node.keepsUnwound_begun (interval : Nat) (node : Node Circuit) :
    node.KeepsUnwound (node.begun interval) := by
  refine fun bound => ⟨fun body isChip => bound body (chip_begun_iff.mp isChip), ?_⟩
  obtain ⟨label, position, part, inputs, outputs⟩ := node
  cases part with
  | clock oscillator =>
    simp only [begun, beginTick]
    cases advances : oscillator.advance interval with
    | error fault => rfl
    | ok advanced =>
      have same := Oscillator.unwound_advance advances
      simp only [fixture, viewed, fixed, map, quieted, adjusted, Part.map, Part.fixed, same]
  | _ => rfl

namespace Circuit

variable {circuit before after : Circuit}

/-- A handle names its node, with its oscillator unwound. -/
theorem node?_unwound (circuit : Circuit) (id : NodeId) :
    circuit.unwound.node? id = (circuit.node? id).map (Node.adjusted Oscillator.unwound) :=
  Arena.get?_map ..

/-- Circuits whose nodes keep their fixtures but for oscillators have one fixture but for the oscillators
of the level. -/
theorem Related.keepsUnwound (related : Related Node.KeepsUnwound before after) (bound : before.Bound) :
    after.Bound ∧ after.fixture.unwound = before.fixture.unwound := by
  have each : Related (fun node changed => changed.Bound ∧ changed.fixture.adjusted Oscillator.unwound =
      node.fixture.adjusted Oscillator.unwound) before after :=
    related.imp_of_found fun id node _ found kept => kept (bound_iff.mp bound id node found)
  constructor
  · refine bound_iff.mpr fun id node found => ?_
    obtain ⟨_, _, kept⟩ := each.origin found
    exact kept.1
  · refine ext_node? ?_ (fun id => ?_) ?_ ?_
    · simpa [unwound, fixture, Circuit.viewed_eq, Arena.map] using related.frame.size
    · rw [node?_unwound, node?_unwound, fixture, node?_viewed, node?_viewed, Option.map_map, Option.map_map]
      exact each.map_eq (fun _ _ kept => kept.2) id
    · simpa [unwound, fixture, Circuit.viewed_eq] using related.frame.wires
    · simpa [unwound, fixture, Circuit.viewed_eq] using related.frame.revision

/-- A tick touches no fixture, but for the oscillators of the level, wherever it ends. -/
theorem fixture_evaluate (bound : circuit.Bound) (limits : Limits) (cache : NetlistCache) :
    (circuit.evaluate limits .top cache).1.Bound ∧
      (circuit.evaluate limits .top cache).1.fixture.unwound = circuit.fixture.unwound :=
  (Node.passInvariant_keepsFixture.evaluate_top (fun _ _ kept => kept.keepsUnwound) .trans
    Node.keepsUnwound_begun limits circuit cache).keepsUnwound bound

end Circuit

end Breadboard
