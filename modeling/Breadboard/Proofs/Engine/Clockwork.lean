import Breadboard.Console.Session
import Breadboard.Proofs.Circuit.Outline
import Breadboard.Proofs.Engine.Invariant
import Breadboard.Proofs.Part.Counting

/-!
# What moves oscillators

Oscillators are advanced at the beginning of a tick, on the top level only, and drive their outputs there.
After that nothing touches one: passes leave the oscillators of a circuit as they are, at every depth and
whatever netlists and pins they go by, and what an oscillator of the level drives stands.
-/

namespace Breadboard

/-- The part without anything but its oscillator, or the circuit inside it. -/
def Part.clockwork : Part Circuit → Part Circuit
  | .clock oscillator => .clock oscillator
  | .chip body =>
    .chip { name := "", inputs := [], outputs := [], circuit := body.circuit, bindings := none,
            lastInputs := .empty }
  | _ => .unknown

/-- The node without anything but its oscillator, or the circuit inside it. -/
def Node.geared (node : Node Circuit) : Node Circuit :=
  ⟨"", ⟨0, 0⟩, node.part.clockwork, .empty, .empty⟩

/-- The circuit without anything but its wires and its oscillators, at every depth. -/
def Circuit.clockwork : Circuit → Circuit :=
  Circuit.viewed (fun _ => 0) Node.geared

/-- The node without anything but its oscillator, or the oscillators in the circuit inside it. -/
def Node.clockwork : Node Circuit → Node Circuit :=
  Node.viewed (fun _ => 0) Node.geared

namespace Circuit

/-- The oscillator under a handle in the circuit that a path leads into. -/
def oscillator? (circuit : Circuit) (path : List NodeId) (id : NodeId) : Option Oscillator :=
  ((circuit.inside? path).bind fun inner => inner.node? id).bind Session.oscillator?

/-- On the level of the circuit, oscillators are found among its nodes. -/
theorem oscillator?_level (circuit : Circuit) (id : NodeId) :
    circuit.oscillator? [] id = (circuit.node? id).bind Session.oscillator? := by
  rw [oscillator?, inside?, Option.bind_some]

/-- Further inside, they are found in the circuits of chips. -/
theorem oscillator?_inside {circuit : Circuit} {first : NodeId} {path : List NodeId} {id : NodeId}
    {oscillator : Oscillator} :
    circuit.oscillator? (first :: path) id = some oscillator ↔
      ∃ node body, circuit.node? first = some node ∧ node.part = .chip body ∧
        body.circuit.oscillator? path id = some oscillator := by
  simp only [oscillator?, Option.bind_eq_some_iff, inside?_cons_iff]
  grind

end Circuit

/-- The oscillator of a node is the one that the node is. -/
theorem Node.oscillator?_eq_some {node : Node Circuit} {oscillator : Oscillator} :
    Session.oscillator? node = some oscillator ↔ node.part = .clock oscillator := by
  obtain ⟨label, position, part, inputs, outputs⟩ := node
  cases part with
  | clock own =>
    simp only [Session.oscillator?, Option.some.injEq, Part.clock.injEq]
  | _ => exact ⟨nofun, nofun⟩

/-- Nodes with one clockwork have the same oscillator or none. -/
theorem Node.oscillator?_of_clockwork {left right : Node Circuit}
    (same : left.clockwork = right.clockwork) :
    Session.oscillator? left = Session.oscillator? right := by
  have kept (node : Node Circuit) : Session.oscillator? node.clockwork = Session.oscillator? node := by
    obtain ⟨label, position, part, inputs, outputs⟩ := node
    cases part <;> rfl
  rw [← kept left, same, kept right]

/-- Where the node that an address begins with has a counterpart with the same clockwork, the oscillator
at the address is found there as well.

Proof: by induction on the path. The chip that it leads through has a counterpart around a circuit with
the same clockwork, so every node in there has one. -/
theorem Circuit.oscillator?_of_clockwork {left right : Circuit} {path : List NodeId} {id : NodeId}
    {oscillator : Oscillator}
    (counterpart : ∀ node, left.node? (path.headD id) = some node →
      ∃ other, right.node? (path.headD id) = some other ∧ node.clockwork = other.clockwork)
    (found : left.oscillator? path id = some oscillator) :
    right.oscillator? path id = some oscillator := by
  induction path generalizing left right with
  | nil =>
    rw [oscillator?_level, Option.bind_eq_some_iff] at found ⊢
    obtain ⟨node, here, isClock⟩ := found
    obtain ⟨other, foundOther, same⟩ := counterpart node here
    exact ⟨other, foundOther, (Node.oscillator?_of_clockwork same).symm.trans isClock⟩
  | cons first path inductionHypothesis =>
    obtain ⟨node, body, here, isChip, inside⟩ := oscillator?_inside.mp found
    obtain ⟨other, foundOther, same⟩ := counterpart node here
    have parts := congrArg Node.part same
    simp only [Node.clockwork, Node.viewed, Node.geared, Node.map, isChip, Part.map, Part.clockwork]
      at parts
    cases part : other.part with
    | chip otherBody =>
      rw [part] at parts
      injection parts with bodies
      have sameInner : body.circuit.clockwork = otherBody.circuit.clockwork :=
        congrArg Chip.circuit bodies
      refine oscillator?_inside.mpr ⟨other, otherBody, foundOther, part, ?_⟩
      exact inductionHypothesis (fun _ => counterpart_of_viewed_eq sameInner) inside
    | _ =>
      rw [part] at parts
      cases parts

namespace Node

/-- The node drives what its oscillator puts out, if it is one. -/
def DrivesClock (node : Node Circuit) : Prop :=
  ∀ oscillator, node.part = .clock oscillator →
    node.outputs.get? "out" = some (.bit oscillator.output)

/-- The clockwork is the same afterwards, and an oscillator that drives its output still does. -/
def KeepsTime (before after : Node Circuit) : Prop :=
  after.clockwork = before.clockwork ∧ (before.DrivesClock → after.DrivesClock)

theorem KeepsTime.refl (node : Node Circuit) : node.KeepsTime node :=
  ⟨rfl, id⟩

theorem KeepsTime.trans {first second third : Node Circuit} (one : first.KeepsTime second)
    (two : second.KeepsTime third) : first.KeepsTime third :=
  ⟨two.1.trans one.1, two.2 ∘ one.2⟩

/-- A node that has its part and the same at its output has kept time. -/
theorem KeepsTime.of_part {before after : Node Circuit} (part : after.part = before.part)
    (out : after.outputs.get? "out" = before.outputs.get? "out") : before.KeepsTime after := by
  refine ⟨?_, fun drives oscillator isClock => ?_⟩
  · simp only [clockwork, viewed, geared, map, part]
  · rw [out]
    exact drives oscillator (part ▸ isClock)

/-- A node that is neither an oscillator nor a chip, and does not become one, has kept time. -/
theorem KeepsTime.of_plain {before after : Node Circuit}
    (same : after.clockwork = before.clockwork)
    (notClock : ∀ oscillator, after.part ≠ .clock oscillator) : before.KeepsTime after :=
  ⟨same, fun _ oscillator isClock => absurd isClock (notClock oscillator)⟩

/-- A chip around a circuit with the clockwork of its own has kept time. -/
theorem keepsTime_of_chip {node : Node Circuit} {body : Chip Circuit} (isChip : node.part = .chip body)
    {after : Node Circuit} {reached : Chip Circuit} (isReached : after.part = .chip reached)
    (same : reached.circuit.clockwork = body.circuit.clockwork) : node.KeepsTime after := by
  refine .of_plain ?_ (by simp [isReached])
  simp only [clockwork, viewed, geared, map, isChip, isReached, Part.map, Part.clockwork, Chip.map]
  rw [show Circuit.viewed (fun _ => 0) geared reached.circuit = reached.circuit.clockwork from rfl, same]
  rfl

/-- Driving a node keeps time. -/
theorem keepsTime_driveFrom (signal : Option Signal) (node : Node Circuit) :
    node.KeepsTime (node.driveFrom signal) := by
  obtain ⟨label, position, part, inputs, outputs⟩ := node
  cases part with
  | inputPin width state => exact .of_plain rfl nofun
  | switch on => exact .of_plain rfl nofun
  | _ => exact .refl _

/-- A quieted oscillator drives its output. -/
theorem drivesClock_quieted (node : Node Circuit) : node.quieted.DrivesClock := by
  obtain ⟨label, position, part, inputs, outputs⟩ := node
  cases part with
  | clock oscillator =>
    intro own isClock
    cases isClock
    simp [quieted, PortMap.get?_insert]
  | _ => exact nofun

/-- Quieting a node keeps time. -/
theorem keepsTime_quieted (node : Node Circuit) : node.KeepsTime node.quieted := by
  refine ⟨?_, fun _ => drivesClock_quieted node⟩
  obtain ⟨label, position, part, inputs, outputs⟩ := node
  cases part <;> rfl

/-- A step of a primitive component keeps time. -/
theorem keepsTime_step (node : Node Circuit) : node.KeepsTime node.step := by
  obtain ⟨label, position, part, inputs, outputs⟩ := node
  cases part with
  | clock oscillator => exact .refl _
  | chip body => exact .refl _
  | resize direction => cases direction <;> exact .of_plain rfl nofun
  | _ => exact .of_plain rfl nofun

end Node

namespace Circuit

/-- Circuits whose nodes kept time have one clockwork. -/
theorem Related.clockwork_eq {before after : Circuit} (related : Related Node.KeepsTime before after) :
    after.clockwork = before.clockwork :=
  related.viewed_eq fun _ _ kept => kept.1

end Circuit

/-- A chip whose circuit was driven, and kept time afterwards, has kept time. -/
theorem Node.keepsTime_holding {node after : Node Circuit} {body : Chip Circuit} {inputs : PortMap}
    {circuit : Circuit} (isChip : node.part = .chip body)
    (isReached : after.part = .chip (body.holding inputs circuit))
    (related : Circuit.Related KeepsTime (body.drivenAsBound inputs) circuit) : node.KeepsTime after := by
  have driven : Circuit.Related KeepsTime body.circuit (body.drivenAsBound inputs) :=
    Circuit.related_drivePins .refl .trans keepsTime_driveFrom body inputs body.currentBindings.inputs
  exact keepsTime_of_chip isChip isReached (related.clockwork_eq.trans driven.clockwork_eq)

/-- The passes of an evaluation keep time. -/
theorem Node.passInvariant_keepsTime :
    PassInvariant KeepsTime (fun _ => True) (fun _ => True) fun _ => True where
  refl := .refl
  trans := .trans
  staged _ _ := .of_part rfl rfl
  quieted := keepsTime_quieted
  shown _ _ := .of_part rfl (by simp [setOutput, PortMap.get?_insert])
  stepped node _ := keepsTime_step node
  enclosed _ _ isChip _ _ related := keepsTime_holding isChip rfl related
  abandoned _ _ isChip _ _ related := keepsTime_holding isChip rfl related
  driven _ _ _ := trivial
  lasts _ _ := trivial
  inner _ _ _ _ _ _ := trivial
  asked _ _ := trivial

namespace Node

/-- Where a tick begins for a node, its oscillator goes on by one tick. -/
theorem oscillator?_begun {interval : Nat} {node : Node Circuit} (begins : node.begins interval = true) :
    Session.oscillator? (node.begun interval) =
      (Session.oscillator? node).map (Oscillator.next interval) := by
  obtain ⟨label, position, part, inputs, outputs⟩ := node
  cases part with
  | clock oscillator =>
    simp only [Node.begins, begun, beginTick] at begins ⊢
    cases advances : oscillator.advance interval with
    | error fault =>
      rw [advances] at begins
      cases begins
    | ok advanced =>
      simp only [quieted, Session.oscillator?, Option.map_some, Oscillator.next_of_advance advances]
  | _ => rfl

/-- The beginning of a tick leaves chips as they are. -/
theorem chip_begun_iff {interval : Nat} {node : Node Circuit} {body : Chip Circuit} :
    (node.begun interval).part = .chip body ↔ node.part = .chip body := by
  obtain ⟨label, position, part, inputs, outputs⟩ := node
  cases part with
  | clock oscillator =>
    simp only [begun, beginTick]
    cases oscillator.advance interval
    all_goals
      constructor
      · intro isChip
        cases isChip
      · intro isChip
        cases isChip
  | _ => exact Iff.rfl

/-- Where a tick begins for an oscillator, it drives its output. -/
theorem drivesClock_begun {interval : Nat} {node : Node Circuit} (begins : node.begins interval = true) :
    (node.begun interval).DrivesClock := by
  obtain ⟨original, same⟩ := exists_quieted_of_begins begins
  exact same ▸ drivesClock_quieted original

end Node

end Breadboard
