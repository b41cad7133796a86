import Breadboard.Proofs.Circuit.Bindings
import Breadboard.Proofs.Engine.Bound
import Breadboard.Proofs.Engine.Upkeep

/-!
# Steady chips

A chip is steady if its circuit does not change when it is settled again, and neither when it is driven
again from the inputs that it was last settled for. The latter does not follow from the former: it
holds because an evaluation leaves driven nodes as they were driven. So a chip comes steady out of a
pass that settled its circuit for good, and a steady chip is not changed by a step, in whatever pass.
-/

namespace Breadboard

namespace Node

variable {node : Node Circuit}

/-- The node is as the signal would drive it. -/
def Held (signal : Option Signal) (node : Node Circuit) : Prop :=
  match node.part with
  | .inputPin width state =>
    state = (signal.getD (.zero width.bits)).normalise width.bits ∧
      node.outputs.get? "out" = some state
  | .switch on => on = (signal.getD (.zero 1)).toBool
  | _ => True

/-- Driving a node changes nothing exactly if the node is as the signal would drive it. -/
theorem driveFrom_eq_self_iff {signal : Option Signal} :
    node.driveFrom signal = node ↔ node.Held signal := by
  obtain ⟨label, position, part, inputs, outputs⟩ := node
  cases part with
  | inputPin width state =>
    rw [driveFrom_of_part rfl]
    simp only [mk.injEq, Part.inputPin.injEq, true_and, Held]
    constructor
    · rintro ⟨same, stands⟩
      refine ⟨same.symm, ?_⟩
      rw [← stands, PortMap.get?_insert, if_pos rfl, same]
    · rintro ⟨same, stands⟩
      exact ⟨same.symm, PortMap.insert_of_get? (same ▸ stands)⟩
  | switch on =>
    simp only [driveFrom, drive?, Option.getD_some, mk.injEq, Part.switch.injEq, true_and, and_true, Held]
    exact eq_comm
  | _ => simp [driveFrom, drive?, Held]

/-- What the node was driven to it is still driven to. -/
def KeepsDriven (before after : Node Circuit) : Prop :=
  ∀ signal, before.Held signal → after.Held signal

/-- A change that leaves part and outputs leaves a driven node driven. -/
theorem KeepsDriven.of_part {before after : Node Circuit} (part : after.part = before.part)
    (outputs : after.outputs = before.outputs) : before.KeepsDriven after := by
  intro signal held
  rwa [Held, part, outputs]

/-- Writing to a port that input pins do not drive leaves a driven node driven. -/
theorem keepsDriven_shown (node : Node Circuit) (signal : Signal) :
    node.KeepsDriven (node.setOutput "joint" signal) := by
  intro drive held
  obtain ⟨label, position, part, inputs, outputs⟩ := node
  cases part with
  | inputPin width state =>
    refine ⟨held.1, ?_⟩
    rw [setOutput, PortMap.get?_insert, if_neg (by decide)]
    exact held.2
  | _ => exact held

/-- The beginning of a tick leaves a driven node driven. -/
theorem keepsDriven_begun (interval : Nat) (node : Node Circuit) :
    node.KeepsDriven (node.begun interval) := by
  intro signal held
  obtain ⟨label, position, part, inputs, outputs⟩ := node
  cases part with
  | clock oscillator =>
    simp only [begun, beginTick]
    cases oscillator.advance interval <;> trivial
  | _ => exact held

/-- A step leaves a driven node driven. -/
theorem keepsDriven_step (node : Node Circuit) : node.KeepsDriven node.step := by
  intro signal held
  obtain ⟨label, position, part, inputs, outputs⟩ := node
  cases part with
  | inputPin width state =>
    obtain ⟨same, stands⟩ := held
    refine ⟨same, ?_⟩
    simp only [step, setOutput, PortMap.get?_insert, if_true]
    rw [same, Signal.normalise_normalise]
  | resize direction => cases direction <;> trivial
  | _ => exact held

/-- An evaluation leaves driven nodes driven. -/
theorem invariant_keepsDriven :
    Invariant KeepsDriven (fun _ => True) (fun _ => True) fun _ => True where
  refl _ _ := id
  trans first second signal := second signal ∘ first signal
  staged _ _ := .of_part rfl rfl
  quieted node := by
    obtain ⟨label, position, part, inputs, outputs⟩ := node
    cases part <;> exact fun _ held => held
  begun := keepsDriven_begun
  shown := keepsDriven_shown
  stepped node _ := keepsDriven_step node
  enclosed _ _ _ _ _ _ _ _ := trivial
  abandoned _ _ _ _ _ _ _ _ := trivial
  driven _ _ _ := trivial
  lasts _ _ := trivial
  inner _ _ _ _ _ _ := trivial
  asked _ _ := trivial

end Node

namespace Chip

variable {chip other : Chip Circuit} {inputs : PortMap}

/-- Driving pins again from the same inputs changes nothing in a circuit that left driven nodes driven.
-/
theorem drivePins_again (chip : Chip Circuit) {again : PortMap} {pins : List NodeId}
    (declared : other.inputs = chip.inputs)
    (agree : ∀ decl ∈ chip.inputs, again.get? decl.id = inputs.get? decl.id)
    (kept : Circuit.Related Node.KeepsDriven (chip.drivePins inputs pins) other.circuit) :
    other.drivePins again pins = other.circuit := by
  have frame : (other.drivePins again pins).SameFrame other.circuit :=
    Circuit.sameFrame_foldl (fun port : PortDecl × NodeId => port.2)
      (fun port => Node.driveFrom (again.get? port.1.id)) _ _
  refine Circuit.ext_node? frame.size (fun id => ?_) frame.wires frame.revision
  rw [node?_drivePins]
  cases found : other.circuit.node? id with
  | none => rfl
  | some after =>
    obtain ⟨before, foundDriven, keeps⟩ := kept.origin found
    rw [node?_drivePins] at foundDriven
    obtain ⟨node, _, rfl⟩ := Option.map_eq_some_iff.mp foundDriven
    have sameDriver : other.driverAt? pins id = chip.driverAt? pins id := by
      rw [driverAt?, driverAt?, declared]
    rw [Option.map_some, sameDriver]
    cases drives : chip.driverAt? pins id with
    | none => rfl
    | some decl =>
      obtain ⟨port, last, rfl⟩ := Option.map_eq_some_iff.mp drives
      have isDeclared := (List.of_mem_zip (List.mem_filter.mp (List.mem_of_getLast? last)).1).1
      rw [drives] at keeps
      have held := keeps _ (Node.driveFrom_eq_self_iff.mp (Node.driveFrom_driveFrom node _ _))
      simp only [Option.elim_some]
      rw [agree _ isDeclared, Node.driveFrom_eq_self_iff.mpr held]

/-- The chip keeps the pins that it goes by, its circuit does not change when it is settled again, and
neither when it is driven from the inputs that it was last settled for. -/
structure Steady (inner : Circuit → Circuit) (chip : Chip Circuit) : Prop where
  bound : chip.bind = chip
  settled : inner chip.circuit = chip.circuit
  driven : ∀ inputs, chip.seen inputs = chip.lastInputs → chip.drivenAsBound inputs = chip.circuit

variable {inner : Circuit → Circuit}

/-- Seeing the inputs that it was last settled for, a steady chip does not change. -/
theorem Steady.reached (steady : chip.Steady inner) (same : chip.seen inputs = chip.lastInputs)
    (initial : Bool) : chip.reachedAsBound inner initial inputs = chip := by
  rw [reachedAsBound, steady.driven inputs same, steady.settled, ite_self, holding, same, steady.bound]

/-- Around a circuit of the same revision a chip goes by the pins that it went by. -/
theorem currentBindings_holding {circuit : Circuit} (revision : circuit.revision = chip.circuit.revision) :
    (chip.holding inputs circuit).currentBindings = chip.currentBindings := by
  change (if chip.currentBindings.revision = circuit.revision then chip.currentBindings
    else computeBindings circuit) = _
  rw [if_pos (by rw [revision_currentBindings, revision])]

/-- A chip sees what it declares: inputs seen alike are the same at declared ports. -/
theorem get?_of_seen_eq {again : PortMap} (same : chip.seen again = chip.seen inputs) {decl : PortDecl}
    (declared : decl ∈ chip.inputs) : again.get? decl.id = inputs.get? decl.id := by
  rw [← get?_seen declared again, same, get?_seen declared]

variable (blueprints : ∀ circuit, Circuit.Related Node.KeepsBlueprint circuit (inner circuit))
  (drives : ∀ circuit, Circuit.Related Node.KeepsDriven circuit (inner circuit))
include blueprints

/-- In a pass a chip keeps its revision. -/
theorem revision_reachedAsBound (chip : Chip Circuit) (inputs : PortMap) (initial : Bool) :
    (chip.reachedAsBound inner initial inputs).circuit.revision = chip.circuit.revision := by
  have driven := Circuit.revision_of_blueprint_eq
    (Circuit.blueprint_drivePins chip inputs chip.currentBindings.inputs)
  simp only [reachedAsBound, holding]
  split
  · exact (blueprints _).frame.revision.trans driven
  · exact driven

include drives

/-- A chip comes steady out of a pass in which its circuit reached what does not change when it is
settled again, and so it does if it was steady and nothing was due. -/
theorem steady_reachedAsBound (chip : Chip Circuit) (inputs : PortMap) (initial : Bool)
    (settled : chip.isDue initial inputs = true →
      inner (inner (chip.drivenAsBound inputs)) = inner (chip.drivenAsBound inputs))
    (idle : chip.isDue initial inputs = false → chip.Steady inner) :
    (chip.reachedAsBound inner initial inputs).Steady inner := by
  have revision := revision_reachedAsBound blueprints chip inputs initial
  have current : (chip.reachedAsBound inner initial inputs).currentBindings = chip.currentBindings :=
    currentBindings_holding revision
  constructor
  · rw [bind, current]
    rfl
  · simp only [reachedAsBound, holding]
    split
    · next due => exact settled due
    · next notDue =>
      have steady := idle (by simpa using notDue)
      have unseen : chip.seen inputs = chip.lastInputs := by
        simp only [isDue, Bool.or_eq_true, not_or, bne_iff_ne, ne_eq, not_not] at notDue
        exact notDue.1.2
      rw [steady.driven inputs unseen, steady.settled]
  · intro again same
    have kept : Circuit.Related Node.KeepsDriven (chip.drivenAsBound inputs)
        (chip.reachedAsBound inner initial inputs).circuit := by
      simp only [reachedAsBound, holding]
      split
      · exact drives _
      · exact .refl Node.invariant_keepsDriven.refl _
    rw [drivenAsBound, current]
    exact drivePins_again chip rfl (fun decl declared => get?_of_seen_eq same declared) kept

end Chip

namespace Node

variable {inner : Circuit → Circuit} {node : Node Circuit}
  (blueprints : ∀ circuit, Circuit.Related Node.KeepsBlueprint circuit (inner circuit))
  (drives : ∀ circuit, Circuit.Related Node.KeepsDriven circuit (inner circuit))

/-- A node that is a chip is a steady one. -/
def Steady (inner : Circuit → Circuit) (node : Node Circuit) : Prop :=
  ∀ body, node.part = .chip body → body.Steady inner

/-- What is staged has no say in whether a node is steady. -/
theorem Steady.staged (steady : node.Steady inner) (arriving : PortMap) :
    (node.staged arriving).Steady inner :=
  fun body isChip => steady body isChip

include blueprints

/-- A node that comes steady out of a pass is not changed by a step in any later one. -/
theorem boundStep_boundStep (initial again : Bool)
    (steady : (node.boundStep inner initial).Steady inner) :
    (node.boundStep inner initial).boundStep inner again = node.boundStep inner initial := by
  cases part : node.part with
  | chip body =>
    have reached := boundStep_of_chip inner initial part
    have isChip : (node.boundStep inner initial).part =
        .chip (body.reachedAsBound inner initial node.inputs) := by
      rw [reached]
      rfl
    have current : (body.reachedAsBound inner initial node.inputs).currentBindings =
        body.currentBindings :=
      Chip.currentBindings_holding (Chip.revision_reachedAsBound blueprints body node.inputs initial)
    rw [boundStep_of_chip inner again isChip, inputs_boundStep,
      (steady _ isChip).reached rfl again, current, reached]
    simp only [enclosing, Chip.copyOutputs_eq, PortMap.writeAll_writeAll]
  | _ =>
    have notChip : ∀ body, node.part ≠ .chip body := by simp [part]
    have stillNoChip : ∀ body, node.step.part ≠ .chip body := by simp [step_eq, displayed, part]
    rw [boundStep_of_not_chip inner initial notChip, boundStep_of_not_chip inner again stillNoChip,
      step_step]

include drives

/-- A node comes steady out of a pass in which circuits inside chips reached what does not change when
it is settled again, if it was steady or the pass is the initial one. -/
theorem steady_boundStep (initial : Bool)
    (settled : node.ToldInside (fun circuit => inner (inner circuit) = inner circuit) initial)
    (wasSteady : initial = false → node.Steady inner) :
    (node.boundStep inner initial).Steady inner := by
  intro reached isReached
  cases part : node.part with
  | chip body =>
    rw [boundStep_of_chip inner initial part] at isReached
    obtain rfl := Part.chip.inj isReached
    refine Chip.steady_reachedAsBound blueprints drives body node.inputs initial (settled body part) ?_
    intro idle
    refine wasSteady ?_ body part
    cases initial with
    | false => rfl
    | true => simp [Chip.isDue] at idle
  | _ =>
    rw [boundStep_of_not_chip inner initial (by simp [part]), step_eq] at isReached
    simp [displayed, part] at isReached

end Node

end Breadboard
