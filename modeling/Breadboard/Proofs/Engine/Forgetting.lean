import Breadboard.Proofs.Circuit.Bare
import Breadboard.Proofs.Engine.Signals

/-!
# What chips remember makes no difference

Circuits that are the same once bare may differ in their stamps and in all that their chips remember: the
pins that they keep, and the inputs that they were last settled for. An evaluation cannot tell them apart.
It need not be so on every pass of every level that chips decide alike whether to settle their circuits:
before the initial pass of a level what its chips remember may differ, but that pass settles all of them,
and after it they remember the same.
-/

namespace Breadboard

/-- The inputs that a chip was last settled for. -/
def Node.remembered (node : Node Circuit) : Option PortMap :=
  match node.part with
  | .chip body => some body.lastInputs
  | _ => none

/-- Settling takes circuits that are the same once bare to such circuits. -/
def Circuit.Respects (inner : Circuit → Circuit) : Prop :=
  ∀ {left right : Circuit}, left.bare = right.bare → (inner left).bare = (inner right).bare

namespace Node

variable {node other : Node Circuit}

/-- Driving a node drives the bare node. -/
theorem bare_driveFrom (signal : Option Signal) (node : Node Circuit) :
    (node.driveFrom signal).bare = node.bare.driveFrom signal := by
  obtain ⟨label, position, part, inputs, outputs⟩ := node
  cases part <;> rfl

/-- Quieting a node quiets the bare node. -/
theorem bare_quieted (node : Node Circuit) : node.quieted.bare = node.bare.quieted := by
  obtain ⟨label, position, part, inputs, outputs⟩ := node
  cases part <;> rfl

/-- Staging signals stages them on the bare node. -/
theorem bare_staged (node : Node Circuit) (arriving : PortMap) :
    (node.staged arriving).bare = node.bare.staged arriving :=
  rfl

/-- Showing a signal shows it on the bare node. -/
theorem bare_showing (node : Node Circuit) (shown : Option Signal) :
    (node.showing shown).bare = node.bare.showing shown := by
  cases shown <;> rfl

/-- Staging signals leaves what a chip remembers. -/
theorem remembered_staged (node : Node Circuit) (arriving : PortMap) :
    (node.staged arriving).remembered = node.remembered :=
  rfl

/-- Showing a signal leaves what a chip remembers. -/
theorem remembered_showing (node : Node Circuit) (shown : Option Signal) :
    (node.showing shown).remembered = node.remembered := by
  rw [remembered, remembered, part_showing]

/-- A tick begins for the bare node as it does for the node. -/
theorem bare_beginTick (interval : Nat) (node : Node Circuit) :
    node.bare.beginTick interval =
      match node.beginTick interval with
      | .ok begun => .ok begun.bare
      | .error (fault, left) => .error (fault, left.bare) := by
  obtain ⟨label, position, part, inputs, outputs⟩ := node
  cases part with
  | clock oscillator =>
    rw [bare_of_not_chip (by simp)]
    simp only [beginTick]
    cases oscillator.advance interval <;> rfl
  | _ => rfl

/-- Nodes that are the same once bare drive the same. -/
theorem outputs_of_bare_eq (same : node.bare = other.bare) : node.outputs = other.outputs := by
  rw [← (signals_bare node).2, same, (signals_bare other).2]

end Node

namespace Chip

variable {chip other : Chip Circuit}

/-- Driving pins drives the pins of the bare circuit.

Proof: by induction on the pins. -/
theorem bare_drivePins (chip : Chip Circuit) (inputs : PortMap) (pins : List NodeId) :
    (chip.drivePins inputs pins).bare =
      (chip.inputs.zip pins).foldl (fun circuit port =>
        circuit.modifyNode port.2 (Node.driveFrom (inputs.get? port.1.id))) chip.circuit.bare := by
  rw [drivePins]
  generalize chip.inputs.zip pins = ports, chip.circuit = circuit
  induction ports generalizing circuit with
  | nil => rfl
  | cons port rest inductionHypothesis =>
    rw [List.foldl_cons, List.foldl_cons, inductionHypothesis,
      Circuit.bare_modifyNode (Node.bare_driveFrom _)]

variable (same : other.circuit.bare = chip.circuit.bare)
include same

/-- Chips around circuits that are the same once bare derive the same pins. -/
theorem computeBindings_of_bare_eq :
    (computeBindings other.circuit).inputs = (computeBindings chip.circuit).inputs ∧
      (computeBindings other.circuit).outputs = (computeBindings chip.circuit).outputs ∧
      (computeBindings other.circuit).clocked = (computeBindings chip.circuit).clocked := by
  have outlines := Circuit.outline_of_bare_eq same
  exact ⟨Circuit.inputPins_of_outline_eq outlines, Circuit.outputPins_of_outline_eq outlines,
    Circuit.containsClock_of_outline_eq outlines⟩

/-- Chips that declare the same drive the same, once bare. -/
theorem bare_driven (declared : other.inputs = chip.inputs) (inputs : PortMap) :
    (other.driven inputs).bare = (chip.driven inputs).bare := by
  rw [driven, driven, bare_drivePins, bare_drivePins, declared, (computeBindings_of_bare_eq same).1, same]

/-- A pin received the same. -/
theorem received_of_bare_eq (pin : NodeId) : received other.circuit pin = received chip.circuit pin := by
  have here := congrArg (fun circuit => (Circuit.node? circuit pin).bind fun node => node.inputs.get? "in")
    same
  simp only [Circuit.node?_bare, Option.bind_map, Function.comp_def, (Node.signals_bare _).1] at here
  rw [received, received, here]

/-- Chips that declare the same copy the same. -/
theorem copyOutputs_of_bare_eq (declared : other.outputs = chip.outputs) (pins : List NodeId)
    (outputs : PortMap) : other.copyOutputs pins outputs = chip.copyOutputs pins outputs := by
  rw [copyOutputs, copyOutputs, declared]
  congr 1
  funext ports port
  rw [received_of_bare_eq same]

end Chip

namespace Node

variable {inner : Circuit → Circuit} {initial : Bool} {node other : Node Circuit}

/-- A step takes nodes that are the same once bare to such nodes, which remember the same, if they
remembered the same before or the pass is the initial one. -/
theorem plainStep_of_bare_eq (respects : Circuit.Respects inner) (same : node.bare = other.bare)
    (agree : initial = false → node.remembered = other.remembered) :
    (node.plainStep inner initial).bare = (other.plainStep inner initial).bare ∧
      (node.plainStep inner initial).remembered = (other.plainStep inner initial).remembered := by
  rcases cases_of_bare_eq same with ⟨rfl, _⟩ | ⟨body, circuit, bindings, lastInputs, isChip, sameInner, rfl⟩
  · exact ⟨rfl, rfl⟩
  · obtain ⟨label, position, part, inputs, outputs⟩ := node
    simp only at isChip
    subst isChip
    let otherBody : Chip Circuit := { body with circuit, bindings, lastInputs }
    have sameCircuits : otherBody.circuit.bare = body.circuit.bare := sameInner
    obtain ⟨_, pins, clocked⟩ := Chip.computeBindings_of_bare_eq sameCircuits
    have settles : otherBody.settles initial inputs = body.settles initial inputs := by
      cases initial with
      | true => simp [Chip.settles]
      | false =>
        have sameInputs : body.lastInputs = lastInputs := Option.some.inj (agree rfl)
        simp only [Chip.settles, clocked]
        rw [show otherBody.lastInputs = body.lastInputs from sameInputs.symm]
        rfl
    have driven := Chip.bare_driven sameCircuits rfl inputs
    have reached : (otherBody.reached inner initial inputs).circuit.bare =
        (body.reached inner initial inputs).circuit.bare := by
      simp only [Chip.reached, Chip.around, settles]
      split
      · exact respects driven
      · exact driven
    have copied := Chip.copyOutputs_of_bare_eq reached rfl (Chip.computeBindings body.circuit).outputs
      outputs
    refine ⟨?_, rfl⟩
    simp only [plainStep, enclosing]
    rw [bare_of_chip rfl, bare_of_chip rfl]
    simp only [show Chip.computeBindings circuit = Chip.computeBindings otherBody.circuit from rfl, pins]
    rw [show ({ body with circuit, bindings, lastInputs } : Chip Circuit) = otherBody from rfl, copied,
      reached]
    rfl

end Node

namespace Circuit

variable {left right : Circuit}

/-- Circuits that are the same once bare carry the same signals. -/
theorem sameSignals_of_bare_eq (same : left.bare = right.bare) : left.SameSignals right := by
  refine ⟨nets_of_outline_eq (outline_of_bare_eq same), fun net _ source _ => ?_⟩
  have here := congrArg (fun circuit => (Circuit.node? circuit source.node).bind fun node =>
    node.outputs.get? source.port) same
  simp only [node?_bare, Option.bind_map, Function.comp_def, (Node.signals_bare _).2] at here
  rw [Net.driven?, Net.driven?, here]

/-- Quieting a level quiets the bare level. -/
theorem bare_quieted (circuit : Circuit) : circuit.quieted.bare = circuit.bare.quieted := by
  have nodes (arena : Arena (Node Circuit)) :
      (arena.map Node.quieted).map Node.bare = (arena.map Node.bare).map Node.quieted := by
    refine Arena.ext_get? (by simp [Arena.map]) fun id => ?_
    simp only [Arena.get?_map, Option.map_map]
    exact Option.map_congr fun node _ => Node.bare_quieted node
  rw [bare_eq, bare_eq, quieted, quieted, nodes]

/-- A tick begins for the bare circuit as it does for the circuit.

Proof: by induction on the slots; a fault ends both at the same node. -/
theorem bare_beginTick (interval : Nat) (circuit : Circuit) :
    circuit.bare.beginTick interval =
      ((circuit.beginTick interval).1.bare, (circuit.beginTick interval).2) := by
  have slots (slots : List (Option (Node Circuit))) :
      beginSlots interval (slots.map (Option.map Node.bare)) =
        ((beginSlots interval slots).1.map (Option.map Node.bare), (beginSlots interval slots).2) := by
    induction slots with
    | nil => rfl
    | cons slot rest inductionHypothesis =>
      cases slot with
      | none => simp only [List.map_cons, Option.map_none, beginSlots, inductionHypothesis]
      | some node =>
        simp only [List.map_cons, Option.map_some, beginSlots, Node.bare_beginTick]
        cases node.beginTick interval with
        | ok begun => simp only [inductionHypothesis, List.map_cons, Option.map_some]
        | error abandoned => rfl
  rw [bare_eq circuit]
  simp only [beginTick, Arena.map, slots]
  rw [bare_eq]
  rfl

section

variable {inner : Circuit → Circuit} (respects : Respects inner)
include respects

/-- A pass takes circuits that are the same once bare to such circuits and moves an output in both of them
or in neither. If their chips remember the same, or the pass is the initial one, they remember the same
after it. -/
theorem plainPass_of_bare_eq (initial : Bool) (same : left.bare = right.bare)
    (agree : initial = false → ∀ id,
      (left.node? id).map Node.remembered = (right.node? id).map Node.remembered) :
    (left.plainPass (Node.plainStep inner initial)).bare =
        (right.plainPass (Node.plainStep inner initial)).bare ∧
      (∀ id, ((left.plainPass (Node.plainStep inner initial)).node? id).map Node.remembered =
        ((right.plainPass (Node.plainStep inner initial)).node? id).map Node.remembered) ∧
      left.passMoves (Node.plainStep inner initial) = right.passMoves (Node.plainStep inner initial) := by
  have signals := sameSignals_of_bare_eq same
  obtain ⟨wires, _, size⟩ := frame_of_viewed_eq same
  have stepped (id : NodeId) (node : Node Circuit) (found : left.node? id = some node) :
      ∃ other, right.node? id = some other ∧ node.outputs = other.outputs ∧
        ((node.staged (left.arriving id)).plainStep inner initial).bare =
          ((other.staged (left.arriving id)).plainStep inner initial).bare ∧
        ((node.staged (left.arriving id)).plainStep inner initial).remembered =
          ((other.staged (left.arriving id)).plainStep inner initial).remembered := by
    obtain ⟨other, foundOther, alike⟩ := counterpart_of_bare_eq same found
    refine ⟨other, foundOther, Node.outputs_of_bare_eq alike,
      Node.plainStep_of_bare_eq respects ?_ fun later => ?_⟩
    · rw [Node.bare_staged, alike, Node.bare_staged]
    · have here := agree later id
      rw [found, foundOther, Option.map_some, Option.map_some] at here
      rw [Node.remembered_staged, Node.remembered_staged, Option.some.inj here]
  have missing (id : NodeId) (found : left.node? id = none) : right.node? id = none := by
    have here := node?_of_viewed_eq same id
    rw [found] at here
    exact Option.map_eq_none_iff.mp here.symm
  refine ⟨bare_congr ?_ (fun id => ?_) wires, fun id => ?_, ?_⟩
  · simpa [plainPass] using size
  · rw [node?_plainPass, node?_plainPass, ← signals.arriving, ← signals.jointSignal?]
    cases found : left.node? id with
    | none => rw [missing id found]
    | some node =>
      obtain ⟨other, foundOther, _, alike, _⟩ := stepped id node found
      rw [foundOther]
      simp only [Option.map_some, Node.bare_showing, alike]
  · rw [node?_plainPass, node?_plainPass, ← signals.arriving, ← signals.jointSignal?]
    cases found : left.node? id with
    | none => rw [missing id found]
    | some node =>
      obtain ⟨other, foundOther, _, _, remembered⟩ := stepped id node found
      rw [foundOther]
      simp only [Option.map_some, Node.remembered_showing, remembered]
  · rw [Bool.eq_iff_iff, passMoves_iff, passMoves_iff]
    constructor
    · rintro ⟨id, node, found, moved⟩
      obtain ⟨other, foundOther, outputs, alike, _⟩ := stepped id node found
      refine ⟨id, other, foundOther, ?_⟩
      rwa [← signals.arriving, ← outputs, ← Node.outputs_of_bare_eq alike]
    · rintro ⟨id, other, foundOther, moved⟩
      cases found : left.node? id with
      | none =>
        rw [missing id found] at foundOther
        cases foundOther
      | some node =>
        obtain ⟨counterpart, isCounterpart, outputs, alike, _⟩ := stepped id node found
        obtain rfl : counterpart = other := Option.some.inj (isCounterpart.symm.trans foundOther)
        refine ⟨id, node, found, ?_⟩
        rwa [← signals.arriving, ← outputs, ← Node.outputs_of_bare_eq alike] at moved

/-- Passes take circuits that are the same once bare to such circuits. After the initial pass their chips
remember the same.

Proof: by induction on the passes. -/
theorem afterPasses_of_bare_eq (same : left.bare = right.bare) (passes : Nat) :
    (left.afterPasses (Node.plainStep inner) passes).bare =
        (right.afterPasses (Node.plainStep inner) passes).bare ∧
      ((passes == 0) = false → ∀ id,
        ((left.afterPasses (Node.plainStep inner) passes).node? id).map Node.remembered =
          ((right.afterPasses (Node.plainStep inner) passes).node? id).map Node.remembered) := by
  induction passes with
  | zero => exact ⟨same, fun later => by cases later⟩
  | succ passes inductionHypothesis =>
    obtain ⟨alike, agree⟩ := inductionHypothesis
    obtain ⟨bare, remembered, _⟩ := plainPass_of_bare_eq respects (passes == 0) alike agree
    exact ⟨bare, fun _ => remembered⟩

/-- Levels that are the same once bare report the same and are settled to such levels. -/
theorem plainSettle_of_bare_eq (same : left.bare = right.bare) (maxPasses : Nat) :
    left.plainReport (Node.plainStep inner) maxPasses = right.plainReport (Node.plainStep inner) maxPasses ∧
      (left.plainSettle (Node.plainStep inner) maxPasses).bare =
        (right.plainSettle (Node.plainStep inner) maxPasses).bare := by
  have moves : left.moves (Node.plainStep inner) = right.moves (Node.plainStep inner) := by
    funext passes
    obtain ⟨alike, agree⟩ := afterPasses_of_bare_eq respects same passes
    exact (plainPass_of_bare_eq respects (passes == 0) alike agree).2.2
  have reports : left.plainReport (Node.plainStep inner) maxPasses =
      right.plainReport (Node.plainStep inner) maxPasses := by
    rw [plainReport, plainReport, moves]
  refine ⟨reports, ?_⟩
  rw [plainSettle, plainSettle, reports]
  exact (afterPasses_of_bare_eq respects same _).1

end

/-- What is settled inside chips is the same once bare, however deep.

Proof: by induction on the levels left. -/
theorem respects_plainWithin (maxPasses levels : Nat) : Respects (plainWithin maxPasses levels) := by
  induction levels with
  | zero => exact fun same => same
  | succ levels inductionHypothesis =>
    intro left right same
    have quieted : left.quieted.bare = right.quieted.bare := by
      rw [bare_quieted, same, bare_quieted]
    exact (plainSettle_of_bare_eq inductionHypothesis quieted maxPasses).2

/-- An evaluation cannot tell circuits apart that are the same once bare. Each of them agrees with a table
of its own, and so do the netlists that are kept for it; then the evaluations end alike, with the same
report or the same fault, and the circuits that they reach are the same once bare. -/
theorem evaluate_of_bare_eq (same : left.bare = right.bare) {leftTable rightTable : Revision → List Net}
    {leftCache rightCache : NetlistCache} (leftFaithful : left.Faithful leftTable)
    (leftKnows : leftCache.Knows leftTable) (rightFaithful : right.Faithful rightTable)
    (rightKnows : rightCache.Knows rightTable) (limits : Limits) :
    (left.evaluate limits .top leftCache).2.2 = (right.evaluate limits .top rightCache).2.2 ∧
      (left.evaluate limits .top leftCache).1.bare = (right.evaluate limits .top rightCache).1.bare := by
  have begins := (bare_beginTick limits.interval left).symm.trans
    ((congrArg (beginTick · limits.interval) same).trans (bare_beginTick limits.interval right))
  obtain ⟨sameBegun, sameFault⟩ := Prod.mk.inj begins
  cases leftFaults : (left.beginTick limits.interval).2 with
  | some fault =>
    rw [leftFaults] at sameFault
    rw [evaluate_of_fault leftCache leftFaults, evaluate_of_fault rightCache sameFault.symm]
    exact ⟨rfl, sameBegun⟩
  | none =>
    rw [leftFaults] at sameFault
    obtain ⟨_, leftEvaluated, _⟩ := evaluate_top leftFaithful leftKnows leftFaults
    obtain ⟨_, rightEvaluated, _⟩ := evaluate_top rightFaithful rightKnows sameFault.symm
    obtain ⟨reports, settled⟩ := plainSettle_of_bare_eq
      (respects_plainWithin limits.maxPasses limits.maxDepth) sameBegun limits.maxPasses
    rw [leftEvaluated, rightEvaluated]
    exact ⟨congrArg Except.ok reports, settled⟩

end Circuit

end Breadboard
