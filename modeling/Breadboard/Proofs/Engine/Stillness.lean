import Breadboard.Proofs.Engine.Steadiness

/-!
# Settled levels stand still

A level stands still if nothing would come out differently: staging what arrives and showing what joints
are to show rebuilds every node from what is left of it when it is quieted, and no node is changed by
another step, in whatever pass. A level at a standstill that is settled again is quiet from the first
pass on and ends as it began. Passes that end with a quiet one leave a level at a standstill, if the
circuits that were settled inside its chips do not change when they are settled again.
-/

namespace Breadboard

namespace Settling

/-- If no pass changes an output, two passes are made, or as many as are allowed if these are fewer. -/
theorem ofMoves_of_quiet {moves : Nat → Bool} (quiet : ∀ pass, moves pass = false) (maxPasses : Nat) :
    ofMoves moves maxPasses = ⟨false, min 2 maxPasses, false, false⟩ := by
  rcases maxPasses with _ | _ | left
  · rfl
  · simp [ofMoves, follow, idle, quiet]
  · simp [ofMoves, follow, idle, quiet]

end Settling

namespace Node

/-- Quieting a node clears its inputs and may change its outputs. -/
theorem quieted_eq (node : Node Circuit) :
    node.quieted = { node with inputs := .empty, outputs := node.quieted.outputs } := by
  obtain ⟨label, position, part, inputs, outputs⟩ := node
  cases part <;> rfl

/-- A node that is quiet already is not changed when it is quieted. -/
@[simp] theorem quieted_quieted (node : Node Circuit) : node.quieted.quieted = node.quieted := by
  obtain ⟨label, position, part, inputs, outputs⟩ := node
  cases part with
  | clock oscillator => simp [quieted]
  | _ => rfl

/-- What is staged has no say in what a quieted node drives. -/
theorem outputs_quieted_staged (node : Node Circuit) (arriving : PortMap) :
    (node.staged arriving).quieted.outputs = node.quieted.outputs := by
  obtain ⟨label, position, part, inputs, outputs⟩ := node
  cases part <;> rfl

/-- Quieting a node leaves it the joint that it is or is not. -/
@[simp] theorem isJoint_quieted (node : Node Circuit) : node.quieted.isJoint = node.isJoint := by
  obtain ⟨label, position, part, inputs, outputs⟩ := node
  cases part <;> rfl

/-- What is left of a node when it is quieted rebuilds the node, if staging and showing restore its
inputs and outputs. -/
theorem rebuilt_of_outputs {node : Node Circuit} {arriving : PortMap} {shown : Option Signal}
    (inputs : node.inputs = arriving) (outputs : (node.quieted.showing shown).outputs = node.outputs) :
    (node.quieted.staged arriving).showing shown = node := by
  obtain ⟨label, position, part, staged, driven⟩ := node
  subst inputs
  simp only at outputs
  rw [quieted_eq] at outputs ⊢
  cases shown with
  | none => exact congrArg (fun ports => (⟨label, position, part, staged, ports⟩ : Node Circuit)) outputs
  | some signal =>
    exact congrArg (fun ports => (⟨label, position, part, staged, ports⟩ : Node Circuit)) outputs

end Node

namespace Circuit

variable {inner : Circuit → Circuit} {circuit : Circuit}

/-- Staging and showing rebuild every node of the level from what is left of it when it is quieted, and
no step changes it. -/
structure Still (inner : Circuit → Circuit) (circuit : Circuit) : Prop where
  rebuilt : ∀ id node, circuit.node? id = some node →
    (node.quieted.staged (circuit.arriving id)).showing (circuit.jointSignal? id) = node
  stepped : ∀ id node, circuit.node? id = some node → ∀ initial, node.boundStep inner initial = node

/-- A handle names in the quieted level what it named, quieted. -/
theorem node?_quieted (circuit : Circuit) (id : NodeId) :
    circuit.quieted.node? id = (circuit.node? id).map Node.quieted :=
  Arena.get?_map ..

/-- A level that is quiet already is not changed when it is quieted. -/
@[simp] theorem quieted_quieted (circuit : Circuit) : circuit.quieted.quieted = circuit.quieted := by
  refine ext_node? (by simp [quieted, Arena.map]) (fun id => ?_) rfl rfl
  rw [node?_quieted, node?_quieted, Option.map_map]
  exact Option.map_congr fun node _ => Node.quieted_quieted node

/-- Quieting a level leaves its nets. -/
theorem nets_quieted (circuit : Circuit) :
    (Netlist.build circuit.quieted).nets = (Netlist.build circuit).nets :=
  nets_of_blueprint_eq ((invariant_tabled fun _ => []).related_quieted circuit).blueprint_eq

namespace Still

variable (still : circuit.Still inner)
include still

/-- A node of a level at a standstill holds staged what arrives at it. -/
theorem staged {id : NodeId} {node : Node Circuit} (found : circuit.node? id = some node) :
    node.staged (circuit.arriving id) = node := by
  have rebuilt := still.rebuilt id node found
  have inputs := congrArg Node.inputs rebuilt
  rw [Node.inputs_showing, Node.staged_inputs] at inputs
  rw [inputs]
  rfl

/-- A joint of a level at a standstill shows what it is to show. -/
theorem shown {id : NodeId} {node : Node Circuit} (found : circuit.node? id = some node) :
    node.showing (circuit.jointSignal? id) = node := by
  rw [← still.rebuilt id node found, Node.showing_showing]

/-- Quieting a node of a level at a standstill leaves its outputs, if it is no joint. -/
theorem outputs_quieted {id : NodeId} {node : Node Circuit} (found : circuit.node? id = some node)
    (plain : node.isJoint = false) : node.quieted.outputs = node.outputs := by
  have rebuilt := still.rebuilt id node found
  rw [jointSignal?_of_not_isJoint found plain, Node.showing_none] at rebuilt
  have outputs := congrArg Node.outputs rebuilt
  rwa [Node.staged_outputs] at outputs

/-- Quieting a level at a standstill leaves the signals of its nets. -/
theorem sameSignals : circuit.quieted.SameSignals circuit := by
  refine ⟨nets_quieted circuit, fun net member source isSource => ?_⟩
  obtain ⟨node, found, plain⟩ := not_isJoint_of_mem_sources (nets_quieted circuit ▸ member) isSource
  rw [Net.driven?, Net.driven?, node?_quieted, found, Option.map_some, Option.bind_some,
    Option.bind_some, still.outputs_quieted found plain]

/-- In a pass a quieted node of a level at a standstill is stepped to what is left of it but for what
it is to show. -/
theorem step_quieted {id : NodeId} {node : Node Circuit} (found : circuit.node? id = some node)
    (initial : Bool) :
    (node.quieted.staged (circuit.arriving id)).boundStep inner initial =
      node.quieted.staged (circuit.arriving id) := by
  cases joint : node.isJoint with
  | true => exact Node.boundStep_of_isJoint inner initial (by simpa using joint)
  | false =>
    have rebuilt := still.rebuilt id node found
    rw [jointSignal?_of_not_isJoint found joint, Node.showing_none] at rebuilt
    rw [rebuilt]
    exact still.stepped id node found initial

/-- The first pass over the quieted level rebuilds it. -/
theorem plainPass_quieted (initial : Bool) :
    circuit.quieted.plainPass (Node.boundStep inner initial) = circuit := by
  have frame := sameFrame_plainPass (Node.boundStep inner initial) circuit.quieted
  refine ext_node? (frame.size.trans (by simp [quieted, Arena.map])) (fun id => ?_) frame.wires
    frame.revision
  rw [node?_plainPass, node?_quieted, still.sameSignals.arriving, still.sameSignals.jointSignal?,
    Option.map_map]
  cases found : circuit.node? id with
  | none => rfl
  | some node =>
    simp only [Option.map_some, Function.comp_apply, still.step_quieted found,
      still.rebuilt id node found]

/-- The first pass over the quieted level changes no output. -/
theorem passMoves_quieted (initial : Bool) :
    circuit.quieted.passMoves (Node.boundStep inner initial) = false := by
  rw [Bool.eq_false_iff, Ne, passMoves_iff]
  rintro ⟨id, quieted, found, differs⟩
  rw [node?_quieted] at found
  obtain ⟨node, here, rfl⟩ := Option.map_eq_some_iff.mp found
  rw [still.sameSignals.arriving, still.step_quieted here, Node.staged_outputs,
    PortMap.differsFrom_self] at differs
  cases differs

/-- A further pass leaves the level as it is. -/
theorem plainPass (initial : Bool) : circuit.plainPass (Node.boundStep inner initial) = circuit := by
  have frame := sameFrame_plainPass (Node.boundStep inner initial) circuit
  refine ext_node? frame.size (fun id => ?_) frame.wires frame.revision
  rw [node?_plainPass]
  cases found : circuit.node? id with
  | none => rfl
  | some node =>
    rw [Option.map_some, still.staged found, still.stepped id node found, still.shown found]

/-- A further pass changes no output. -/
theorem passMoves (initial : Bool) : circuit.passMoves (Node.boundStep inner initial) = false := by
  rw [Bool.eq_false_iff, Ne, passMoves_iff]
  rintro ⟨id, node, found, differs⟩
  rw [still.staged found, still.stepped id node found, PortMap.differsFrom_self] at differs
  cases differs

/-- All passes over the quieted level leave the level, whichever of them settle every chip.

Proof: by induction on the passes. -/
theorem afterPasses (every : Bool → Bool) (passes : Nat) :
    circuit.quieted.afterPasses (fun initial => Node.boundStep inner (every initial)) (passes + 1) =
      circuit := by
  induction passes with
  | zero => exact still.plainPass_quieted (every true)
  | succ passes inductionHypothesis =>
    rw [Circuit.afterPasses, inductionHypothesis]
    exact still.plainPass _

/-- No pass over the quieted level changes an output. -/
theorem moves (every : Bool → Bool) (pass : Nat) :
    circuit.quieted.moves (fun initial => Node.boundStep inner (every initial)) pass = false := by
  cases pass with
  | zero => exact still.passMoves_quieted (every true)
  | succ pass =>
    rw [Circuit.moves, still.afterPasses]
    exact still.passMoves _

/-- A level at a standstill that is settled again reports nothing but the passes that it takes to find
that nothing changes. -/
theorem plainReport (every : Bool → Bool) (maxPasses : Nat) :
    circuit.quieted.plainReport (fun initial => Node.boundStep inner (every initial)) maxPasses =
      ⟨false, min 2 maxPasses, false, false⟩ :=
  Settling.ofMoves_of_quiet (still.moves every) maxPasses

/-- A level at a standstill that is settled again ends as it began. -/
theorem plainSettle (every : Bool → Bool) {maxPasses : Nat} (somePass : 1 ≤ maxPasses) :
    circuit.quieted.plainSettle (fun initial => Node.boundStep inner (every initial)) maxPasses =
      circuit := by
  rw [Circuit.plainSettle, still.plainReport]
  have passes : min 2 maxPasses = min 2 maxPasses - 1 + 1 := by omega
  rw [show Settling.passes ⟨false, min 2 maxPasses, false, false⟩ = min 2 maxPasses - 1 + 1 from passes]
  exact still.afterPasses every _

end Still

/-- What is shown on the joints, and what the other nodes drive, is left of the level when it is
quieted and shown again. -/
def Primed (circuit : Circuit) : Prop :=
  ∀ id node, circuit.node? id = some node →
    (node.quieted.showing (circuit.jointSignal? id)).outputs =
      (node.showing (circuit.jointSignal? id)).outputs

/-- A quieted level is primed. -/
theorem primed_quieted (circuit : Circuit) : circuit.quieted.Primed := by
  intro id node found
  rw [node?_quieted] at found
  obtain ⟨original, _, rfl⟩ := Option.map_eq_some_iff.mp found
  rw [Node.quieted_quieted]

/-- A step leaves a node primed that shows nothing. -/
theorem Node.outputs_quieted_boundStep {node : Node Circuit} (plain : node.isJoint = false)
    (primed : node.quieted.outputs = node.outputs) (initial : Bool) :
    (node.boundStep inner initial).quieted.outputs = (node.boundStep inner initial).outputs := by
  obtain ⟨label, position, part, inputs, outputs⟩ := node
  cases part with
  | clock oscillator => exact primed
  | joint => cases plain
  | resize direction => cases direction <;> rfl
  | _ => rfl

section

variable (blueprints : ∀ circuit, Related Node.KeepsBlueprint circuit (inner circuit))
include blueprints

/-- A pass leaves the nets. -/
theorem nets_plainPass_bound (initial : Bool) (circuit : Circuit) :
    (Netlist.build (circuit.plainPass (Node.boundStep inner initial))).nets =
      (Netlist.build circuit).nets := by
  have invariant := invariant_tabled fun _ => []
  exact nets_of_blueprint_eq
    (invariant.plainPass (invariant.boundStep blueprints initial) circuit).blueprint_eq

/-- A pass leaves a level primed. -/
theorem Primed.plainPass (primed : circuit.Primed) (initial : Bool) :
    (circuit.plainPass (Node.boundStep inner initial)).Primed := by
  intro id node found
  obtain ⟨previous, before, isMade⟩ := origin_plainPass found
  have wasPrimed := primed id previous before
  rw [isMade] at found ⊢
  cases joint : previous.isJoint with
  | true =>
    have unwired : (circuit.plainPass (Node.boundStep inner initial)).jointSignal? id = none ↔
        circuit.jointSignal? id = none := by
      rw [jointSignal?_eq_none_iff, jointSignal?_eq_none_iff, nets_plainPass_bound blueprints]
    have part := Node.isJoint_iff.mp joint
    rw [Node.boundStep_of_isJoint inner initial (by simpa using joint)]
    cases shown : circuit.jointSignal? id with
    | none =>
      rw [unwired.mpr shown]
      rw [shown] at wasPrimed
      simpa [Node.quieted, part] using wasPrimed
    | some signal =>
      cases shownLater : (circuit.plainPass (Node.boundStep inner initial)).jointSignal? id with
      | none =>
        rw [unwired.mp shownLater] at shown
        cases shown
      | some later =>
        rw [shown] at wasPrimed
        have insertedLater := congrArg (fun ports => ports.insert "joint" later) wasPrimed
        simpa [Node.quieted, part, Node.showing, Node.setOutput] using insertedLater
  | false =>
    have plainLater : ((previous.staged (circuit.arriving id)).boundStep inner initial).isJoint =
        false := by simpa using joint
    rw [jointSignal?_of_not_isJoint before joint, Node.showing_none] at found wasPrimed ⊢
    rw [jointSignal?_of_not_isJoint found plainLater]
    refine Node.outputs_quieted_boundStep (by simpa using joint) ?_ initial
    rw [Node.outputs_quieted_staged, Node.staged_outputs]
    exact wasPrimed

/-- Passes leave a level primed. -/
theorem Primed.afterPasses (primed : circuit.Primed) (passes : Nat) :
    (circuit.afterPasses (Node.boundStep inner) passes).Primed := by
  induction passes with
  | zero => exact primed
  | succ passes inductionHypothesis => exact inductionHypothesis.plainPass blueprints _

variable (drives : ∀ circuit, Related Node.KeepsDriven circuit (inner circuit))
include drives

/-- After some passes all chips are steady, if the circuits that were settled in them reached what does
not change when it is settled again.

Proof: by induction on the passes; the initial one settles every chip. -/
theorem steady_afterPasses {past : Nat}
    (told : circuit.ToldInPasses (Node.ToldInside fun circuit => inner (inner circuit) = inner circuit)
      (Node.boundStep inner) 0 past) {passes : Nat} (made : passes < past) {id : NodeId}
    {node : Node Circuit}
    (found : (circuit.afterPasses (Node.boundStep inner) (passes + 1)).node? id = some node) :
    node.Steady inner := by
  induction passes generalizing id node with
  | zero =>
    obtain ⟨previous, before, isMade⟩ := origin_plainPass found
    intro body isChip
    rw [isMade, Node.part_showing] at isChip
    refine Node.steady_boundStep blueprints drives true (told 0 (Nat.le_refl 0) made id previous before)
      (fun notInitial => ?_) body isChip
    cases notInitial
  | succ passes inductionHypothesis =>
    rw [Circuit.afterPasses] at found
    obtain ⟨previous, before, isMade⟩ := origin_plainPass found
    intro body isChip
    rw [isMade, Node.part_showing] at isChip
    have wasSteady := inductionHypothesis (by omega) before
    exact Node.steady_boundStep blueprints drives (passes + 1 == 0)
      (told (passes + 1) (Nat.zero_le _) made id previous before) (fun _ => wasSteady.staged _) body
      isChip

/-- A level that is settled without reaching the limit stands still, if the circuits settled inside its
chips reached what does not change when it is settled again.

Proof: the last pass changes no output, so what is staged and shown in it is what would be staged and
shown after it; and what was stepped once from these inputs is not changed by another step. -/
theorem still_plainSettle {maxPasses : Nat} (somePass : 1 ≤ maxPasses) (primed : circuit.Primed)
    (uncapped : (circuit.plainReport (Node.boundStep inner) maxPasses).capped = false)
    (told : circuit.ToldInPasses (Node.ToldInside fun circuit => inner (inner circuit) = inner circuit)
      (Node.boundStep inner) 0 (circuit.plainReport (Node.boundStep inner) maxPasses).passes) :
    (circuit.plainSettle (Node.boundStep inner) maxPasses).Still inner := by
  obtain ⟨last, passes, quiet⟩ := Settling.quiet_of_uncapped somePass uncapped
  have primedAfter := primed.afterPasses blueprints (last + 1)
  have steady {id : NodeId} {node : Node Circuit}
      (found : (circuit.afterPasses (Node.boundStep inner) (last + 1)).node? id = some node) :=
    steady_afterPasses blueprints drives told (show last < _ by rw [plainReport, passes]; omega) found
  rw [Circuit.plainSettle, plainReport, passes]
  have same := sameSignals_of_quiet (Node.writes_boundStep inner (last == 0)) quiet
    (nets_plainPass_bound blueprints _ _)
  constructor
  · intro id node found
    have isPrimed := primedAfter id node found
    obtain ⟨previous, before, isMade⟩ := origin_plainPass found
    rw [isMade, Circuit.afterPasses, same.jointSignal?, Node.showing_showing] at isPrimed
    rw [isMade, Circuit.afterPasses, same.jointSignal?, same.arriving]
    exact Node.rebuilt_of_outputs (by simp) isPrimed
  · intro id node found again
    have isSteady := steady found
    obtain ⟨previous, before, isMade⟩ := origin_plainPass found
    rw [isMade] at isSteady ⊢
    cases joint : previous.isJoint with
    | true => exact Node.boundStep_of_isJoint inner again (by simpa using joint)
    | false =>
      rw [jointSignal?_of_not_isJoint before joint, Node.showing_none] at isSteady ⊢
      exact Node.boundStep_boundStep blueprints (last == 0) again isSteady

end

end Circuit

end Breadboard
