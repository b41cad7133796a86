import Breadboard.Proofs.Engine.Determination
import Breadboard.Proofs.Engine.Signals

/-!
# Passes converge to what the basis determines

Consider two circuits with one basis, however stale the rest of them is, and let each go through passes.
A node that lies within some number of edges drives the same in both as soon as more passes than that
were made: what feeds it lies within one edge less and drove the same one pass earlier. So after as many
passes as a longest chain has nodes all outputs are what the basis determines, the next pass changes
none of them, and what is observed no longer depends on anything but the basis. A quiet pass that comes
earlier leaves the outputs as they are for good, so they are the same ones.
-/

namespace Breadboard

/-- A node that drives nothing but its port as a joint drives what it is made to show there. -/
theorem Node.outputs_showing {node : Node Circuit} {shown : Signal}
    (outputs : node.outputs = PortMap.empty.insert "joint" shown) (signal : Option Signal) :
    (node.showing signal).outputs = PortMap.empty.insert "joint" (signal.getD shown) := by
  cases signal with
  | none => rw [showing_none, Option.getD_none, outputs]
  | some signal =>
    refine PortMap.ext fun name => ?_
    change (node.outputs.insert "joint" signal).get? name = _
    rw [outputs]
    simp only [PortMap.get?_insert, Option.getD_some]
    split <;> rfl

/-- Joints with one basis that are shown the same signal, or are dark, are observed alike. -/
theorem Node.observed_showing_congr {node other : Node Circuit} (same : node.basis = other.basis)
    (joint : node.isJoint = true) {shown otherShown : Signal}
    (outputs : node.outputs = PortMap.empty.insert "joint" shown)
    (otherOutputs : other.outputs = PortMap.empty.insert "joint" otherShown) {signal : Option Signal}
    (dark : signal = none → shown = .bit false) (otherDark : signal = none → otherShown = .bit false)
    (arriving : PortMap) :
    ((node.staged arriving).showing signal).observed =
      ((other.staged arriving).showing signal).observed := by
  have sameShown : signal.getD shown = signal.getD otherShown := by
    cases signal with
    | none => rw [Option.getD_none, Option.getD_none, dark rfl, otherDark rfl]
    | some signal => rfl
  have part : node.part = .joint := isJoint_iff.mp joint
  have otherPart : other.part = .joint := isJoint_iff.mp (isJoint_congr same ▸ joint)
  have sameLabel : node.basis.label = other.basis.label := congrArg Node.label same
  have samePosition : node.basis.position = other.basis.position := congrArg Node.position same
  have stagedOutputs : (node.staged arriving).outputs = PortMap.empty.insert "joint" shown := by
    rw [staged_outputs, outputs]
  have otherStagedOutputs : (other.staged arriving).outputs =
      PortMap.empty.insert "joint" otherShown := by
    rw [staged_outputs, otherOutputs]
  refine observed_ext ?_ ?_ ?_ ?_ ?_
  · cases signal <;> exact sameLabel
  · cases signal <;> exact samePosition
  · have isJoint (node : Node Circuit) (part : node.part = .joint) : node.observed.part = .joint := by
      obtain ⟨_, _, _, _, _⟩ := node
      simp only at part
      subst part
      rfl
    rw [isJoint _ (by rw [part_showing, staged_part, part]),
      isJoint _ (by rw [part_showing, staged_part, otherPart])]
  · rw [inputs_showing, inputs_showing, staged_inputs, staged_inputs]
  · rw [outputs_showing stagedOutputs, outputs_showing otherStagedOutputs, sameShown]

namespace Circuit

variable {good : Circuit → Prop} {inner : Circuit → Circuit} {circuit left right : Circuit}
  {initial leftInitial rightInitial : Bool} {edges : Nat}

/-- The level is ready for a pass: its nodes are, and a joint drives what it shows and nothing else,
which is clear if it lies on no net. -/
structure Poised (good : Circuit → Prop) (inner : Circuit → Circuit) (initial : Bool)
    (circuit : Circuit) : Prop where
  nodes : ∀ id node, circuit.node? id = some node → node.Ready good inner initial
  joints : ∀ id node, circuit.node? id = some node → node.isJoint = true →
    ∃ shown, node.outputs = PortMap.empty.insert "joint" shown ∧
      (circuit.jointSignal? id = none → shown = .bit false)

/-- A port receives the same in two circuits with the same nets if the net that it listens to carries
the same. -/
theorem get?_arriving_congr (nets : (Netlist.build left).nets = (Netlist.build right).nets)
    {id : NodeId} {port : String}
    (carries : ∀ net ∈ (Netlist.build left).nets, ⟨id, port⟩ ∈ net.sinks →
      ∀ source ∈ net.sources, Net.driven? left source = Net.driven? right source) :
    (left.arriving id).get? port = (right.arriving id).get? port := by
  refine Option.ext fun signal => ?_
  rw [get?_arriving, get?_arriving, ← nets]
  refine exists_congr fun net => and_congr_right fun member => and_congr_right fun sink => ?_
  rw [Net.resolve, Net.resolve, List.filterMap_congr (carries net member sink)]

section

variable (determined : Determined good inner)
include determined

/-- Passes keep the basis. -/
theorem basis_afterPasses (circuit : Circuit) (passes : Nat) :
    (circuit.afterPasses (Node.plainStep inner) passes).basis = circuit.basis :=
  (related_afterPasses Node.lasting_basis (determined.lasts Node.lasting_basis) circuit
    passes).viewed_eq fun _ _ kept => kept

/-- Circuits with one basis have the same nets. -/
theorem nets_afterPasses_congr (same : left.basis = right.basis) (leftPasses rightPasses : Nat) :
    (Netlist.build (left.afterPasses (Node.plainStep inner) leftPasses)).nets =
      (Netlist.build (right.afterPasses (Node.plainStep inner) rightPasses)).nets := by
  refine nets_of_outline_eq (outline_of_basis_eq ?_)
  rw [basis_afterPasses determined, basis_afterPasses determined, same]

/-- A level that is ready for a pass is ready for the next one. -/
theorem Poised.plainPass (poised : circuit.Poised good inner initial) :
    (circuit.plainPass (Node.plainStep inner initial)).Poised good inner false := by
  have kept := determined.lasts (Node.lasting_retains fun _ => [])
  constructor
  · intro id node found
    obtain ⟨previous, before, rfl⟩ := origin_plainPass found
    have wasReady := (poised.nodes id previous before).staged (circuit.arriving id)
    by_cases joint : previous.isJoint = true
    · have part : (((previous.staged (circuit.arriving id)).plainStep inner initial).showing
          (circuit.jointSignal? id)).part = .joint :=
        Node.isJoint_iff.mp (by simpa using joint)
      constructor
      all_goals
        intro _ isPart
        rw [part] at isPart
        cases isPart
    · rw [jointSignal?_of_not_isJoint before (by simpa using joint), Node.showing_none]
      exact wasReady.plainStep determined
  · intro id node found joint
    obtain ⟨previous, before, rfl⟩ := origin_plainPass found
    have wasJoint : previous.isJoint = true := by simpa using joint
    obtain ⟨shown, outputs, dark⟩ := poised.joints id previous before wasJoint
    have stagedOutputs : (previous.staged (circuit.arriving id)).outputs =
        PortMap.empty.insert "joint" shown := by
      rw [Node.staged_outputs, outputs]
    rw [Node.plainStep_of_isJoint inner initial (by simpa using wasJoint)]
    refine ⟨_, Node.outputs_showing stagedOutputs _, fun unwired => ?_⟩
    rw [jointSignal?_eq_none_iff, nets_plainPass kept, ← jointSignal?_eq_none_iff] at unwired
    rw [unwired, Option.getD_none]
    exact dark unwired

/-- A level stays ready over any number of passes.

Proof: by induction on the passes. -/
theorem Poised.afterPasses (poised : circuit.Poised good inner true) (passes : Nat) :
    (circuit.afterPasses (Node.plainStep inner) passes).Poised good inner (passes == 0) := by
  induction passes with
  | zero => exact poised
  | succ passes inductionHypothesis =>
    have notInitial : (passes + 1 == 0) = false := by simp
    rw [Circuit.afterPasses, notInitial]
    exact inductionHypothesis.plainPass determined

section

variable (same : left.basis = right.basis) (leftPoised : left.Poised good inner true)
  (rightPoised : right.Poised good inner true)
include same leftPoised rightPoised

/-- A node after a pass drives what it drives after another pass over a circuit with the same basis, if
the sources of its inputs that another node feeds it from drove the same. -/
theorem outputs_after_pass_congr {leftPasses rightPasses : Nat} {id : NodeId}
    (fed : ∀ first, left.Feeds first id → ∀ node other,
      (left.afterPasses (Node.plainStep inner) leftPasses).node? first = some node →
      (right.afterPasses (Node.plainStep inner) rightPasses).node? first = some other →
      node.isJoint = false → node.outputs = other.outputs)
    {node other : Node Circuit}
    (found : (left.afterPasses (Node.plainStep inner) (leftPasses + 1)).node? id = some node)
    (foundOther : (right.afterPasses (Node.plainStep inner) (rightPasses + 1)).node? id = some other)
    (plain : node.isJoint = false) : node.outputs = other.outputs := by
  have nets := nets_afterPasses_congr determined same leftPasses rightPasses
  have feeds : (left.afterPasses (Node.plainStep inner) leftPasses).Feeds = left.Feeds :=
    feeds_of_outline_eq (outline_of_basis_eq (basis_afterPasses determined left leftPasses))
  have sameBasis : (left.afterPasses (Node.plainStep inner) leftPasses).basis =
      (right.afterPasses (Node.plainStep inner) rightPasses).basis := by
    rw [basis_afterPasses determined, basis_afterPasses determined, same]
  have leftReady := leftPoised.afterPasses determined leftPasses
  have rightReady := rightPoised.afterPasses determined rightPasses
  rw [afterPasses] at found foundOther
  generalize left.afterPasses (Node.plainStep inner) leftPasses = before at *
  generalize right.afterPasses (Node.plainStep inner) rightPasses = beforeOther at *
  obtain ⟨previous, here, rfl⟩ := origin_plainPass found
  obtain ⟨previousOther, hereOther, rfl⟩ := origin_plainPass foundOther
  obtain ⟨counterpart, foundCounterpart, sameNode⟩ := counterpart_of_viewed_eq sameBasis here
  rw [hereOther] at foundCounterpart
  cases foundCounterpart
  have wasPlain : previous.isJoint = false := by simpa using plain
  have otherPlain : previousOther.isJoint = false := Node.isJoint_congr sameNode ▸ wasPlain
  rw [jointSignal?_of_not_isJoint here wasPlain, jointSignal?_of_not_isJoint hereOther otherPlain,
    Node.showing_none, Node.showing_none]
  refine Node.outputs_staged_congr determined sameNode wasPlain (leftReady.nodes id previous here)
    (rightReady.nodes id previousOther hereOther) fun port declared => ?_
  refine get?_arriving_congr nets fun net member sink source isSource => ?_
  obtain ⟨sourceNode, foundSource, sourcePlain⟩ := not_isJoint_of_mem_sources member isSource
  obtain ⟨sourceOther, foundSourceOther, sameSource⟩ := counterpart_of_viewed_eq sameBasis foundSource
  rw [Net.driven?, Net.driven?, foundSource, foundSourceOther, Option.bind_some, Option.bind_some]
  by_cases isWritten : source.port ∈ sourceNode.written
  · have isFed : left.Feeds source.node id := by
      rw [← feeds]
      exact ⟨net, member, source.port, port, isSource, sink,
        ⟨sourceNode, foundSource, Node.mem_declaredOutputs_of_written isWritten⟩,
        ⟨previous, here, declared⟩⟩
    rw [fed _ isFed sourceNode sourceOther foundSource foundSourceOther sourcePlain]
  · exact PortMap.get?_of_without_eq (Node.outputs_without_congr sameSource sourcePlain) isWritten

/-- A node that lies within some number of edges drives the same after more passes than that, in both
circuits and whenever it is looked at.

Proof: by induction on the edges. What feeds the node lies within one edge less. -/
theorem outputs_within {id : NodeId} (within : left.Within edges id) {leftPasses rightPasses : Nat}
    (leftLate : edges < leftPasses) (rightLate : edges < rightPasses) {node other : Node Circuit}
    (found : (left.afterPasses (Node.plainStep inner) leftPasses).node? id = some node)
    (foundOther : (right.afterPasses (Node.plainStep inner) rightPasses).node? id = some other)
    (plain : node.isJoint = false) : node.outputs = other.outputs := by
  induction edges generalizing id leftPasses rightPasses node other with
  | zero =>
    obtain ⟨leftBefore, rfl⟩ := Nat.exists_eq_add_of_lt leftLate
    obtain ⟨rightBefore, rfl⟩ := Nat.exists_eq_add_of_lt rightLate
    refine outputs_after_pass_congr determined same leftPoised rightPoised ?_ found foundOther plain
    intro first feeds
    obtain ⟨fewer, impossible, _⟩ := within.of_feeds feeds
    exact absurd impossible (Nat.succ_ne_zero fewer).symm
  | succ edges inductionHypothesis =>
    obtain ⟨leftBefore, rfl⟩ := Nat.exists_eq_add_of_lt leftLate
    obtain ⟨rightBefore, rfl⟩ := Nat.exists_eq_add_of_lt rightLate
    refine outputs_after_pass_congr determined same leftPoised rightPoised ?_ found foundOther plain
    intro first feeds source sourceOther foundSource foundSourceOther sourcePlain
    obtain ⟨fewer, isOneLess, withinFewer⟩ := within.of_feeds feeds
    cases isOneLess
    exact inductionHypothesis withinFewer (by omega) (by omega) foundSource foundSourceOther sourcePlain

end

/-- As soon as more passes were made than a longest chain has edges, no pass changes an output. -/
theorem moves_of_longestChain (poised : circuit.Poised good inner true)
    (longest : circuit.LongestChain edges) {passes : Nat} (late : edges < passes) :
    circuit.moves (Node.plainStep inner) passes = false := by
  rw [Bool.eq_false_iff]
  intro moves
  obtain ⟨id, node, found, differs⟩ := passMoves_iff.mp moves
  by_cases joint : node.isJoint = true
  · rw [Node.plainStep_of_isJoint inner _ (by simpa using joint), Node.staged_outputs,
      PortMap.differsFrom_self] at differs
    cases differs
  · have plain : node.isJoint = false := by simpa using joint
    have after := node?_plainPass_of_not_isJoint (Node.plainStep inner (passes == 0)) found plain
    have unchanged := outputs_within determined rfl poised poised (longest.within id) late
      (Nat.lt_succ_of_lt late) found after plain
    rw [← unchanged, PortMap.differsFrom_self] at differs
    cases differs

/-- A quiet pass leaves the outputs as they are for good.

Proof: by induction on the passes after it. As the outputs are those before the quiet pass, so is what
arrives at every node. -/
theorem outputs_after_quiet (poised : circuit.Poised good inner true) {quietPass : Nat}
    (quiet : circuit.moves (Node.plainStep inner) quietPass = false) (further : Nat) {id : NodeId}
    {node other : Node Circuit}
    (found : (circuit.afterPasses (Node.plainStep inner) quietPass).node? id = some node)
    (foundLater : (circuit.afterPasses (Node.plainStep inner) (quietPass + further)).node? id =
      some other)
    (plain : node.isJoint = false) : node.outputs = other.outputs := by
  induction further generalizing id node other with
  | zero =>
    rw [Nat.add_zero, found] at foundLater
    cases foundLater
    rfl
  | succ further inductionHypothesis =>
    have after := node?_plainPass_of_not_isJoint (Node.plainStep inner (quietPass == 0)) found plain
    have unchanged := outputs_of_quiet (Node.writes_plainStep inner _) quiet found
    rw [← unchanged]
    refine outputs_after_pass_congr determined rfl poised poised ?_ after foundLater ?_
    · intro first _ source sourceOther foundSource foundSourceOther sourcePlain
      exact inductionHypothesis foundSource foundSourceOther sourcePlain
    · simpa using plain

variable (same : left.basis = right.basis)
include same

/-- Where circuits with one basis go through quiet passes, their nets carry the same signals.

Proof: the outputs before a quiet pass are those after any number of further passes, and in the long run
the outputs of both circuits are the same. -/
theorem sameSignals_before_quiet (leftPoised : left.Poised good inner true)
    (rightPoised : right.Poised good inner true) (longest : left.LongestChain edges)
    {leftQuiet rightQuiet : Nat}
    (quiet : left.moves (Node.plainStep inner) leftQuiet = false)
    (quietToo : right.moves (Node.plainStep inner) rightQuiet = false) :
    (left.afterPasses (Node.plainStep inner) leftQuiet).SameSignals
      (right.afterPasses (Node.plainStep inner) rightQuiet) := by
  refine ⟨nets_afterPasses_congr determined same leftQuiet rightQuiet, fun net member source isSource => ?_⟩
  obtain ⟨node, found, plain⟩ := not_isJoint_of_mem_sources member isSource
  have counterpart (circuit : Circuit) (passes : Nat) (sameBasis : left.basis = circuit.basis) :
      ∃ other, (circuit.afterPasses (Node.plainStep inner) passes).node? source.node = some other ∧
        node.basis = other.basis := by
    refine counterpart_of_viewed_eq ?_ found
    exact (basis_afterPasses determined left leftQuiet).trans
      (sameBasis.trans (basis_afterPasses determined circuit passes).symm)
  obtain ⟨other, foundOther, sameOther⟩ := counterpart right rightQuiet same
  obtain ⟨later, foundLater, sameLater⟩ := counterpart left (leftQuiet + (edges + 1)) rfl
  obtain ⟨otherLater, foundOtherLater, _⟩ := counterpart right (rightQuiet + (edges + 1)) same
  have leftStays := outputs_after_quiet determined leftPoised quiet (edges + 1) found foundLater plain
  have rightStays := outputs_after_quiet determined rightPoised quietToo (edges + 1) foundOther
    foundOtherLater (Node.isJoint_congr sameOther ▸ plain)
  have meet := outputs_within determined same leftPoised rightPoised (longest.within source.node)
    (by omega) (by omega) foundLater foundOtherLater (Node.isJoint_congr sameLater ▸ plain)
  rw [Net.driven?, Net.driven?, found, foundOther, Option.bind_some, Option.bind_some, leftStays, meet,
    rightStays]

/-- A pass over circuits with one basis whose nets carry the same signals makes circuits that are
observed alike. -/
theorem observed_plainPass_congr (leftPoised : left.Poised good inner leftInitial)
    (rightPoised : right.Poised good inner rightInitial) (signals : left.SameSignals right) :
    (left.plainPass (Node.plainStep inner leftInitial)).observed =
      (right.plainPass (Node.plainStep inner rightInitial)).observed := by
  obtain ⟨wires, _, size⟩ := frame_of_viewed_eq same
  have leftFrame := sameFrame_plainPass (Node.plainStep inner leftInitial) left
  have rightFrame := sameFrame_plainPass (Node.plainStep inner rightInitial) right
  refine viewed_ext (leftFrame.size.trans (size.trans rightFrame.size.symm)) (fun id => ?_)
    (leftFrame.wires.trans (wires.trans rightFrame.wires.symm)) rfl
  cases found : left.node? id with
  | none =>
    have missing : right.node? id = none := by
      have here := node?_of_viewed_eq same id
      rw [found, Option.map_none] at here
      exact Option.map_eq_none_iff.mp here.symm
    simp only [node?_plainPass, found, missing, Option.map_none]
  | some node =>
    obtain ⟨other, foundOther, sameNode⟩ := counterpart_of_viewed_eq same found
    rw [node?_plainPass, node?_plainPass, found, foundOther, ← signals.arriving, ← signals.jointSignal?]
    generalize left.arriving id = arriving
    refine congrArg some ?_
    change (((node.staged arriving).plainStep inner leftInitial).showing
        (left.jointSignal? id)).observed =
      (((other.staged arriving).plainStep inner rightInitial).showing (left.jointSignal? id)).observed
    by_cases joint : node.isJoint = true
    · have otherJoint : other.isJoint = true := Node.isJoint_congr sameNode ▸ joint
      obtain ⟨shown, outputs, dark⟩ := leftPoised.joints id node found joint
      obtain ⟨otherShown, otherOutputs, otherDark⟩ := rightPoised.joints id other foundOther otherJoint
      rw [← signals.jointSignal?] at otherDark
      rw [Node.plainStep_of_isJoint inner leftInitial (by simpa using joint),
        Node.plainStep_of_isJoint inner rightInitial (by simpa using otherJoint)]
      exact Node.observed_showing_congr sameNode joint outputs otherOutputs dark otherDark arriving
    · have plain : node.isJoint = false := by simpa using joint
      rw [jointSignal?_of_not_isJoint found plain]
      exact Node.observed_staged_congr determined sameNode plain (leftPoised.nodes id node found)
        (rightPoised.nodes id other foundOther) arriving

end

end Circuit

end Breadboard
