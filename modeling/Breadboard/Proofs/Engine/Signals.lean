import Breadboard.Proofs.Engine.Emission
import Breadboard.Proofs.Engine.Transparency

/-!
# Signals of one level in two states

What arrives at the nodes of a level and what its joints show depends on its nets and on what their
sources drive, and on nothing else. A pass that changes no output therefore leaves the signals of all
nets as they were, since joints are never sources.
-/

namespace Breadboard.Circuit

/-- The same nets, with sources that drive the same. -/
structure SameSignals (left right : Circuit) : Prop where
  nets : (Netlist.build left).nets = (Netlist.build right).nets
  driven : ∀ net ∈ (Netlist.build left).nets, ∀ source ∈ net.sources,
    Net.driven? left source = Net.driven? right source

namespace SameSignals

variable {left right : Circuit} (same : left.SameSignals right)
include same

/-- Every net carries the same signal. -/
theorem resolve {net : Net} (member : net ∈ (Netlist.build left).nets) :
    net.resolve left = net.resolve right := by
  rw [Net.resolve, Net.resolve, List.filterMap_congr (same.driven net member)]

/-- The same signals arrive at every node. -/
theorem arriving (id : NodeId) : left.arriving id = right.arriving id := by
  have arrivals : left.arrivals = right.arrivals := by
    rw [arrivals, arrivals, ← same.nets]
    refine List.flatMap_congr fun net member => ?_
    rw [same.resolve member]
  rw [Circuit.arriving, Circuit.arriving, arrivals]

/-- Every joint is to show the same signal. -/
theorem jointSignal? (id : NodeId) : left.jointSignal? id = right.jointSignal? id := by
  have joints : left.jointSignals = right.jointSignals := by
    rw [jointSignals, jointSignals, ← same.nets]
    refine List.flatMap_congr fun net member => ?_
    rw [same.resolve member]
  rw [Circuit.jointSignal?, Circuit.jointSignal?, joints]

end SameSignals

variable {inner : Circuit → Circuit} {initial : Bool} {circuit : Circuit}

/-- No joint lies on a net that shows it no signal, and a node that is no joint is shown none. -/
theorem jointSignal?_of_not_isJoint {id : NodeId} {node : Node Circuit}
    (found : circuit.node? id = some node) (plain : node.isJoint = false) :
    circuit.jointSignal? id = none := by
  rw [Option.eq_none_iff_forall_ne_some]
  intro signal shows
  obtain ⟨net, onCircuit, isOn, _⟩ := jointSignal?_eq_some_iff.mp shows
  obtain ⟨other, foundOther, joint⟩ := isJoint_of_mem_joints onCircuit isOn
  rw [found] at foundOther
  cases foundOther
  rw [plain] at joint
  cases joint

/-- A node is to show no signal exactly if it is a joint of no net. -/
theorem jointSignal?_eq_none_iff {id : NodeId} :
    circuit.jointSignal? id = none ↔ ∀ net ∈ (Netlist.build circuit).nets, id ∉ net.joints := by
  simp only [Option.eq_none_iff_forall_ne_some, Ne, jointSignal?_eq_some_iff]
  constructor
  · exact fun shows net member isOn => shows _ ⟨net, member, isOn, rfl⟩
  · rintro unwired _ ⟨net, member, isOn, _⟩
    exact unwired net member isOn

/-- Every node after a pass was stepped in it. -/
theorem origin_plainPass {step : Node Circuit → Node Circuit} {id : NodeId} {node : Node Circuit}
    (found : (circuit.plainPass step).node? id = some node) :
    ∃ previous, circuit.node? id = some previous ∧
      node = (step (previous.staged (circuit.arriving id))).showing (circuit.jointSignal? id) := by
  rw [node?_plainPass, Option.map_eq_some_iff] at found
  obtain ⟨previous, before, rfl⟩ := found
  exact ⟨previous, before, rfl⟩

/-- A node that is no joint comes out of a pass as it was stepped. -/
theorem node?_plainPass_of_not_isJoint (step : Node Circuit → Node Circuit) {id : NodeId}
    {node : Node Circuit} (found : circuit.node? id = some node) (plain : node.isJoint = false) :
    (circuit.plainPass step).node? id = some (step (node.staged (circuit.arriving id))) := by
  rw [node?_plainPass, found, Option.map_some, jointSignal?_of_not_isJoint found plain]
  rfl

section

variable {step : Node Circuit → Node Circuit} (writes : Node.Writes step)
  (quiet : circuit.passMoves step = false)
include writes quiet

/-- A step that a quiet pass makes changes no output. -/
theorem outputs_of_quiet {id : NodeId} {node : Node Circuit} (found : circuit.node? id = some node) :
    (step (node.staged (circuit.arriving id))).outputs = node.outputs := by
  have same : (step (node.staged (circuit.arriving id))).outputs.differsFrom node.outputs = false := by
    rw [Bool.eq_false_iff]
    intro moved
    rw [Bool.eq_false_iff] at quiet
    exact quiet (passMoves_iff.mpr ⟨id, node, found, moved⟩)
  obtain ⟨entries, written⟩ := writes (node.staged (circuit.arriving id))
  rw [Node.staged_outputs] at written
  rw [written] at same ⊢
  exact PortMap.writeAll_of_not_differsFrom same

/-- A quiet pass that leaves the nets leaves the signals of all nets. -/
theorem sameSignals_of_quiet
    (nets : (Netlist.build (circuit.plainPass step)).nets = (Netlist.build circuit).nets) :
    (circuit.plainPass step).SameSignals circuit := by
  refine ⟨nets, fun net member source isSource => ?_⟩
  obtain ⟨node, found, plain⟩ := not_isJoint_of_mem_sources (nets ▸ member) isSource
  rw [Net.driven?, Net.driven?, node?_plainPass_of_not_isJoint _ found plain, found,
    Option.bind_some, Option.bind_some, outputs_of_quiet writes quiet found]

end

variable (kept : ∀ circuit, Related (Node.Retains fun _ => []) circuit (inner circuit))
include kept

/-- A pass leaves the nets. -/
theorem nets_plainPass (initial : Bool) (circuit : Circuit) :
    (Netlist.build (circuit.plainPass (Node.plainStep inner initial))).nets =
      (Netlist.build circuit).nets := by
  have lasting := Node.lasting_retains fun _ => []
  exact nets_of_outline_eq (related_plainPass lasting (lasting.plainStep kept initial)
    (Node.isJoint_plainStep inner initial) circuit).outline_eq

/-- Passes leave the nets. -/
theorem nets_afterPasses (circuit : Circuit) (passes : Nat) :
    (Netlist.build (circuit.afterPasses (Node.plainStep inner) passes)).nets =
      (Netlist.build circuit).nets :=
  nets_of_outline_eq
    (related_afterPasses (Node.lasting_retains fun _ => []) kept circuit passes).outline_eq

end Breadboard.Circuit
