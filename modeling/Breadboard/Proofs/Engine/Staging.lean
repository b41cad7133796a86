import Breadboard.Engine.Settle
import Breadboard.Proofs.Circuit.Nodes
import Breadboard.Proofs.Net.Roles

/-!
# What a pass brings to the nodes

A pass stages the signal of every net at its sinks and shows it on its joints, one net after the
other. No terminal is a sink of two nets and no joint lies on two, so the order in which nets, sinks
and joints are visited does not matter, signals of two nets never merge, and the outcome is told node by
node: every node receives what arrives at its ports, and every joint shows the signal of its net.
-/

namespace Breadboard

namespace PortMap

/-- A further entry is written over the map of the entries before. -/
theorem ofList_concat (entries : List (String × Signal)) (last : String × Signal) :
    ofList (entries ++ [last]) = (ofList entries).insert last.1 last.2 := by
  rw [ofList, List.foldl_append]
  rfl

/-- A list with distinct names becomes the map of exactly its entries. -/
theorem get?_ofList {entries : List (String × Signal)} (distinct : (entries.map Prod.fst).Nodup)
    {name : String} {signal : Signal} :
    (ofList entries).get? name = some signal ↔ (name, signal) ∈ entries := by
  induction entries using List.reverseRecOn with
  | nil => simp [ofList]
  | append_singleton entries last inductionHypothesis =>
    rw [List.map_append, List.map_singleton] at distinct
    obtain ⟨before, _, apart⟩ := List.nodup_append'.mp distinct
    have new : last.1 ∉ entries.map Prod.fst := fun member => apart member (by simp)
    rw [ofList_concat, get?_insert, List.mem_append, List.mem_singleton]
    split
    · next same =>
      subst same
      constructor
      · intro found
        exact .inr (Prod.ext rfl (Option.some.inj found).symm)
      · rintro (member | same)
        · exact absurd (List.mem_map_of_mem (f := Prod.fst) member) new
        · rw [← same]
    · next different =>
      constructor
      · exact fun found => .inl ((inductionHypothesis before).mp found)
      · rintro (member | same)
        · exact (inductionHypothesis before).mpr member
        · exact absurd (congrArg Prod.fst same).symm different

end PortMap

namespace Circuit

/-- The same wires, the same revision and equally many slots. -/
structure SameFrame (left right : Circuit) : Prop where
  wires : left.wires = right.wires
  revision : left.revision = right.revision
  size : left.nodes.slots.length = right.nodes.slots.length

/-- Changing nodes one after the other keeps the frame. -/
theorem sameFrame_foldl {α : Type} (place : α → NodeId)
    (change : α → Node Circuit → Node Circuit) (items : List α) (circuit : Circuit) :
    (items.foldl (fun circuit item => circuit.modifyNode (place item) (change item)) circuit).SameFrame
      circuit := by
  induction items generalizing circuit with
  | nil => exact ⟨rfl, rfl, rfl⟩
  | cons item rest inductionHypothesis =>
    obtain ⟨wires, revision, size⟩ := inductionHypothesis (circuit.modifyNode (place item) (change item))
    refine ⟨wires, revision, size.trans ?_⟩
    simp [modifyNode, Arena.modify]

/-- Changing nodes one after the other makes of each node what the changes for its handle make of it,
in their order. -/
theorem node?_foldl_modifyNode {α : Type} (place : α → NodeId)
    (change : α → Node Circuit → Node Circuit) (items : List α) (circuit : Circuit) (id : NodeId) :
    (items.foldl (fun circuit item => circuit.modifyNode (place item) (change item)) circuit).node? id =
      (circuit.node? id).map fun node =>
        (items.filter (place · == id)).foldl (fun node item => change item node) node := by
  induction items generalizing circuit with
  | nil => simp
  | cons item rest inductionHypothesis =>
    rw [List.foldl_cons, inductionHypothesis, node?_modifyNode]
    by_cases here : place item = id
    · rw [if_pos here, List.filter_cons_of_pos (by simpa using here), Option.map_map]
      rfl
    · rw [if_neg here, List.filter_cons_of_neg (by simpa using here)]

/-- The signals that arrive at the sinks of the nets. -/
def arrivals (circuit : Circuit) : List (Terminal × Signal) :=
  (Netlist.build circuit).nets.flatMap fun net =>
    net.sinks.map fun sink => (sink, net.resolve circuit)

/-- The signals that arrive at the ports of a node. -/
def arriving (circuit : Circuit) (id : NodeId) : PortMap :=
  .ofList ((circuit.arrivals.filter (·.1.node == id)).map fun arrival =>
    (arrival.1.port, arrival.2))

/-- The signals of the nets that joints lie on. -/
def jointSignals (circuit : Circuit) : List (NodeId × Signal) :=
  (Netlist.build circuit).nets.flatMap fun net =>
    net.joints.map fun joint => (joint, net.resolve circuit)

/-- The signal of the net that a joint lies on. -/
def jointSignal? (circuit : Circuit) (id : NodeId) : Option Signal :=
  (circuit.jointSignals.find? (·.1 == id)).map Prod.snd

variable {circuit : Circuit}

/-- Signals arrive at distinct terminals. -/
theorem nodup_arrivals (circuit : Circuit) : (circuit.arrivals.map Prod.fst).Nodup := by
  have sinks : circuit.arrivals.map Prod.fst = (Netlist.build circuit).nets.flatMap Net.sinks := by
    simp only [arrivals, List.map_flatMap, List.map_map, Function.comp_def, List.map_id']
  rw [sinks]
  exact nodup_sinks circuit

/-- Nets show their signals on distinct joints. -/
theorem nodup_jointSignals (circuit : Circuit) : (circuit.jointSignals.map Prod.fst).Nodup := by
  have joints : circuit.jointSignals.map Prod.fst =
      (Netlist.build circuit).nets.flatMap Net.joints := by
    simp only [jointSignals, List.map_flatMap, List.map_map, Function.comp_def, List.map_id']
  rw [joints]
  exact nodup_joints circuit

/-- The ports of one node among distinct terminals are distinct. -/
theorem nodup_ports {α : Type} {items : List (Terminal × α)} (distinct : (items.map Prod.fst).Nodup)
    (id : NodeId) : ((items.filter (·.1.node == id)).map fun item => item.1.port).Nodup := by
  have kept : ((items.filter (·.1.node == id)).map Prod.fst).Nodup :=
    distinct.sublist (List.filter_sublist.map _)
  have ports : ((items.filter (·.1.node == id)).map Prod.fst).map Terminal.port =
      (items.filter (·.1.node == id)).map fun item => item.1.port := List.map_map ..
  rw [← ports]
  refine kept.map_on fun s memberS t memberT same => ?_
  have atNode {terminal : Terminal}
      (member : terminal ∈ (items.filter (·.1.node == id)).map Prod.fst) : terminal.node = id := by
    obtain ⟨item, chosen, rfl⟩ := List.mem_map.mp member
    simpa using (List.mem_filter.mp chosen).2
  cases s
  cases t
  simp only [Terminal.mk.injEq]
  exact ⟨(atNode memberS).trans (atNode memberT).symm, same⟩

/-- A signal arrives at a port exactly if the port is a sink of a net that carries it. -/
theorem get?_arriving {id : NodeId} {port : String} {signal : Signal} :
    (circuit.arriving id).get? port = some signal ↔
      ∃ net ∈ (Netlist.build circuit).nets, ⟨id, port⟩ ∈ net.sinks ∧ net.resolve circuit = signal := by
  rw [arriving, PortMap.get?_ofList]
  · simp only [arrivals, List.mem_map, List.mem_filter, List.mem_flatMap, beq_iff_eq, Prod.mk.injEq]
    constructor
    · rintro ⟨_, ⟨⟨net, member, sink, isSink, rfl⟩, atNode⟩, rfl, rfl⟩
      exact ⟨net, member, by rwa [← atNode], rfl⟩
    · rintro ⟨net, member, isSink, rfl⟩
      exact ⟨_, ⟨⟨net, member, _, isSink, rfl⟩, rfl⟩, rfl, rfl⟩
  · rw [List.map_map]
    exact nodup_ports circuit.nodup_arrivals id

/-- A joint is on a net that carries a signal exactly if this is the signal it is to show. -/
theorem jointSignal?_eq_some_iff {id : NodeId} {signal : Signal} :
    circuit.jointSignal? id = some signal ↔
      ∃ net ∈ (Netlist.build circuit).nets, id ∈ net.joints ∧ net.resolve circuit = signal := by
  have member : (id, signal) ∈ circuit.jointSignals ↔
      ∃ net ∈ (Netlist.build circuit).nets, id ∈ net.joints ∧ net.resolve circuit = signal := by
    simp only [jointSignals, List.mem_flatMap, List.mem_map, Prod.mk.injEq]
    grind
  rw [← member, jointSignal?, Option.map_eq_some_iff]
  constructor
  · rintro ⟨⟨joint, shown⟩, found, rfl⟩
    have same : joint = id := by simpa using List.find?_some found
    exact same ▸ List.mem_of_find?_eq_some found
  · intro listed
    have isFound : (circuit.jointSignals.find? (·.1 == id)).isSome :=
      List.find?_isSome.mpr ⟨_, listed, by simp⟩
    obtain ⟨entry, found⟩ := Option.isSome_iff_exists.mp isFound
    have sameJoint : entry.1 = id := by simpa using List.find?_some found
    have sameEntry : entry = (id, signal) :=
      List.inj_on_of_nodup_map circuit.nodup_jointSignals (List.mem_of_find?_eq_some found) listed
        sameJoint
    exact ⟨entry, found, by rw [sameEntry]⟩

end Circuit

namespace Node

/-- The node with the signals staged that arrive at it. -/
def staged (node : Node Circuit) (arriving : PortMap) : Node Circuit :=
  { node with inputs := arriving }

@[simp] theorem staged_inputs (node : Node Circuit) (arriving : PortMap) :
    (node.staged arriving).inputs = arriving :=
  rfl

@[simp] theorem staged_outputs (node : Node Circuit) (arriving : PortMap) :
    (node.staged arriving).outputs = node.outputs :=
  rfl

@[simp] theorem staged_part (node : Node Circuit) (arriving : PortMap) :
    (node.staged arriving).part = node.part :=
  rfl

@[simp] theorem isJoint_staged (node : Node Circuit) (arriving : PortMap) :
    (node.staged arriving).isJoint = node.isJoint :=
  rfl

/-- The node with the signal of its net shown, if it is a joint on one. -/
def showing (node : Node Circuit) : Option Signal → Node Circuit
  | some signal => node.setOutput "joint" signal
  | none => node

/-- Distinct ports receive one after the other what becomes the map of all of them: where nothing is
staged yet, nothing merges. -/
theorem foldl_receive (items : List (Terminal × Nat × Signal))
    (distinct : (items.map fun item => item.1.port).Nodup) (node : Node Circuit) :
    items.foldl (fun node item => node.receive item.1.port item.2.1 item.2.2)
        { node with inputs := .empty } =
      node.staged (.ofList (items.map fun item => (item.1.port, item.2.2))) := by
  induction items using List.reverseRecOn with
  | nil => rfl
  | append_singleton items last inductionHypothesis =>
    rw [List.map_append, List.map_singleton] at distinct
    obtain ⟨before, _, apart⟩ := List.nodup_append'.mp distinct
    have names : (items.map fun item => (item.1.port, item.2.2)).map Prod.fst =
        items.map fun item => item.1.port := List.map_map ..
    have nothing : (PortMap.ofList (items.map fun item => (item.1.port, item.2.2))).get? last.1.port =
        none := by
      rw [Option.eq_none_iff_forall_ne_some]
      intro signal found
      rw [PortMap.get?_ofList (names ▸ before)] at found
      have named := List.mem_map_of_mem (f := Prod.fst) found
      rw [names] at named
      exact apart named (by simp)
    rw [List.foldl_append, inductionHypothesis before, List.map_append, List.map_singleton,
      PortMap.ofList_concat]
    simp only [List.foldl_cons, List.foldl_nil, receive, staged, nothing]

end Node

namespace Circuit

/-- Staging the signals of the nets keeps the frame and stages at every node what arrives at it. -/
theorem stage_exact (circuit : Circuit) :
    (circuit.stage ((Netlist.build circuit).nets.map fun net => (net, net.resolve circuit))).SameFrame
        circuit ∧
      ∀ id, (circuit.stage
          ((Netlist.build circuit).nets.map fun net => (net, net.resolve circuit))).node? id =
        (circuit.node? id).map fun node => node.staged (circuit.arriving id) := by
  let items := (Netlist.build circuit).nets.flatMap fun net =>
    net.sinks.map fun sink => (sink, net.width, net.resolve circuit)
  let cleared := { circuit with
    nodes := circuit.nodes.map fun node => { node with inputs := .empty } }
  have flat : circuit.stage
        ((Netlist.build circuit).nets.map fun net => (net, net.resolve circuit)) =
      items.foldl (fun circuit item => circuit.modifyNode item.1.node
        (·.receive item.1.port item.2.1 item.2.2)) cleared := by
    simp only [stage, items, List.foldl_map, List.foldl_flatMap]
    rfl
  have terminals : items.map Prod.fst = circuit.arrivals.map Prod.fst := by
    simp only [items, arrivals, List.map_flatMap, List.map_map, Function.comp_def]
  have arrivals : circuit.arrivals = items.map fun item => (item.1, item.2.2) := by
    simp only [items, Circuit.arrivals, List.map_flatMap, List.map_map, Function.comp_def]
  rw [flat]
  constructor
  · obtain ⟨wires, revision, size⟩ := sameFrame_foldl (fun item => item.1.node)
      (fun item node => node.receive item.1.port item.2.1 item.2.2) items cleared
    refine ⟨wires, revision, size.trans ?_⟩
    simp [cleared, Arena.map]
  · intro id
    have clearedNode : cleared.node? id =
        (circuit.node? id).map fun node => { node with inputs := .empty } := Arena.get?_map ..
    rw [node?_foldl_modifyNode (fun item : Terminal × Nat × Signal => item.1.node)
      (fun item node => node.receive item.1.port item.2.1 item.2.2), clearedNode, Option.map_map]
    refine Option.map_congr fun node _ => ?_
    simp only [Function.comp_apply]
    rw [Node.foldl_receive _ (nodup_ports (terminals ▸ circuit.nodup_arrivals) id), arriving,
      arrivals, List.filter_map, List.map_map]
    rfl

/-- Changes for distinct handles come to at most one change for each node. -/
theorem foldl_filter_of_nodup {α : Type} {items : List (NodeId × α)}
    (distinct : (items.map Prod.fst).Nodup) (change : α → Node Circuit → Node Circuit) (id : NodeId)
    (node : Node Circuit) :
    (items.filter (·.1 == id)).foldl (fun node item => change item.2 node) node =
      match (items.find? (·.1 == id)).map Prod.snd with
      | some item => change item node
      | none => node := by
  induction items generalizing node with
  | nil => rfl
  | cons item rest inductionHypothesis =>
    obtain ⟨absent, restDistinct⟩ := List.nodup_cons.mp distinct
    by_cases here : item.1 = id
    · have none : rest.filter (·.1 == id) = [] := by
        rw [List.filter_eq_nil_iff]
        intro other member same
        refine absent (List.mem_map.mpr ⟨other, member, ?_⟩)
        rw [here]
        simpa using same
      rw [List.filter_cons_of_pos (by simpa using here), none,
        List.find?_cons_of_pos (by simpa using here)]
      rfl
    · rw [List.filter_cons_of_neg (by simpa using here), inductionHypothesis restDistinct,
        List.find?_cons_of_neg (by simpa using here)]

/-- Showing the signals of the nets keeps the frame and shows on every joint the signal of its net. -/
theorem showOnJoints_exact (circuit after : Circuit) :
    (after.showOnJoints
        ((Netlist.build circuit).nets.map fun net => (net, net.resolve circuit))).SameFrame after ∧
      ∀ id, (after.showOnJoints
          ((Netlist.build circuit).nets.map fun net => (net, net.resolve circuit))).node? id =
        (after.node? id).map fun node => node.showing (circuit.jointSignal? id) := by
  have flat : after.showOnJoints
        ((Netlist.build circuit).nets.map fun net => (net, net.resolve circuit)) =
      circuit.jointSignals.foldl (fun circuit item => circuit.modifyNode item.1
        (·.setOutput "joint" item.2)) after := by
    simp only [showOnJoints, jointSignals, List.foldl_map, List.foldl_flatMap]
  rw [flat]
  refine ⟨sameFrame_foldl Prod.fst (fun item node => node.setOutput "joint" item.2) _ after,
    fun id => ?_⟩
  rw [node?_foldl_modifyNode Prod.fst fun item node => node.setOutput "joint" item.2]
  refine Option.map_congr fun node _ => ?_
  rw [foldl_filter_of_nodup circuit.nodup_jointSignals (fun signal node =>
    node.setOutput "joint" signal), ← jointSignal?]
  cases circuit.jointSignal? id <;> rfl

end Circuit

end Breadboard
