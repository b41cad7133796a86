import Breadboard.Proofs.Engine.Staging
import Breadboard.Proofs.Net.Seats

/-!
# Deliveries

A pass stages the signals of the nets one delivery after the other, each at one sink. As every sink has
one seat on one net, no delivery comes to an input that has something staged already: signals never merge
at an input. And what is staged leaves what the nodes drive, so at any moment every net has the signal
that it had before the first delivery.
-/

namespace Breadboard

/-- A signal on the way to a sink of a net. -/
structure Delivery where
  sink : Terminal
  /-- The width of the net. -/
  width : Nat
  signal : Signal

/-- The node with a delivery staged. -/
def Node.accept (node : Node Circuit) (item : Delivery) : Node Circuit :=
  node.receive item.sink.port item.width item.signal

namespace Circuit

/-- The nets of the circuit with their signals. -/
def netSignals (circuit : Circuit) : List (Net × Signal) :=
  (Netlist.build circuit).nets.map fun net => (net, net.resolve circuit)

/-- The deliveries of a pass, in their order. -/
def deliveries (circuit : Circuit) : List Delivery :=
  circuit.netSignals.flatMap fun entry =>
    entry.1.sinks.map fun sink => ⟨sink, entry.1.width, entry.2⟩

/-- The circuit with nothing staged. -/
def unstaged (circuit : Circuit) : Circuit :=
  { circuit with nodes := circuit.nodes.map fun node => { node with inputs := .empty } }

/-- The circuit after some deliveries, one after the other. -/
def delivered (circuit : Circuit) (items : List Delivery) : Circuit :=
  items.foldl (fun circuit item => circuit.modifyNode item.sink.node (·.accept item)) circuit

/-- A pass brings every sink the signal of its net and never finds an input that has one already. -/
structure DeliversOnce (circuit : Circuit) : Prop where
  /-- Staging is to deliver one by one, beginning with nothing staged. -/
  one_by_one : circuit.stage circuit.netSignals = circuit.unstaged.delivered circuit.deliveries
  /-- Whatever was delivered before, the next delivery finds its node with nothing staged at its port. -/
  unmerged : ∀ before next after, circuit.deliveries = before ++ next :: after →
    ∃ node, (circuit.unstaged.delivered before).node? next.sink.node = some node ∧
      node.inputs.get? next.sink.port = none
  /-- Whatever was delivered before, every net has the signal that it is delivered with. -/
  unmoved : ∀ before (net : Net), net.resolve (circuit.unstaged.delivered before) = net.resolve circuit
  /-- In the end every sink of a net has its signal. -/
  arrived : ∀ net ∈ (Netlist.build circuit).nets, ∀ sink ∈ net.sinks,
    ∃ node, (circuit.stage circuit.netSignals).node? sink.node = some node ∧
      node.inputs.get? sink.port = some (net.resolve circuit)
  /-- Nothing else is staged. -/
  nowhere_else : ∀ id node port signal, (circuit.stage circuit.netSignals).node? id = some node →
    node.inputs.get? port = some signal →
      ∃ net ∈ (Netlist.build circuit).nets, ⟨id, port⟩ ∈ net.sinks ∧ net.resolve circuit = signal

end Circuit

namespace Node

/-- A node that receives signals at other ports goes on to have at a port what it has.

Proof: by induction on the deliveries. -/
theorem inputs_foldl_accept {items : List Delivery} {port : String}
    (other : ∀ item ∈ items, item.sink.port ≠ port) (node : Node Circuit) :
    (items.foldl accept node).inputs.get? port = node.inputs.get? port := by
  induction items generalizing node with
  | nil => rfl
  | cons item rest inductionHypothesis =>
    rw [List.foldl_cons, inductionHypothesis fun later member => other later (List.mem_cons_of_mem _ member),
      accept, receive, PortMap.get?_insert, if_neg (other item List.mem_cons_self)]

/-- A node that receives signals drives what it drives. -/
theorem outputs_foldl_accept (items : List Delivery) (node : Node Circuit) :
    (items.foldl accept node).outputs = node.outputs := by
  induction items generalizing node with
  | nil => rfl
  | cons item rest inductionHypothesis => exact inductionHypothesis _

end Node

namespace Circuit

variable {circuit : Circuit}

/-- Deliveries make of each node what those to its ports make of it. -/
theorem node?_delivered (circuit : Circuit) (items : List Delivery) (id : NodeId) :
    (circuit.delivered items).node? id = (circuit.node? id).map fun node =>
      (items.filter (·.sink.node == id)).foldl Node.accept node :=
  node?_foldl_modifyNode (fun item : Delivery => item.sink.node) (fun item node => node.accept item)
    items circuit id

/-- With nothing staged a handle names its node, with nothing staged. -/
theorem node?_unstaged (circuit : Circuit) (id : NodeId) :
    circuit.unstaged.node? id = (circuit.node? id).map fun node => { node with inputs := .empty } :=
  Arena.get?_map ..

/-- The deliveries go to the sinks of the nets. -/
theorem sinks_deliveries (circuit : Circuit) :
    circuit.deliveries.map Delivery.sink = (Netlist.build circuit).nets.flatMap Net.sinks := by
  simp only [deliveries, netSignals, List.flatMap_map, List.map_flatMap, List.map_map,
    Function.comp_def, List.map_id']

/-- What is staged leaves the signals at driving ports. -/
theorem driven?_delivered (circuit : Circuit) (items : List Delivery) (source : Terminal) :
    Net.driven? (circuit.unstaged.delivered items) source = Net.driven? circuit source := by
  rw [Net.driven?, Net.driven?, node?_delivered, node?_unstaged]
  cases circuit.node? source.node with
  | none => rfl
  | some node => simp only [Option.map_some, Option.bind_some, Node.outputs_foldl_accept]

/-- A delivery finds its node with nothing staged at its port.

Proof: the sinks of the nets do not repeat, so none of the earlier deliveries went to this port. -/
theorem exists_unstaged_sink {before after : List Delivery} {next : Delivery}
    (parts : circuit.deliveries = before ++ next :: after) :
    ∃ node, (circuit.unstaged.delivered before).node? next.sink.node = some node ∧
      node.inputs.get? next.sink.port = none := by
  have distinct := circuit.nodup_sinks
  rw [← sinks_deliveries, parts, List.map_append, List.map_cons] at distinct
  have isNew : next.sink ∉ before.map Delivery.sink := fun member =>
    (List.nodup_append'.mp distinct).2.2 member List.mem_cons_self
  have onNet : next.sink ∈ (Netlist.build circuit).nets.flatMap Net.sinks := by
    rw [← sinks_deliveries, parts, List.map_append, List.map_cons]
    exact List.mem_append_right _ List.mem_cons_self
  obtain ⟨net, onList, isSink⟩ := List.mem_flatMap.mp onNet
  obtain ⟨node, found, _⟩ := not_isJoint_of_mem_sinks onList isSink
  refine ⟨_, by rw [node?_delivered, node?_unstaged, found]; rfl, ?_⟩
  rw [Node.inputs_foldl_accept]
  · exact PortMap.get?_empty _
  · intro item member samePort
    obtain ⟨earlier, sameNode⟩ := List.mem_filter.mp member
    have sameSink : item.sink = next.sink := by
      obtain ⟨⟨itemNode, itemPort⟩, _, _⟩ := item
      obtain ⟨⟨nextNode, nextPort⟩, _, _⟩ := next
      simp only [beq_iff_eq, Terminal.mk.injEq] at sameNode samePort ⊢
      exact ⟨sameNode, samePort⟩
    exact isNew (sameSink ▸ List.mem_map_of_mem earlier)

/-- A pass delivers to every sink once. -/
theorem deliversOnce (circuit : Circuit) : circuit.DeliversOnce where
  one_by_one := by
    rw [delivered, deliveries, List.foldl_flatMap]
    simp only [List.foldl_map]
    rfl
  unmerged _ _ _ := exists_unstaged_sink
  unmoved before net := by
    have driven := List.filterMap_congr fun source (_ : source ∈ net.sources) =>
      driven?_delivered circuit before source
    rw [Net.resolve, Net.resolve, driven]
  arrived net onList sink isSink := by
    obtain ⟨node, found, _⟩ := not_isJoint_of_mem_sinks onList isSink
    refine ⟨_, by rw [netSignals, circuit.stage_exact.2, found]; rfl, ?_⟩
    exact get?_arriving.mpr ⟨net, onList, isSink, rfl⟩
  nowhere_else id node port signal found staged := by
    rw [netSignals, circuit.stage_exact.2, Option.map_eq_some_iff] at found
    obtain ⟨original, _, rfl⟩ := found
    exact get?_arriving.mp staged

/-- Every terminal sits on exactly one net, in exactly the lists of its role, and nothing else is listed;
nets are numbered by their places, have a terminal and are as wide as the widest of theirs. So a pass
brings every sink the signal of its one net, and no two signals ever merge at an input. -/
theorem terminals_sit_once (circuit : Circuit) :
    (Netlist.build circuit).SeatsTerminals circuit ∧ circuit.DeliversOnce :=
  ⟨seatsTerminals_build circuit, deliversOnce circuit⟩

end Circuit

end Breadboard
