import Breadboard.Proofs.Net.Components
import Mathlib.Data.List.Pairwise

/-!
# The roles of terminals on their nets

Every port on the wires belongs to one class and stands in it once. So no terminal is a sink of two
nets or twice a sink of one, and the same holds of sources and of joints. Sources, sinks and joints
are told apart by the nodes that they belong to.
-/

namespace Breadboard.Circuit

variable {circuit : Circuit}

/-- No port stands twice in a class. -/
theorem nodup_classPorts_root (root : Fin circuit.wiredPorts.length) :
    (circuit.classPorts root).Nodup :=
  ((List.nodup_finRange _).filter _).map circuit.nodup_wiredPorts.injective_get

/-- A class has a port. -/
theorem exists_place_of_class {id : Nat} {root : Fin circuit.wiredPorts.length}
    (atClass : circuit.classes[id]? = some root) :
    ∃ place, circuit.partition.root place = root := by
  obtain ⟨place, _, here⟩ :=
    List.mem_map.mp (List.mem_eraseDups.mp (List.mem_of_getElem? atClass))
  exact ⟨place, here⟩

/-- No port stands twice in the classes, taken together. -/
theorem nodup_classPorts (circuit : Circuit) : (circuit.classes.flatMap circuit.classPorts).Nodup := by
  rw [List.nodup_flatMap]
  constructor
  · exact fun root _ => nodup_classPorts_root root
  · refine circuit.nodup_classes.imp fun {left right} different => ?_
    intro port inLeft inRight
    obtain ⟨i, atI, rootOfI⟩ := mem_classPorts.mp inLeft
    obtain ⟨j, atJ, rootOfJ⟩ := mem_classPorts.mp inRight
    have samePlace : i = j := circuit.nodup_wiredPorts.injective_get (atI.trans atJ.symm)
    exact different (rootOfI.symm.trans (samePlace ▸ rootOfJ))

/-- What nets list by the ports of their classes, they list for all classes in turn. -/
theorem flatMap_nets {α : Type} (list : Net → List α) (listed : List WiredPort → List α)
    (byPorts : ∀ id ports, list (Net.ofPorts id ports) = listed ports) :
    (Netlist.build circuit).nets.flatMap list =
      circuit.classes.flatMap fun root => listed (circuit.classPorts root) := by
  rw [build_nets, List.mapIdx_eq_zipIdx_map, List.flatMap_map]
  conv_rhs => rw [← List.zipIdx_map_fst 0 circuit.classes, List.flatMap_map]
  simp only [byPorts]

/-- Terminals of chosen ports of the classes do not repeat. -/
theorem nodup_chosen_terminals (choose : WiredPort → Bool) :
    (circuit.classes.flatMap fun root =>
      ((circuit.classPorts root).filter choose).map WiredPort.terminal).Nodup := by
  rw [← List.map_flatMap, ← List.filter_flatMap]
  refine (circuit.nodup_classPorts.filter choose).map_on fun left memberLeft right memberRight => ?_
  have listed {port : WiredPort}
      (member : port ∈ (circuit.classes.flatMap circuit.classPorts).filter choose) :
      port ∈ circuit.wiredPorts := by
    obtain ⟨root, _, inClass⟩ := List.mem_flatMap.mp (List.mem_filter.mp member).1
    exact mem_wiredPorts_of_classPorts inClass
  exact wiredPorts_terminal_injective (listed memberLeft) (listed memberRight)

/-- No terminal is a sink twice, of one net or of two. -/
theorem nodup_sinks (circuit : Circuit) : ((Netlist.build circuit).nets.flatMap Net.sinks).Nodup := by
  rw [flatMap_nets _ _ fun _ _ => rfl]
  simp only [List.filter_filter]
  exact nodup_chosen_terminals _

/-- No terminal is a source twice, of one net or of two. -/
theorem nodup_sources (circuit : Circuit) :
    ((Netlist.build circuit).nets.flatMap Net.sources).Nodup := by
  rw [flatMap_nets _ _ fun _ _ => rfl]
  simp only [List.filter_filter]
  exact nodup_chosen_terminals _

/-- No joint is listed twice, on one net or on two. -/
theorem nodup_joints (circuit : Circuit) :
    ((Netlist.build circuit).nets.flatMap Net.joints).Nodup := by
  rw [flatMap_nets _ _ fun _ _ => rfl, ← List.map_flatMap, ← List.filter_flatMap]
  refine (circuit.nodup_classPorts.filter _).map_on fun left memberLeft right memberRight same => ?_
  have listed {port : WiredPort} (member : port ∈
      (circuit.classes.flatMap circuit.classPorts).filter fun port => port.shape.joint) :
      port ∈ circuit.wiredPorts ∧ port.terminal = ⟨port.terminal.node, "joint"⟩ := by
    obtain ⟨inClasses, joint⟩ := List.mem_filter.mp member
    obtain ⟨root, _, inClass⟩ := List.mem_flatMap.mp inClasses
    have wired := mem_wiredPorts_of_classPorts inClass
    obtain ⟨node, found, shape, isFolded⟩ := shape_of_mem_wiredPorts wired
    rw [shape, Node.portShape_joint] at joint
    have isJoint : (circuit.node? port.terminal.node).any Node.isJoint = true := by
      rw [found]
      exact joint
    rw [folded, if_pos isJoint] at isFolded
    exact ⟨wired, isFolded.symm⟩
  obtain ⟨wiredLeft, leftTerminal⟩ := listed memberLeft
  obtain ⟨wiredRight, rightTerminal⟩ := listed memberRight
  refine wiredPorts_terminal_injective wiredLeft wiredRight ?_
  rw [leftTerminal, rightTerminal, same]

/-- The ports of a class are linked to each other and to no other port on the wires. -/
theorem mem_classPorts_iff_linked {root : Fin circuit.wiredPorts.length} {port other : WiredPort}
    (inClass : other ∈ circuit.classPorts root) :
    port ∈ circuit.classPorts root ↔
      port ∈ circuit.wiredPorts ∧ circuit.Linked other.terminal port.terminal := by
  obtain ⟨i, rfl, rootOfI⟩ := mem_classPorts.mp inClass
  constructor
  · intro member
    obtain ⟨j, rfl, rootOfJ⟩ := mem_classPorts.mp member
    exact ⟨List.get_mem .., (root_eq_iff_linked i j).mp (rootOfI.trans rootOfJ.symm)⟩
  · rintro ⟨wired, linked⟩
    obtain ⟨j, rfl⟩ := List.get_of_mem wired
    exact mem_classPorts.mpr
      ⟨j, rfl, ((root_eq_iff_linked i j).mpr linked).symm.trans rootOfI⟩

/-- A port on the wires stands in the class of a net. -/
theorem exists_net_of_mem_wiredPorts {port : WiredPort} (wired : port ∈ circuit.wiredPorts) :
    ∃ id root, Net.ofPorts id (circuit.classPorts root) ∈ (Netlist.build circuit).nets ∧
      port ∈ circuit.classPorts root := by
  obtain ⟨place, rfl⟩ := List.get_of_mem wired
  obtain ⟨id, atClass⟩ := List.mem_iff_getElem?.mp (root_mem_classes place)
  exact ⟨id, _, mem_build_nets.mpr ⟨id, _, atClass, rfl⟩, mem_classPorts.mpr ⟨place, rfl, rfl⟩⟩

/-- What a port on the wires is linked to is live. -/
theorem isLive_of_linked {port : WiredPort} (listed : port ∈ circuit.wiredPorts)
    {terminal : Terminal} (linked : circuit.Linked port.terminal (circuit.folded terminal)) :
    circuit.isLive terminal = true := by
  obtain ⟨place, rfl⟩ := List.get_of_mem listed
  obtain ⟨other, here, _⟩ := exists_place_of_linked linked
  obtain ⟨node, found, _⟩ := shape_of_mem_wiredPorts (List.get_mem circuit.wiredPorts other)
  rw [here, folded_node] at found
  rw [isLive, found, Option.isSome_some]

/-- The net of a port has the terminals that the port is linked to. -/
theorem has_iff_linked {port : WiredPort} {root : Fin circuit.wiredPorts.length}
    (inClass : port ∈ circuit.classPorts root) (id : Nat) (terminal : Terminal) :
    (Net.ofPorts id (circuit.classPorts root)).has terminal.node terminal.port = true ↔
      circuit.Linked port.terminal (circuit.folded terminal) := by
  obtain ⟨place, rfl, rfl⟩ := mem_classPorts.mp inClass
  rw [has_classPorts]
  constructor
  · rintro ⟨other, here, sameRoot⟩
    exact here ▸ (root_eq_iff_linked place other).mp sameRoot.symm
  · intro linked
    obtain ⟨other, here, sameRoot⟩ := exists_place_of_linked linked
    exact ⟨other, here, sameRoot.symm⟩

/-- The net of the port at a place. -/
def netAt (circuit : Circuit) (place : Fin circuit.wiredPorts.length) :
    Fin (Netlist.build circuit).nets.length :=
  ⟨circuit.classes.idxOf (circuit.partition.root place), by
    rw [build_nets, List.length_mapIdx]
    exact List.idxOf_lt_length_of_mem (root_mem_classes place)⟩

/-- The net of a port is that of its class. -/
theorem get_netAt (circuit : Circuit) (place : Fin circuit.wiredPorts.length) :
    (Netlist.build circuit).nets.get (circuit.netAt place) =
      Net.ofPorts (circuit.netAt place) (circuit.classPorts (circuit.partition.root place)) := by
  simp only [netAt, build_nets, List.get_eq_getElem, List.getElem_mapIdx, List.getElem_idxOf]

/-- Two ports are on one net exactly if a path of wires links their terminals. -/
theorem netAt_eq_iff {i j : Fin circuit.wiredPorts.length} :
    circuit.netAt i = circuit.netAt j ↔
      circuit.Linked (circuit.wiredPorts.get i).terminal (circuit.wiredPorts.get j).terminal := by
  rw [netAt, netAt, Fin.mk.injEq, List.idxOf_inj (root_mem_classes i), root_eq_iff_linked]

/-- Every net is the net of some port. -/
theorem netAt_surjective : Function.Surjective circuit.netAt := by
  rintro ⟨id, inside⟩
  rw [build_nets, List.length_mapIdx] at inside
  obtain ⟨place, isRoot⟩ := exists_place_of_class (List.getElem?_eq_getElem inside)
  have here : circuit.classes.idxOf (circuit.partition.root place) = id :=
    isRoot ▸ circuit.nodup_classes.idxOf_getElem id inside
  exact ⟨place, Fin.ext here⟩

/-- A joint on a net is a joint of the circuit. -/
theorem isJoint_of_mem_joints {net : Net} (member : net ∈ (Netlist.build circuit).nets)
    {id : NodeId} (onNet : id ∈ net.joints) :
    ∃ node, circuit.node? id = some node ∧ node.isJoint = true := by
  obtain ⟨_, root, _, rfl⟩ := mem_build_nets.mp member
  obtain ⟨port, inClass, joint, rfl⟩ := Net.mem_joints_ofPorts.mp onNet
  obtain ⟨node, found, shape, _⟩ := shape_of_mem_wiredPorts (mem_wiredPorts_of_classPorts inClass)
  rw [shape, Node.portShape_joint] at joint
  exact ⟨node, found, joint⟩

/-- A sink of a net is a port of a node that is no joint. -/
theorem not_isJoint_of_mem_sinks {net : Net} (member : net ∈ (Netlist.build circuit).nets)
    {terminal : Terminal} (sink : terminal ∈ net.sinks) :
    ∃ node, circuit.node? terminal.node = some node ∧ node.isJoint = false := by
  obtain ⟨_, root, _, rfl⟩ := mem_build_nets.mp member
  obtain ⟨port, inClass, plain, _, rfl⟩ := Net.mem_sinks_ofPorts.mp sink
  obtain ⟨node, found, shape, _⟩ := shape_of_mem_wiredPorts (mem_wiredPorts_of_classPorts inClass)
  rw [shape, Node.portShape_joint] at plain
  exact ⟨node, found, plain⟩

/-- A source of a net is a port of a node that is no joint. -/
theorem not_isJoint_of_mem_sources {net : Net} (member : net ∈ (Netlist.build circuit).nets)
    {terminal : Terminal} (source : terminal ∈ net.sources) :
    ∃ node, circuit.node? terminal.node = some node ∧ node.isJoint = false := by
  obtain ⟨_, root, _, rfl⟩ := mem_build_nets.mp member
  obtain ⟨port, inClass, plain, _, rfl⟩ := Net.mem_sources_ofPorts.mp source
  obtain ⟨node, found, shape, _⟩ := shape_of_mem_wiredPorts (mem_wiredPorts_of_classPorts inClass)
  rw [shape, Node.portShape_joint] at plain
  exact ⟨node, found, plain⟩

end Breadboard.Circuit
