import Breadboard.Proofs.Net.Roles
import Mathlib.Order.Bounds.Basic
import Mathlib.Order.MinMax

/-!
# Seats

A net lists its terminals by what they do: those that drive it as sources, those that listen to it as
sinks, and its joints by their nodes. How often it lists a terminal in each of the three places is the
seats that the terminal has on it. Every terminal at a live wire end has the seats of its shape on one net,
the net that is answered for it, and no seat on any other; and nothing else has a seat.
-/

namespace Breadboard

/-- How often a terminal is listed by a net. -/
structure Seats where
  sources : Nat
  sinks : Nat
  joints : Nat
deriving DecidableEq

/-- A terminal that is not listed has no seat. -/
def Seats.none : Seats :=
  ⟨0, 0, 0⟩

/-- The seats of a port on its net: a joint stands apart, and every other port is listed once for driving
and once for listening. -/
def PortShape.seats (shape : PortShape) : Seats :=
  if shape.joint then ⟨0, 0, 1⟩
  else
    match shape.role with
    | .output => ⟨1, 0, 0⟩
    | .input => ⟨0, 1, 0⟩
    | .both => ⟨1, 1, 0⟩

/-- The seats are counted by what the shape says. -/
theorem PortShape.seats_eq (shape : PortShape) :
    shape.seats = ⟨if shape.joint = false ∧ shape.role.drives = true then 1 else 0,
      if shape.joint = false ∧ shape.role.listens = true then 1 else 0,
      if shape.joint = true then 1 else 0⟩ := by
  obtain ⟨role, width, joint⟩ := shape
  cases joint <;> cases role <;> rfl

namespace Net

/-- The seats of a terminal on a net. -/
def seats (net : Net) (terminal : Terminal) : Seats :=
  ⟨net.sources.count terminal, net.sinks.count terminal, net.joints.count terminal.node⟩

/-- The terminals on a net, the joints by their one port. -/
def terminals (net : Net) : List Terminal :=
  net.sources ++ net.sinks ++ net.joints.map fun joint => ⟨joint, "joint"⟩

end Net

namespace Netlist

/-- The nets of a list seat the terminals of a circuit. -/
structure SeatsTerminals (netlist : Netlist) (circuit : Circuit) : Prop where
  /-- Every terminal at a live wire end has the seats of its shape on the net that is answered for it, and
  no seat on any other net. -/
  seated : ∀ wire ∈ circuit.wires, ∀ named ∈ wire.ends, ∀ node,
    circuit.node? named.node = some node → ∃ net ∈ netlist.nets,
      netlist.netOf? named.node named.port = some net.id ∧
        net.seats (circuit.folded named) = (node.portShape named.port).seats ∧
        ∀ other ∈ netlist.nets, other ≠ net → other.seats (circuit.folded named) = .none
  /-- Nothing is listed but terminals at live wire ends. -/
  listed : ∀ net ∈ netlist.nets, ∀ terminal ∈ net.terminals, ∃ wire ∈ circuit.wires,
    ∃ named ∈ wire.ends, circuit.isLive named = true ∧ circuit.folded named = terminal
  inhabited : ∀ net ∈ netlist.nets, net.terminals ≠ []
  numbered : ∀ place (net : Net), netlist.nets[place]? = some net → net.id = place
  /-- A net is as wide as the widest of its terminals, and at least one bit wide. -/
  wide : ∀ net ∈ netlist.nets, IsGreatest
    {width | width = 1 ∨ ∃ terminal ∈ net.terminals, ∃ node, circuit.node? terminal.node = some node ∧
      (node.portShape terminal.port).width = width} net.width

end Netlist

namespace Circuit

variable {circuit : Circuit} {id : Nat} {root : Fin circuit.wiredPorts.length} {port : WiredPort}

/-- A wire end at a node names its terminal, with the shape that the node has there. -/
theorem wiredPort?_of_node? {named : Terminal} {node : Node Circuit}
    (found : circuit.node? named.node = some node) :
    circuit.wiredPort? named = some ⟨circuit.folded named, node.portShape named.port⟩ := by
  simp only [wiredPort?, folded, found, Option.map_some, Option.any_some, Node.portShape_joint]

/-- A port that belongs to a joint is its one port. -/
theorem terminal_of_joint (wired : port ∈ circuit.wiredPorts) (joint : port.shape.joint = true) :
    port.terminal = ⟨port.terminal.node, "joint"⟩ := by
  obtain ⟨node, found, shape, isFolded⟩ := shape_of_mem_wiredPorts wired
  rw [shape, Node.portShape_joint] at joint
  rw [folded, found, Option.any_some, if_pos joint] at isFolded
  exact isFolded.symm

/-- Ports of one node are joints alike. -/
theorem joint_congr {other : WiredPort} (wired : port ∈ circuit.wiredPorts)
    (otherWired : other ∈ circuit.wiredPorts) (same : port.terminal.node = other.terminal.node) :
    port.shape.joint = other.shape.joint := by
  obtain ⟨node, found, shape, _⟩ := shape_of_mem_wiredPorts wired
  obtain ⟨otherNode, otherFound, otherShape, _⟩ := shape_of_mem_wiredPorts otherWired
  rw [same, otherFound, Option.some.injEq] at found
  rw [shape, otherShape, Node.portShape_joint, Node.portShape_joint, found]

section

variable (wired : port ∈ circuit.wiredPorts)
include wired

/-- A port on the wires is a source of the net of its class if it drives it. -/
theorem terminal_mem_sources :
    port.terminal ∈ (Net.ofPorts id (circuit.classPorts root)).sources ↔
      port ∈ circuit.classPorts root ∧ port.shape.joint = false ∧ port.shape.role.drives = true := by
  rw [Net.mem_sources_ofPorts]
  constructor
  · rintro ⟨other, inClass, plain, drives, same⟩
    obtain rfl := wiredPorts_terminal_injective (mem_wiredPorts_of_classPorts inClass) wired same
    exact ⟨inClass, plain, drives⟩
  · rintro ⟨inClass, plain, drives⟩
    exact ⟨port, inClass, plain, drives, rfl⟩

/-- A port on the wires is a sink of the net of its class if it listens to it. -/
theorem terminal_mem_sinks :
    port.terminal ∈ (Net.ofPorts id (circuit.classPorts root)).sinks ↔
      port ∈ circuit.classPorts root ∧ port.shape.joint = false ∧ port.shape.role.listens = true := by
  rw [Net.mem_sinks_ofPorts]
  constructor
  · rintro ⟨other, inClass, plain, listens, same⟩
    obtain rfl := wiredPorts_terminal_injective (mem_wiredPorts_of_classPorts inClass) wired same
    exact ⟨inClass, plain, listens⟩
  · rintro ⟨inClass, plain, listens⟩
    exact ⟨port, inClass, plain, listens, rfl⟩

/-- The node of a port on the wires is a joint of the net of its class if it is a joint. -/
theorem node_mem_joints :
    port.terminal.node ∈ (Net.ofPorts id (circuit.classPorts root)).joints ↔
      port ∈ circuit.classPorts root ∧ port.shape.joint = true := by
  rw [Net.mem_joints_ofPorts]
  constructor
  · rintro ⟨other, inClass, joint, same⟩
    have otherWired := mem_wiredPorts_of_classPorts inClass
    have isJoint : port.shape.joint = true := (joint_congr wired otherWired same.symm).trans joint
    have terminals : other.terminal = port.terminal := by
      rw [terminal_of_joint otherWired joint, terminal_of_joint wired isJoint, same]
    obtain rfl := wiredPorts_terminal_injective otherWired wired terminals
    exact ⟨inClass, joint⟩
  · rintro ⟨inClass, joint⟩
    exact ⟨port, inClass, joint, rfl⟩

/-- A port on the wires has the seats of its shape on the net of its class and none on any other.

Proof: no list of a net repeats a terminal, so counting in it is asking whether it is there. -/
theorem seats_classPorts (atClass : circuit.classes[id]? = some root) :
    (Net.ofPorts id (circuit.classPorts root)).seats port.terminal =
      if port ∈ circuit.classPorts root then port.shape.seats else .none := by
  have onList := mem_build_nets.mpr ⟨id, root, atClass, rfl⟩
  have sources := (List.nodup_flatMap.mp circuit.nodup_sources).1 _ onList
  have sinks := (List.nodup_flatMap.mp circuit.nodup_sinks).1 _ onList
  have joints := (List.nodup_flatMap.mp circuit.nodup_joints).1 _ onList
  rw [Net.seats, sources.count, sinks.count, joints.count, PortShape.seats_eq]
  simp only [terminal_mem_sources wired, terminal_mem_sinks wired, node_mem_joints wired]
  by_cases inClass : port ∈ circuit.classPorts root
  · simp only [inClass, true_and, if_true]
  · simp only [inClass, false_and, if_false, Seats.none]

end

/-- The terminals on the net of a class are those of its ports. -/
theorem mem_terminals_classPorts {terminal : Terminal} :
    terminal ∈ (Net.ofPorts id (circuit.classPorts root)).terminals ↔
      ∃ port ∈ circuit.classPorts root, port.terminal = terminal := by
  simp only [Net.terminals, List.mem_append, List.mem_map, Net.mem_sources_ofPorts,
    Net.mem_sinks_ofPorts, Net.mem_joints_ofPorts]
  constructor
  · rintro ((⟨port, inClass, _, _, here⟩ | ⟨port, inClass, _, _, here⟩) |
      ⟨_, ⟨port, inClass, joint, rfl⟩, rfl⟩)
    · exact ⟨port, inClass, here⟩
    · exact ⟨port, inClass, here⟩
    · exact ⟨port, inClass, terminal_of_joint (mem_wiredPorts_of_classPorts inClass) joint⟩
  · rintro ⟨port, inClass, rfl⟩
    cases joint : port.shape.joint with
    | true =>
      have isJoint := terminal_of_joint (mem_wiredPorts_of_classPorts inClass) joint
      exact .inr ⟨_, ⟨port, inClass, joint, rfl⟩, isJoint.symm⟩
    | false =>
      rcases port.shape.role.drives_or_listens with drives | listens
      · exact .inl (.inl ⟨port, inClass, joint, drives, rfl⟩)
      · exact .inl (.inr ⟨port, inClass, joint, listens, rfl⟩)

/-- The widest of some ports, and of a width to begin with.

Proof: by induction on the ports; a wider port takes the place of what was widest before. -/
theorem isGreatest_foldl_width (ports : List WiredPort) (start : Nat) :
    IsGreatest {width | width = start ∨ ∃ port ∈ ports, port.shape.width = width}
      (ports.foldl (fun width port => max width port.shape.width) start) := by
  induction ports generalizing start with
  | nil => simp [IsGreatest, upperBounds]
  | cons head rest inductionHypothesis =>
    obtain ⟨attained, bounds⟩ := inductionHypothesis (max start head.shape.width)
    constructor
    · rcases attained with same | ⟨port, member, same⟩
      · rcases max_choice start head.shape.width with isStart | isHead
        · exact .inl (same.trans isStart)
        · exact .inr ⟨head, List.mem_cons_self, (same.trans isHead).symm⟩
      · exact .inr ⟨port, List.mem_cons_of_mem _ member, same⟩
    · have widest := bounds (.inl rfl)
      rintro width (rfl | ⟨port, member, rfl⟩)
      · exact (le_max_left _ _).trans widest
      · rcases List.mem_cons.mp member with rfl | later
        · exact (le_max_right _ _).trans widest
        · exact bounds (.inr ⟨port, later, rfl⟩)

/-- The nets of a circuit seat its terminals. -/
theorem seatsTerminals_build (circuit : Circuit) : (Netlist.build circuit).SeatsTerminals circuit where
  seated wire drawn named atEnd node found := by
    have atPort := wiredPort?_of_node? found
    have wired := mem_wiredPorts.mpr ⟨wire, drawn, named, atEnd, atPort⟩
    obtain ⟨place, here⟩ := List.get_of_mem wired
    obtain ⟨id, atClass⟩ := List.mem_iff_getElem?.mp (root_mem_classes place)
    have inClass := mem_classPorts.mpr ⟨place, here, rfl⟩
    refine ⟨_, mem_build_nets.mpr ⟨id, _, atClass, rfl⟩,
      netOf?_eq_some_iff.mpr ⟨place, congrArg WiredPort.terminal here, atClass⟩, ?_, ?_⟩
    · have seats := seats_classPorts wired atClass
      rwa [if_pos inClass] at seats
    · intro other onList different
      obtain ⟨otherId, root, atOther, rfl⟩ := mem_build_nets.mp onList
      have outside : (⟨circuit.folded named, node.portShape named.port⟩ : WiredPort) ∉
          circuit.classPorts root := by
        intro inOther
        obtain ⟨otherPlace, there, rfl⟩ := mem_classPorts.mp inOther
        obtain rfl := circuit.nodup_wiredPorts.injective_get (there.trans here.symm)
        obtain ⟨inside, _⟩ := List.getElem?_eq_some_iff.mp atOther
        obtain rfl := (List.getElem?_inj inside circuit.nodup_classes).mp (atOther.trans atClass.symm)
        exact different rfl
      have seats := seats_classPorts wired atOther
      rwa [if_neg outside] at seats
  listed net onList terminal isListed := by
    obtain ⟨id, root, _, rfl⟩ := mem_build_nets.mp onList
    obtain ⟨port, inClass, rfl⟩ := mem_terminals_classPorts.mp isListed
    obtain ⟨wire, drawn, named, atEnd, found⟩ :=
      mem_wiredPorts.mp (mem_wiredPorts_of_classPorts inClass)
    refine ⟨wire, drawn, named, atEnd, ?_, (terminal_of_wiredPort? found).symm⟩
    rw [← isSome_wiredPort?, found, Option.isSome_some]
  inhabited net onList := by
    obtain ⟨id, root, atClass, rfl⟩ := mem_build_nets.mp onList
    obtain ⟨place, here⟩ := exists_place_of_class atClass
    have inClass := mem_classPorts.mpr ⟨place, rfl, here⟩
    exact List.ne_nil_of_mem (mem_terminals_classPorts.mpr ⟨_, inClass, rfl⟩)
  numbered place net here := by
    rw [build_nets, List.getElem?_mapIdx, Option.map_eq_some_iff] at here
    obtain ⟨root, _, rfl⟩ := here
    rfl
  wide net onList := by
    obtain ⟨id, root, atClass, rfl⟩ := mem_build_nets.mp onList
    have widths : {width | width = 1 ∨ ∃ port ∈ circuit.classPorts root, port.shape.width = width} =
        {width | width = 1 ∨ ∃ terminal ∈ (Net.ofPorts id (circuit.classPorts root)).terminals, ∃ node,
          circuit.node? terminal.node = some node ∧ (node.portShape terminal.port).width = width} := by
      ext width
      refine or_congr_right ?_
      constructor
      · rintro ⟨port, inClass, rfl⟩
        obtain ⟨node, found, shape, _⟩ := shape_of_mem_wiredPorts (mem_wiredPorts_of_classPorts inClass)
        exact ⟨_, mem_terminals_classPorts.mpr ⟨port, inClass, rfl⟩, node, found, by rw [shape]⟩
      · rintro ⟨_, onNet, node, found, rfl⟩
        obtain ⟨port, inClass, rfl⟩ := mem_terminals_classPorts.mp onNet
        obtain ⟨other, otherFound, shape, _⟩ :=
          shape_of_mem_wiredPorts (mem_wiredPorts_of_classPorts inClass)
        rw [found, Option.some.injEq] at otherFound
        exact ⟨port, inClass, by rw [shape, otherFound]⟩
    exact widths ▸ isGreatest_foldl_width (circuit.classPorts root) 1

end Circuit

end Breadboard
