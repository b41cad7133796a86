import Breadboard.Net.Basic
import Breadboard.Proofs.List.FirstOccurrences

/-!
# The terminals on the wires

What a wire end names is its terminal: the port itself, or the one port of a joint. A wire end whose
node is missing names none. Terminals and the ports that a netlist is built from correspond one to
one, because the shape of a port follows from its terminal.
-/

namespace Breadboard

/-- The two ends of a wire in the order in which it was drawn. -/
def Wire.ends (wire : Wire) : List Terminal :=
  [wire.first, wire.second]

/-- A part has the shape of a joint's port at some port exactly if it is a joint. -/
theorem Node.portShape_joint {Inner : Type} (node : Node Inner) (port : String) :
    (node.portShape port).joint = node.isJoint := by
  obtain ⟨_, _, part, _, _⟩ := node
  cases part with
  | gate function => cases function <;> rfl
  | inputPin width state => cases width <;> rfl
  | outputPin width shown => cases width <;> rfl
  | merge lanes => cases lanes <;> rfl
  | split lanes => cases lanes <;> rfl
  | resize direction => cases direction <;> rfl
  | _ => rfl

/-- All ports of a joint have the shape of its one port. -/
theorem Node.portShape_of_isJoint {Inner : Type} {node : Node Inner} (joint : node.isJoint = true)
    (port : String) : node.portShape port = .ofJoint := by
  obtain ⟨_, _, part, _, _⟩ := node
  cases part with
  | joint => rfl
  | _ => cases joint

/-- Every role drives its net or listens to it. -/
theorem PortRole.drives_or_listens (role : PortRole) :
    role.drives = true ∨ role.listens = true := by
  cases role <;> decide

namespace Net

variable {id : Nat} {ports : List WiredPort}

/-- The ports that drive a net are those that stand for no joint and have a driving role. -/
theorem mem_sources_ofPorts {terminal : Terminal} :
    terminal ∈ (ofPorts id ports).sources ↔
      ∃ port ∈ ports, port.shape.joint = false ∧ port.shape.role.drives = true ∧
        port.terminal = terminal := by
  simp only [ofPorts, List.mem_map, List.mem_filter, Bool.not_eq_true', and_assoc]

/-- The ports that listen to a net are those that stand for no joint and have a listening role. -/
theorem mem_sinks_ofPorts {terminal : Terminal} :
    terminal ∈ (ofPorts id ports).sinks ↔
      ∃ port ∈ ports, port.shape.joint = false ∧ port.shape.role.listens = true ∧
        port.terminal = terminal := by
  simp only [ofPorts, List.mem_map, List.mem_filter, Bool.not_eq_true', and_assoc]

/-- The joints on a net are the nodes of the ports that stand for joints. -/
theorem mem_joints_ofPorts {node : NodeId} :
    node ∈ (ofPorts id ports).joints ↔
      ∃ port ∈ ports, port.shape.joint = true ∧ port.terminal.node = node := by
  simp only [ofPorts, List.mem_map, List.mem_filter, and_assoc]

/-- A net is reached through any port of a joint on it and through every other port on it. -/
theorem has_ofPorts {node : NodeId} {name : String} :
    (ofPorts id ports).has node name = true ↔
      ∃ port ∈ ports, if port.shape.joint = true then port.terminal.node = node
        else port.terminal = ⟨node, name⟩ := by
  simp only [has, Bool.or_eq_true, List.contains_iff_mem, mem_sources_ofPorts, mem_sinks_ofPorts,
    mem_joints_ofPorts]
  constructor
  · rintro ((⟨port, member, joint, here⟩ | ⟨port, member, plain, _, here⟩) |
      ⟨port, member, plain, _, here⟩)
    · exact ⟨port, member, by rwa [if_pos joint]⟩
    · exact ⟨port, member, by rwa [if_neg (by simp [plain])]⟩
    · exact ⟨port, member, by rwa [if_neg (by simp [plain])]⟩
  · rintro ⟨port, member, here⟩
    split at here
    · next joint => exact .inl (.inl ⟨port, member, joint, here⟩)
    · next notJoint =>
      have plain : port.shape.joint = false := by simpa using notJoint
      rcases port.shape.role.drives_or_listens with drives | listens
      · exact .inl (.inr ⟨port, member, plain, drives, here⟩)
      · exact .inr ⟨port, member, plain, listens, here⟩

end Net

namespace Circuit

/-- The node of a terminal is there. -/
def isLive (circuit : Circuit) (terminal : Terminal) : Bool :=
  (circuit.node? terminal.node).isSome

/-- The terminal that a port belongs to: every port of a joint is its one port. -/
def folded (circuit : Circuit) (terminal : Terminal) : Terminal :=
  if (circuit.node? terminal.node).any Node.isJoint then { terminal with port := "joint" }
  else terminal

/-- The terminals at the wire ends, in the order in which the wires were drawn. -/
def wireTerminals (circuit : Circuit) : List Terminal :=
  ((circuit.wires.flatMap Wire.ends).filter circuit.isLive).map circuit.folded

variable {circuit : Circuit}

@[simp] theorem folded_node (terminal : Terminal) :
    (circuit.folded terminal).node = terminal.node := by
  unfold folded
  split <;> rfl

/-- Folding a terminal again changes nothing. -/
@[simp] theorem folded_folded (terminal : Terminal) :
    circuit.folded (circuit.folded terminal) = circuit.folded terminal := by
  unfold folded
  split <;> simp_all

/-- Terminals of different nodes stay apart when they are folded, and so do different ports of a node
that is no joint. -/
theorem folded_eq_iff (s t : Terminal) :
    circuit.folded s = circuit.folded t ↔
      s = t ∨ (s.node = t.node ∧ (circuit.node? t.node).any Node.isJoint = true) := by
  obtain ⟨sNode, sPort⟩ := s
  obtain ⟨tNode, tPort⟩ := t
  simp only [folded]
  grind

/-- The port at a wire end is its folded terminal with the shape found there. -/
theorem wiredPort?_eq (terminal : Terminal) :
    circuit.wiredPort? terminal = (circuit.node? terminal.node).map fun node =>
      ⟨circuit.folded terminal, node.portShape (circuit.folded terminal).port⟩ := by
  unfold wiredPort? folded
  cases found : circuit.node? terminal.node with
  | none => rfl
  | some node =>
    simp only [Option.map_some, Option.any_some, Node.portShape_joint]
    split
    · next joint => simp only [Node.portShape_of_isJoint joint]
    · rfl

/-- A wire end names a port exactly if its node is there. -/
theorem isSome_wiredPort? (terminal : Terminal) :
    (circuit.wiredPort? terminal).isSome = circuit.isLive terminal := by
  rw [wiredPort?_eq, isLive, Option.isSome_map]

/-- The port at a wire end has the terminal that the end names. -/
theorem terminal_of_wiredPort? {terminal : Terminal} {port : WiredPort}
    (found : circuit.wiredPort? terminal = some port) :
    port.terminal = circuit.folded terminal := by
  rw [wiredPort?_eq, Option.map_eq_some_iff] at found
  obtain ⟨node, _, rfl⟩ := found
  rfl

/-- Ports with one terminal are one port. -/
theorem wiredPort_ext {s t : Terminal} {left right : WiredPort}
    (foundLeft : circuit.wiredPort? s = some left) (foundRight : circuit.wiredPort? t = some right)
    (same : left.terminal = right.terminal) : left = right := by
  rw [wiredPort?_eq, Option.map_eq_some_iff] at foundLeft foundRight
  obtain ⟨leftNode, atLeft, rfl⟩ := foundLeft
  obtain ⟨rightNode, atRight, rfl⟩ := foundRight
  have nodes : s.node = t.node := by
    have projected := congrArg Terminal.node same
    rwa [folded_node, folded_node] at projected
  rw [nodes, atRight] at atLeft
  cases atLeft
  simp only at same
  rw [same]

/-- The ports on the wires are what the wire ends name. -/
theorem mem_wiredPorts {port : WiredPort} :
    port ∈ circuit.wiredPorts ↔
      ∃ wire ∈ circuit.wires, ∃ terminal ∈ wire.ends, circuit.wiredPort? terminal = some port := by
  simp only [wiredPorts, List.mem_eraseDups, List.mem_filterMap, List.mem_flatMap, Wire.ends]
  grind

/-- A listed port has its shape from the node at its terminal, which is folded. -/
theorem shape_of_mem_wiredPorts {port : WiredPort} (member : port ∈ circuit.wiredPorts) :
    ∃ node, circuit.node? port.terminal.node = some node ∧
      port.shape = node.portShape port.terminal.port ∧
      circuit.folded port.terminal = port.terminal := by
  obtain ⟨_, _, terminal, _, found⟩ := mem_wiredPorts.mp member
  rw [wiredPort?_eq, Option.map_eq_some_iff] at found
  obtain ⟨node, atNode, rfl⟩ := found
  exact ⟨node, by rwa [folded_node], rfl, folded_folded terminal⟩

/-- No port is listed twice. -/
theorem nodup_wiredPorts (circuit : Circuit) : circuit.wiredPorts.Nodup :=
  FirstOccurrences.nodup_eraseDups _

/-- Listed ports with one terminal are one port. -/
theorem wiredPorts_terminal_injective {left right : WiredPort} (memberLeft : left ∈ circuit.wiredPorts)
    (memberRight : right ∈ circuit.wiredPorts) (same : left.terminal = right.terminal) :
    left = right := by
  obtain ⟨_, _, s, _, foundLeft⟩ := mem_wiredPorts.mp memberLeft
  obtain ⟨_, _, t, _, foundRight⟩ := mem_wiredPorts.mp memberRight
  exact wiredPort_ext foundLeft foundRight same

/-- A terminal at a wire end is the terminal of a listed port, and the other way round. -/
theorem mem_wireTerminals {terminal : Terminal} :
    terminal ∈ circuit.wireTerminals ↔ ∃ port ∈ circuit.wiredPorts, port.terminal = terminal := by
  simp only [wireTerminals, List.mem_map, List.mem_filter, List.mem_flatMap]
  constructor
  · rintro ⟨named, ⟨⟨wire, drawn, atEnd⟩, live⟩, rfl⟩
    rw [← isSome_wiredPort?, Option.isSome_iff_exists] at live
    obtain ⟨port, found⟩ := live
    exact ⟨port, mem_wiredPorts.mpr ⟨wire, drawn, named, atEnd, found⟩,
      terminal_of_wiredPort? found⟩
  · rintro ⟨port, member, rfl⟩
    obtain ⟨wire, drawn, named, atEnd, found⟩ := mem_wiredPorts.mp member
    refine ⟨named, ⟨⟨wire, drawn, atEnd⟩, ?_⟩, (terminal_of_wiredPort? found).symm⟩
    rw [← isSome_wiredPort?, found]
    rfl

/-- The listed ports are the first occurrences of the terminals at the wire ends. -/
theorem wiredPorts_terminals (circuit : Circuit) :
    circuit.wiredPorts.map WiredPort.terminal = circuit.wireTerminals.eraseDups := by
  have listed : circuit.wireTerminals =
      ((circuit.wires.flatMap Wire.ends).filterMap circuit.wiredPort?).map WiredPort.terminal := by
    rw [wireTerminals]
    induction circuit.wires.flatMap Wire.ends with
    | nil => rfl
    | cons terminal rest inductionHypothesis =>
      cases found : circuit.wiredPort? terminal with
      | none =>
        have dead : circuit.isLive terminal = false := by rw [← isSome_wiredPort?, found]; rfl
        rw [List.filterMap_cons_none found, ← inductionHypothesis, List.filter_cons_of_neg (by simp [dead])]
      | some port =>
        have live : circuit.isLive terminal = true := by rw [← isSome_wiredPort?, found]; rfl
        rw [List.filterMap_cons_some found, List.filter_cons_of_pos live, List.map_cons,
          List.map_cons, inductionHypothesis, terminal_of_wiredPort? found]
  rw [listed, FirstOccurrences.eraseDups_map_of_injective]
  · rfl
  · intro left memberLeft right memberRight same
    exact wiredPorts_terminal_injective (List.mem_eraseDups.mpr memberLeft)
      (List.mem_eraseDups.mpr memberRight) same

end Circuit

end Breadboard
