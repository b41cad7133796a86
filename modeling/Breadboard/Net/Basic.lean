import Breadboard.Circuit.Basic
import Breadboard.Net.DisjointSets

/-!
# Nets

Wires group the ports that they join into nets. A net carries the wired or of everything that drives
it, at the width of its widest port. All ports of a joint are one port, so any number of wires can
meet there; a wire end at a missing node joins nothing. Nets are numbered in the order in which
their ports first appear in the list of wires.
-/

namespace Breadboard

/-- The ports that some wires join. -/
structure Net where
  /-- The number of the net. -/
  id : Nat
  /-- The width of its widest port. -/
  width : Nat
  /-- The ports that drive the net. -/
  sources : List Terminal
  /-- The ports that listen to the net. -/
  sinks : List Terminal
  /-- The joints on the net. -/
  joints : List NodeId
deriving DecidableEq

/-- The nets of a circuit at a revision. -/
structure Netlist where
  /-- The nets, each at the place of its number. -/
  nets : List Net
  revision : Revision
  nodeCount : Nat
  wireCount : Nat
deriving DecidableEq

/-- A port on a wire, with its shape. -/
structure WiredPort where
  terminal : Terminal
  shape : PortShape
deriving DecidableEq

namespace Circuit

/-- The port at the end of a wire, unless its node is missing. Every port of a joint is its one port
    `joint`. -/
def wiredPort? (circuit : Circuit) (terminal : Terminal) : Option WiredPort :=
  (circuit.node? terminal.node).map fun node =>
    let shape := node.portShape terminal.port
    ⟨if shape.joint then { terminal with port := "joint" } else terminal, shape⟩

/-- The ports on the wires, in the order in which they first appear. -/
def wiredPorts (circuit : Circuit) : List WiredPort :=
  ((circuit.wires.flatMap fun wire => [wire.first, wire.second]).filterMap
    circuit.wiredPort?).eraseDups

/-- Unites the sets of the two ports that a wire joins. -/
def uniteEnds (circuit : Circuit) (ports : List WiredPort) (sets : DisjointSets ports.length)
    (wire : Wire) : DisjointSets ports.length :=
  match (circuit.wiredPort? wire.first).bind ports.finIdxOf?,
    (circuit.wiredPort? wire.second).bind ports.finIdxOf? with
  | some a, some b => (sets.union a b).1
  | _, _ => sets

end Circuit

namespace Net

/-- The net of some ports: joints stand apart, every other port drives it, listens to it, or both.
    -/
def ofPorts (id : Nat) (ports : List WiredPort) : Net :=
  let plain := ports.filter fun port => !port.shape.joint
  { id
    width := ports.foldl (fun width port => max width port.shape.width) 1
    sources := (plain.filter (·.shape.role.drives)).map WiredPort.terminal
    sinks := (plain.filter (·.shape.role.listens)).map WiredPort.terminal
    joints := (ports.filter (·.shape.joint)).map fun port => port.terminal.node }

/-- The signal at a driving port. -/
def driven? (circuit : Circuit) (source : Terminal) : Option Signal :=
  (circuit.node? source.node).bind fun node => node.outputs.get? source.port

/-- The wired or of all sources. A source that drives nothing yet counts for nothing. -/
def resolve (net : Net) (circuit : Circuit) : Signal :=
  (net.sources.filterMap (driven? circuit)).foldl (fun total signal => total.merge net.width signal)
    (.zero net.width)

/-- The port is on the net. Every port name of a joint names the joint. -/
def has (net : Net) (node : NodeId) (port : String) : Bool :=
  net.joints.contains node || net.sources.contains ⟨node, port⟩ || net.sinks.contains ⟨node, port⟩

/-- The name of a net. -/
def name (id : Nat) : String :=
  "n" ++ decimalText id

end Net

namespace Netlist

/-- The nets of a circuit: the ports on its wires, grouped by the sets that the wires unite. -/
def build (circuit : Circuit) : Netlist :=
  let ports := circuit.wiredPorts
  let sets := circuit.wires.foldl (circuit.uniteEnds ports) (.singletons ports.length)
  let roots := (List.finRange ports.length).map fun place => (ports.get place, (sets.find place).2)
  let groups := (roots.map Prod.snd).eraseDups.map fun root =>
    (roots.filter fun entry => entry.2 == root).map Prod.fst
  { nets := groups.mapIdx Net.ofPorts
    revision := circuit.revision
    nodeCount := circuit.nodeCount
    wireCount := circuit.wires.length }

/-- The net with a number. -/
def net? (netlist : Netlist) (id : Nat) : Option Net :=
  netlist.nets[id]?

/-- The number of the net of a port, if a wire reaches it. -/
def netOf? (netlist : Netlist) (node : NodeId) (port : String) : Option Nat :=
  (netlist.nets.find? fun net => net.has node port).map Net.id

/-- The netlist belongs to the present revision of the circuit. -/
def isCurrent (netlist : Netlist) (circuit : Circuit) : Bool :=
  netlist.revision == circuit.revision

/-- The netlist has the counts of the circuit. Edits that keep both counts go unnoticed. -/
def countsMatch (netlist : Netlist) (circuit : Circuit) : Bool :=
  netlist.nodeCount == circuit.nodeCount && netlist.wireCount == circuit.wires.length

end Netlist

end Breadboard
