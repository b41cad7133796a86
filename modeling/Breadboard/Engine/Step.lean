import Breadboard.Circuit.Basic

/-!
# One step of a component

What each component that is no chip makes of the signals staged at its inputs. A missing input reads
as clear. Sources drive their state; pins, lights and displays take over what they receive; clocks
and joints are driven by the engine at other moments and do nothing here.
-/

namespace Breadboard

namespace PortMap

/-- An input as a single bit. -/
def bitAt (inputs : PortMap) (port : String) : Bool :=
  ((inputs.get? port).map Signal.toBool).getD false

/-- An input as the lanes of a bus. A single bit fills the lowest lane only. -/
def lanesAt (inputs : PortMap) (port : String) : Bus :=
  match inputs.get? port with
  | some (.bus lanes) => lanes
  | some (.bit value) => Bus.ofBits [value]
  | none => Bus.ofBits [false]

/-- The output of a gate. -/
def gateOutput (inputs : PortMap) : Gate → Bool
  | .not => Gate.not.apply (inputs.bitAt "in") false
  | function => function.apply (inputs.bitAt "a") (inputs.bitAt "b")

/-- The bus that a merge puts together, its first port being the most significant bit. -/
def merged (inputs : PortMap) (lanes : LaneCount) : Bus :=
  Bus.ofBits ((mergePorts lanes).map inputs.bitAt).reverse

/-- Writes the bits of a bus to the ports of a split, the most significant bit to the first port. -/
def writeSplit (outputs : PortMap) (lanes : LaneCount) (bus : Bus) : PortMap :=
  (splitPorts lanes).zipIdx.foldl (fun ports lane =>
    ports.insert lane.1 (.bit (bus.get (lanes.lanes - 1 - lane.2)))) outputs

end PortMap

namespace Node

/-- The node after one step from its staged inputs. -/
def step (node : Node Circuit) : Node Circuit :=
  let inputs := node.inputs
  match node.part with
  | .inputPin width state => node.setOutput "out" (state.normalise width.bits)
  | .switch on => node.setOutput "out" (.bit on)
  | .outputPin width _ =>
    { node with part := .outputPin width ((inputs.get? "in").getD (.zero width.bits)) }
  | .light _ => { node with part := .light (inputs.bitAt "in") }
  | .gate function => node.setOutput "out" (.bit (inputs.gateOutput function))
  | .triBuffer => node.setOutput "out" (.bit (inputs.bitAt "en" && inputs.bitAt "in"))
  | .merge lanes => node.setOutput "out" (.bus (inputs.merged lanes))
  | .split lanes =>
    { node with outputs := node.outputs.writeSplit lanes (inputs.lanesAt "in") }
  | .resize .eightToFour =>
    let lanes := inputs.lanesAt "in"
    (node.setOutput "high" (.bus (lanes.slice 4 4))).setOutput "low" (.bus (lanes.slice 0 4))
  | .resize .fourToEight =>
    let low := (inputs.lanesAt "low").resize 4
    let high := (inputs.lanesAt "high").resize 4
    node.setOutput "out" (.bus (low.append high))
  | .sevenSegment _ => { node with part := .sevenSegment (Segments.ofPorts inputs.bitAt) }
  | .clock _ | .joint | .comment | .chip _ | .unknown => node

end Node

end Breadboard
