import Breadboard.Form.Record
import Breadboard.Port.Map

/-!
# The file form of signals

A bit is a truth value; a bus is a record of its width and its bits as a number. Whatever width and
number a file gives make a bus: the width is brought into range, and bits that do not fit are
dropped.
-/

namespace Breadboard

/-- The file form of a bus. -/
def Bus.toJson (bus : Bus) : Json :=
  .object [("width", .nat bus.width), ("data", .nat bus.word)]

/-- Reads a bus. -/
def Bus.ofJson? (json : Json) : Option Bus := do
  let [width, data] ← json.fields? ["width", "data"] | none
  let width ← Json.required (Json.natBelow? handleLimit) width
  let data ← Json.required (Json.natBelow? wordLimit) data
  return Bus.ofNat data width

/-- The file form of a signal. -/
def Signal.toJson : Signal → Json
  | .bit value => .bool value
  | .bus value => value.toJson

/-- Reads a signal. -/
def Signal.ofJson? : Json → Option Signal
  | .bool value => some (.bit value)
  | json => (Bus.ofJson? json).map .bus

/-- The file form of the signals of a node, an object with a member for each port. -/
def PortMap.toJson (ports : PortMap) : Json :=
  .object (ports.entries.map fun entry => (entry.1, entry.2.toJson))

/-- Reads the signals of a node. Of two members for one port the later counts. -/
def PortMap.ofJson? : Json → Option PortMap
  | .object members =>
    let entries := members.mapM fun member => (Signal.ofJson? member.2).map (Prod.mk member.1)
    entries.map PortMap.ofList
  | _ => none

end Breadboard
