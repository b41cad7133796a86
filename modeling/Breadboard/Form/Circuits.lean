import Breadboard.Circuit.Nesting
import Breadboard.Form.Parts
import Breadboard.Json.Reader
import Breadboard.Json.Writer

/-!
# The file form of circuits

A circuit is a record of its slots, vacant ones as `null`, and its wires. Only structure and state
are written: revisions, and what the chips have derived, belong to a run and are made anew when a
file is read. Containers in a file nest at most `nestingLimit` deep, which bounds how deep circuits
can nest.
-/

namespace Breadboard

/-- How deep the containers of a file may nest. -/
def nestingLimit : Nat := 127

/-- The file form of an arena. -/
def Arena.toJson {α : Type} (write : α → Json) (arena : Arena α) : Json :=
  .array (arena.slots.map fun slot => (slot.map write).getD .null)

/-- Reads an arena. -/
def Arena.ofJson? {α : Type} (read : Json → Option α) (json : Json) : Option (Arena α) :=
  (json.list? (Json.orNull? read)).map Arena.mk

/-- The file form of a position. -/
def Position.toJson (position : Position) : Json :=
  .object [("x", .integer position.x), ("y", .integer position.y)]

/-- Reads a position. -/
def Position.ofJson? (json : Json) : Option Position := do
  let [x, y] ← json.fields? ["x", "y"] | none
  return ⟨← Json.required Json.coordinate? x, ← Json.required Json.coordinate? y⟩

/-- The file form of the port at an end of a wire. -/
def Terminal.toJson (terminal : Terminal) : Json :=
  .object [("node", .nat terminal.node), ("port", .string terminal.port)]

/-- Reads the port at an end of a wire. -/
def Terminal.ofJson? (json : Json) : Option Terminal := do
  let [node, port] ← json.fields? ["node", "port"] | none
  return ⟨← Json.required (Json.natBelow? handleLimit) node, ← Json.required Json.string? port⟩

/-- The file form of a wire. -/
def Wire.toJson (wire : Wire) : Json :=
  .object [("from", wire.first.toJson), ("to", wire.second.toJson)]

/-- Reads a wire. -/
def Wire.ofJson? (json : Json) : Option Wire := do
  let [first, second] ← json.fields? ["from", "to"] | none
  return ⟨← Json.required Terminal.ofJson? first, ← Json.required Terminal.ofJson? second⟩

/-- A member for the signals of a node, if there are any. -/
def PortMap.member (name : String) (ports : PortMap) : List (String × Json) :=
  if ports.isEmpty then [] else [(name, ports.toJson)]

/-- The file form of a node whose inner circuit is written already. -/
def Node.toJson (node : Node Json) : Json :=
  .object ([("label", .string node.label), ("position", node.position.toJson),
    ("kind", node.part.toJson)]
    ++ node.inputs.member "inputs" ++ node.outputs.member "outputs")

/-- Reads a value of which everything has to be meaningful and within the nesting limit, so many
    containers being around it. -/
def Json.soundly? {α : Type} (around : Nat) (read : Json → Option α) (json : Json) : Option α :=
  if json.soundWithin (nestingLimit - around) then read json else none

/-- Reads a node, so many containers being around its fields. What is passed over in its component
    and in its signals has to be sound too. -/
def Node.ofJson? {Inner : Type} (around : Nat) (nested : Bool) (read : Json → Option Inner)
    (json : Json) : Option (Node Inner) := do
  let [label, position, part, inputs, outputs] ←
    json.fields? ["label", "position", "kind", "inputs", "outputs"] | none
  let label ← Json.optional "" Json.string? label
  let position ← Json.optional ⟨0, 0⟩ Position.ofJson? position
  let part ← Json.required (Json.soundly? around (Part.ofJson? nested read)) part
  let inputs ← Json.optional .empty (Json.soundly? around PortMap.ofJson?) inputs
  let outputs ← Json.optional .empty (Json.soundly? around PortMap.ofJson?) outputs
  return ⟨label, position, part, inputs, outputs⟩

namespace Circuit

/-- The file form of a circuit. -/
def toJson : Circuit → Json :=
  fold fun nodes wires _ =>
    .object [("nodes", nodes.toJson Node.toJson), ("wires", .array (wires.map Wire.toJson))]

/-- Reads a circuit in which circuits nest less deep than the first number. The fields of its nodes
    are surrounded by the node, the slots and the circuit. The circuits read have no revisions
    yet. -/
def ofNested? (nested : Bool) : Nat → Json → Option Circuit
  | 0, _ => none
  | depth + 1, json => do
    let [nodes, wires] ← json.fields? ["nodes", "wires"] | none
    let nodes ←
      Json.required (Arena.ofJson? (Node.ofJson? 3 nested (ofNested? true depth))) nodes
    let wires ← Json.optional [] (Json.list? Wire.ofJson?) wires
    return ⟨nodes, wires, 0⟩

/-- Reads a circuit and gives it revisions from the first fresh one on; also gives the next fresh
    one. -/
def ofJson? (json : Json) (fresh : Revision) : Option (Circuit × Revision) :=
  (ofNested? false nestingLimit json).map fun circuit => circuit.renew fresh

/-- Reads the text of a circuit file. -/
def ofText? (text : String) (fresh : Revision) : Option (Circuit × Revision) :=
  (Json.parse? text).bind fun json => ofJson? json fresh

/-- The text of a circuit file, spread over lines. -/
def fileText (circuit : Circuit) : String :=
  circuit.toJson.spread

end Circuit

/-- Reads a component by itself; its inner circuits have no revisions yet. -/
def Part.ofForm? (json : Json) : Option (Part Circuit) :=
  Part.ofJson? false (Circuit.ofNested? true nestingLimit) json

/-- Reads a node by itself; its inner circuits have no revisions yet. -/
def Node.ofForm? (json : Json) : Option (Node Circuit) :=
  Node.ofJson? 1 false (Circuit.ofNested? true nestingLimit) json

/-- The file form of a node. -/
def Node.form (node : Node Circuit) : Json :=
  (node.map Circuit.toJson).toJson

/-- The file form of a chip. -/
def Chip.form (chip : Chip Circuit) : Json :=
  .object (chip.map Circuit.toJson).members

end Breadboard
