import Breadboard.Circuit.Basic
import Breadboard.Decimal.Notation
import Breadboard.Form.Signals

/-!
# The file form of components

A component is a tagged record: the tag is the name of its kind, the other fields are its state. A
kind whose name is not known is kept as an unknown component without any state. How the circuit
inside a chip is written and read is left open here.
-/

namespace Breadboard

/-- The file form of a declared port; the width is left out where it is not stated. -/
def PortDecl.toJson (decl : PortDecl) : Json :=
  .object ([("id", .string decl.id), ("label", .string decl.label), ("bus", .bool decl.bus)]
    ++ (decl.width.map fun width => ("width", Json.nat width)).toList)

/-- Reads a declared port. -/
def PortDecl.ofJson? (json : Json) : Option PortDecl := do
  let [id, label, bus, width] ← json.fields? ["id", "label", "bus", "width"] | none
  let id ← Json.required Json.string? id
  let label ← Json.optional "" Json.string? label
  let bus ← Json.optional false Json.bool? bus
  let width ← Json.optional none (Json.orNull? (Json.natBelow? handleLimit)) width
  return ⟨id, label, bus, width⟩

/-- The file form of the lit segments. -/
def Segments.toJson (segments : Segments) : Json :=
  .object ((segmentPorts.zip segments.toList).map fun (port, lit) => (port, .bool lit))

/-- Reads the lit segments; all have to be given. -/
def Segments.ofJson? (json : Json) : Option Segments := do
  let fields ← json.fields? segmentPorts
  let lit ← fields.mapM (Json.required Json.bool?)
  return Segments.ofList lit

/-- The fields of an oscillator. -/
def Oscillator.members (oscillator : Oscillator) : List (String × Json) :=
  [("frequency", .real oscillator.frequency.hertz), ("running", .bool oscillator.running),
    ("state", .bool oscillator.state), ("tick", .nat oscillator.tick)]

/-- Reads an oscillator; what is not given is as in a new one. -/
def Oscillator.ofJson? (json : Json) : Option Oscillator := do
  let [frequency, running, state, tick] ←
    json.fields? ["frequency", "running", "state", "tick"] | none
  let hertz ← Json.optional initial.frequency.hertz Json.float? frequency
  let running ← Json.optional initial.running Json.bool? running
  let state ← Json.optional initial.state Json.bool? state
  let tick ← Json.optional initial.tick (Json.natBelow? wordLimit) tick
  return ⟨⟨hertz⟩, running, state, tick⟩

/-- The fields of a chip whose circuit is written already. -/
def Chip.members (chip : Chip Json) : List (String × Json) :=
  [("name", .string chip.name), ("inputs", .array (chip.inputs.map PortDecl.toJson)),
    ("outputs", .array (chip.outputs.map PortDecl.toJson)), ("circuit", chip.circuit)]

/-- Reads a chip; its pins are not derived and it has not been evaluated. -/
def Chip.ofJson? {Inner : Type} (read : Json → Option Inner) (json : Json) :
    Option (Chip Inner) := do
  let [name, inputs, outputs, circuit] ←
    json.fields? ["name", "inputs", "outputs", "circuit"] | none
  let name ← Json.required Json.string? name
  let inputs ← Json.required (Json.list? PortDecl.ofJson?) inputs
  let outputs ← Json.required (Json.list? PortDecl.ofJson?) outputs
  let circuit ← Json.required read circuit
  return ⟨name, inputs, outputs, circuit, none, .empty⟩

/-- Reads the width of a pin. -/
def PinWidth.ofJson? (json : Json) : Option PinWidth :=
  (json.natBelow? handleLimit).bind PinWidth.ofBits?

/-- Reads a number of lanes. -/
def LaneCount.ofJson? (json : Json) : Option LaneCount :=
  (json.natBelow? handleLimit).bind LaneCount.ofLanes?

namespace Part

/-- The names of the known kinds of component. -/
def tags : List String :=
  ["INPUT_PIN", "SWITCH", "OUTPUT_PIN", "LIGHT", "GATE", "TRI_BUFFER", "MERGE", "SPLIT", "RESIZE",
    "7SEG", "CLOCK", "JOINT", "COMMENT", "CUSTOM"]

/-- The name of the unknown kinds. -/
def unknownTag : String := "UNKNOWN"

/-- The file form of a component whose inner circuit is written already. -/
def toJson : Part Json → Json
  | .inputPin width state =>
    .tagged "INPUT_PIN" [("width", .nat width.bits), ("state", state.toJson)]
  | .switch on => .tagged "SWITCH" [("on", .bool on)]
  | .outputPin width shown =>
    .tagged "OUTPUT_PIN" [("width", .nat width.bits), ("display", shown.toJson)]
  | .light lit => .tagged "LIGHT" [("lit", .bool lit)]
  | .gate function => .tagged "GATE" [("gate", .string function.name)]
  | .triBuffer => .tagged "TRI_BUFFER" []
  | .merge lanes => .tagged "MERGE" [("width", .nat lanes.lanes)]
  | .split lanes => .tagged "SPLIT" [("width", .nat lanes.lanes)]
  | .resize direction => .tagged "RESIZE" [("direction", .string direction.name)]
  | .sevenSegment segments => .tagged "7SEG" [("segments", segments.toJson)]
  | .clock oscillator => .tagged "CLOCK" oscillator.members
  | .joint => .tagged "JOINT" []
  | .comment => .tagged "COMMENT" []
  | .chip body => .tagged "CUSTOM" body.members
  | .unknown => .tagged unknownTag []

variable {Inner : Type}

/-- A component without state. -/
def bare? (part : Part Inner) (rest : Json) : Option (Part Inner) :=
  if rest.isBare then some part else none

/-- Reads a component of a kind from its other fields. -/
def ofFields? (read : Json → Option Inner) (tag : String) (rest : Json) : Option (Part Inner) :=
  match tag with
  | "INPUT_PIN" => do
    let [width, state] ← rest.fields? ["width", "state"] | none
    let width ← Json.optional .one PinWidth.ofJson? width
    let state ← Json.optional (.bit false) Signal.ofJson? state
    return .inputPin width state
  | "SWITCH" => do
    let [on] ← rest.fields? ["on"] | none
    return .switch (← Json.optional false Json.bool? on)
  | "OUTPUT_PIN" => do
    let [width, shown] ← rest.fields? ["width", "display"] | none
    let width ← Json.optional .one PinWidth.ofJson? width
    let shown ← Json.optional (.bit false) Signal.ofJson? shown
    return .outputPin width shown
  | "LIGHT" => do
    let [lit] ← rest.fields? ["lit"] | none
    return .light (← Json.optional false Json.bool? lit)
  | "GATE" => do
    let [function] ← rest.fields? ["gate"] | none
    return .gate (← (← Json.required Json.fieldChoice? function) |> Gate.ofName?)
  | "TRI_BUFFER" => bare? .triBuffer rest
  | "MERGE" => do
    let [lanes] ← rest.fields? ["width"] | none
    return .merge (← Json.required LaneCount.ofJson? lanes)
  | "SPLIT" => do
    let [lanes] ← rest.fields? ["width"] | none
    return .split (← Json.required LaneCount.ofJson? lanes)
  | "RESIZE" => do
    let [direction] ← rest.fields? ["direction"] | none
    return .resize (← (← Json.required Json.fieldChoice? direction) |> Resize.ofName?)
  | "7SEG" => do
    let [segments] ← rest.fields? ["segments"] | none
    return .sevenSegment (← Json.optional .dark Segments.ofJson? segments)
  | "CLOCK" => (Oscillator.ofJson? rest).map .clock
  | "JOINT" => bare? .joint rest
  | "COMMENT" => bare? .comment rest
  | "CUSTOM" => (Chip.ofJson? read rest).map .chip
  | _ => bare? .unknown rest

/-- The name of a kind. Inside chips a kind may also be given by its place among the names. -/
def tag? (nested : Bool) : Json → Option String
  | .string tag => some tag
  | .integer place =>
    if nested ∧ 0 ≤ place then some (tags.getD place.toNat unknownTag) else none
  | _ => none

/-- Reads a component. -/
def ofJson? (nested : Bool) (read : Json → Option Inner) (json : Json) : Option (Part Inner) := do
  let (tag, rest) ← json.tagged?
  ofFields? read (← tag? nested tag) rest

end Part

end Breadboard
