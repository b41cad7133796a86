import Breadboard.Port.Decl
import Breadboard.Text.Digits

/-!
# The catalog of component types

Every type of component but the chip comes with a definition: the label of new instances and the
declared ports. Nothing here depends on the state of a circuit.
-/

namespace Breadboard

/-- The number of bits of a pin. -/
inductive PinWidth where
  | one | four | eight
deriving DecidableEq

/-- The number of bits. -/
def PinWidth.bits : PinWidth → Nat
  | .one => 1
  | .four => 4
  | .eight => 8

/-- The pin width with a number of bits. -/
def PinWidth.ofBits? : Nat → Option PinWidth
  | 1 => some .one
  | 4 => some .four
  | 8 => some .eight
  | _ => none

/-- The number of lanes of a merge or a split. -/
inductive LaneCount where
  | four | eight
deriving DecidableEq

/-- The number of lanes. -/
def LaneCount.lanes : LaneCount → Nat
  | .four => 4
  | .eight => 8

/-- The lane count with a number of lanes. -/
def LaneCount.ofLanes? : Nat → Option LaneCount
  | 4 => some .four
  | 8 => some .eight
  | _ => none

/-- The function of a logic gate. -/
inductive Gate where
  | and | or | xor | nand | nor | not
deriving DecidableEq

/-- The output of a gate; an inverter has only its first input. -/
def Gate.apply : Gate → Bool → Bool → Bool
  | .and, a, b => a && b
  | .or, a, b => a || b
  | .xor, a, b => a ^^ b
  | .nand, a, b => !(a && b)
  | .nor, a, b => !(a || b)
  | .not, a, _ => !a

/-- The name of a gate. -/
def Gate.name : Gate → String
  | .and => "AND"
  | .or => "OR"
  | .xor => "XOR"
  | .nand => "NAND"
  | .nor => "NOR"
  | .not => "NOT"

/-- Every gate. -/
def Gate.all : List Gate :=
  [.and, .or, .xor, .nand, .nor, .not]

/-- The gate with a name. -/
def Gate.ofName? (name : String) : Option Gate :=
  Gate.all.find? (·.name == name)

/-- The direction of a resizer. -/
inductive Resize where
  /-- Two halves of four bits become one bus of eight. -/
  | fourToEight
  /-- One bus of eight bits becomes two halves of four. -/
  | eightToFour
deriving DecidableEq

/-- The name of a direction. -/
def Resize.name : Resize → String
  | .fourToEight => "four_to_eight"
  | .eightToFour => "eight_to_four"

/-- The direction with a name. -/
def Resize.ofName? (name : String) : Option Resize :=
  [Resize.fourToEight, .eightToFour].find? (·.name == name)

/-- The types of component. -/
inductive PartType where
  | inputPin (width : PinWidth)
  | outputPin (width : PinWidth)
  | clock
  | switch
  | light
  | comment
  | gate (function : Gate)
  | joint
  | merge (lanes : LaneCount)
  | split (lanes : LaneCount)
  | resize (direction : Resize)
  | triBuffer
  | sevenSegment
  /-- A chip that wraps a circuit of its own. -/
  | chip
deriving DecidableEq

/-- The library name of a type. -/
def PartType.name : PartType → String
  | .inputPin .one => "PIN_IN"
  | .inputPin .four => "PIN_IN_4"
  | .inputPin .eight => "PIN_IN_8"
  | .outputPin .one => "PIN_OUT"
  | .outputPin .four => "PIN_OUT_4"
  | .outputPin .eight => "PIN_OUT_8"
  | .clock => "CLOCK"
  | .switch => "SWITCH"
  | .light => "LIGHT"
  | .comment => "COMMENT"
  | .gate function => function.name
  | .joint => "JOINT"
  | .merge .four => "MERGE_4"
  | .merge .eight => "MERGE_8"
  | .split .four => "SPLIT_4"
  | .split .eight => "SPLIT_8"
  | .resize .fourToEight => "RESIZE_4_8"
  | .resize .eightToFour => "RESIZE_8_4"
  | .triBuffer => "TRI_BUFFER"
  | .sevenSegment => "7SEG"
  | .chip => "CUSTOM"

/-- Every type. -/
def PartType.all : List PartType :=
  [.inputPin .one, .inputPin .four, .inputPin .eight,
    .outputPin .one, .outputPin .four, .outputPin .eight,
    .clock, .switch, .light, .comment]
  ++ Gate.all.map .gate
  ++ [.joint, .merge .four, .split .four, .merge .eight, .split .eight,
    .resize .fourToEight, .resize .eightToFour, .triBuffer, .sevenSegment, .chip]

/-- The type with a library name. -/
def PartType.ofName? (name : String) : Option PartType :=
  PartType.all.find? (·.name == name)

/-- The label and the ports of a type. -/
structure Definition where
  /-- The label of new instances. -/
  label : String
  inputs : List PortDecl
  outputs : List PortDecl
deriving DecidableEq

/-- The input ports of a merge, the most significant bit first. -/
def mergePorts (lanes : LaneCount) : List String :=
  (List.range lanes.lanes).map fun lane => "i" ++ decimalText lane

/-- The output ports of a split, the most significant bit first. -/
def splitPorts (lanes : LaneCount) : List String :=
  (List.range lanes.lanes).map fun lane => "o" ++ decimalText lane

/-- The segments of a seven-segment display, its decimal point last. -/
def segmentPorts : List String :=
  ["a", "b", "c", "d", "e", "f", "g", "dp"]

/-- The ports of a merge or a split, labelled by the number of the bit that they carry. -/
def laneDecls (ports : List String) : List PortDecl :=
  ports.mapIdx fun lane id => .ofBit id (decimalText (ports.length - 1 - lane))

/-- The two halves of a resizer. -/
def halfDecls : List PortDecl :=
  [.ofBus "high" "High 4b", .ofBus "low" "Low 4b"]

/-- The definition of a type; chips bring their own ports. -/
def PartType.definition? : PartType → Option Definition
  | .inputPin .one => some ⟨"Input Pin", [], [.ofBit "out" "Val"]⟩
  | .inputPin .four => some ⟨"Input 4b", [], [.ofBus "out" "4b"]⟩
  | .inputPin .eight => some ⟨"Input 8b", [], [.ofBus "out" "8b"]⟩
  | .outputPin .one => some ⟨"Output Pin", [.ofBit "in" "Val"], []⟩
  | .outputPin .four => some ⟨"Output 4b", [.ofBus "in" "4b"], []⟩
  | .outputPin .eight => some ⟨"Output 8b", [.ofBus "in" "8b"], []⟩
  | .clock => some ⟨"Clock", [], [.ofBit "out" "Clk"]⟩
  | .switch => some ⟨"Switch", [], [.ofBit "out" "Out"]⟩
  | .light => some ⟨"Light", [.ofBit "in" "In"], []⟩
  | .comment => some ⟨"Comment", [], []⟩
  | .gate .not => some ⟨"NOT", [.ofBit "in" "In"], [.ofBit "out" "Q"]⟩
  | .gate function =>
    some ⟨function.name, [.ofBit "a" "A", .ofBit "b" "B"], [.ofBit "out" "Q"]⟩
  | .joint => some ⟨"Joint", [.ofBit "joint" ""], [.ofBit "joint" ""]⟩
  | .merge .four => some ⟨"1→4BIT", laneDecls (mergePorts .four), [.ofBus "out" "4b"]⟩
  | .merge .eight => some ⟨"1→8BIT", laneDecls (mergePorts .eight), [.ofBus "out" "8b"]⟩
  | .split .four => some ⟨"4→1BIT", [.ofBus "in" "4b"], laneDecls (splitPorts .four)⟩
  | .split .eight => some ⟨"8→1BIT", [.ofBus "in" "8b"], laneDecls (splitPorts .eight)⟩
  | .resize .fourToEight => some ⟨"4→8BIT", halfDecls, [.ofBus "out" "8b"]⟩
  | .resize .eightToFour => some ⟨"8→4BIT", [.ofBus "in" "8b"], halfDecls⟩
  | .triBuffer =>
    some ⟨"3-State", [.ofBit "in" "In", .ofBit "en" "En"], [.ofBit "out" "Out"]⟩
  | .sevenSegment => some ⟨"7-Seg", segmentPorts.map fun id => .ofBit id id, []⟩
  | .chip => none

/-- The shape of a port of a type with a definition. -/
def PartType.portShape (type : PartType) (definition : Definition) (port : String) : PortShape :=
  if type = .joint then .ofJoint
  else Breadboard.portShape type.name definition.inputs definition.outputs port

end Breadboard
