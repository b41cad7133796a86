import Breadboard.Circuit.Basic
import Breadboard.Signal.Literal

/-!
# Naming and driving nodes

A node is named by its label, or, where no node has that label, by its handle. A drive sets the
state of a pin or a switch from a literal; `NAME=LITERAL` is one drive. What can go wrong is an
unknown name or a drive that does not fit its node.
-/

namespace Breadboard

/-- Why a drive is refused. -/
inductive DriveFlaw where
  /-- The text is no assignment. -/
  | noAssignment
  /-- The text is no literal. -/
  | noLiteral
  /-- The node is neither a pin nor a switch. -/
  | notDrivable
  /-- The node has no state to flip. -/
  | notToggleable
  /-- The node is no oscillator. -/
  | notOscillator
deriving DecidableEq

/-- The flaw in words. -/
def DriveFlaw.message : DriveFlaw → String
  | .noAssignment => "expected NODE=VALUE"
  | .noLiteral => "not a value literal"
  | .notDrivable => "only input pins and switches can be driven"
  | .notToggleable => "only switches and 1-bit input pins can be toggled"
  | .notOscillator => "not an oscillator"

/-- A name that names no node, or a drive that is refused. -/
inductive DriveError where
  | unknownNode (name : String)
  | invalid (node value : String) (flaw : DriveFlaw)
deriving DecidableEq

/-- The report of an error. -/
def DriveError.message : DriveError → String
  | .unknownNode name => "no node named '" ++ name ++ "'"
  | .invalid node value flaw =>
    "cannot drive '" ++ node ++ "' with '" ++ value ++ "': " ++ flaw.message

namespace Circuit

/-- The node with a name: the first one with that label, else the one with that handle. -/
def resolve (circuit : Circuit) (name : String) : Except DriveError NodeId :=
  match circuit.findLabel? name with
  | some id => .ok id
  | none =>
    match (handle? name).filter circuit.nodes.contains with
    | some id => .ok id
    | none => .error (.unknownNode name)

/-- Drives a node with a literal read at its width. The name serves reports. -/
def driveNode (circuit : Circuit) (id : NodeId) (name literal : String) :
    Except DriveError (Signal × Circuit) :=
  match circuit.node? id with
  | none => .error (.unknownNode name)
  | some node =>
    match Signal.ofLiteral? node.pinWidth literal.toList with
    | none => .error (.invalid name (trimmed literal) .noLiteral)
    | some signal =>
      match node.drive? signal with
      | none => .error (.invalid name (trimmed literal) .notDrivable)
      | some driven => .ok (signal, circuit.modifyNode id fun _ => driven)

/-- Splits a text at its first equals sign. -/
def splitAssignment? (text : String) : Option (String × String) :=
  match text.toList.span (· != '=') with
  | (name, '=' :: literal) => some (String.ofList name, String.ofList literal)
  | _ => none

/-- Carries out one drive, written `NAME=LITERAL`. -/
def applyDrive (circuit : Circuit) (assignment : String) : Except DriveError (NodeId × Circuit) :=
  match splitAssignment? assignment with
  | none => .error (.invalid assignment "" .noAssignment)
  | some (name, literal) => do
    let name := trimmed name
    let id ← circuit.resolve name
    let (_, driven) ← circuit.driveNode id name literal
    return (id, driven)

end Circuit

end Breadboard
