/-!
# Declared ports

A component type declares its ports. What a wire sees of a port is its shape: whether it drives the
net, listens to it or does both, and how many bits it carries. A port that is declared on both sides
or on neither does both, and a port that is not declared has one bit.
-/

namespace Breadboard

/-- A port as its component type declares it. -/
structure PortDecl where
  /-- The name, unique within its side of the component. -/
  id : String
  label : String
  /-- Whether the port carries several bits. -/
  bus : Bool
  /-- The number of bits of a bus port, where it is stated. -/
  width : Option Nat
deriving DecidableEq

namespace PortDecl

/-- A port of one bit. -/
def ofBit (id label : String) : PortDecl :=
  ⟨id, label, false, none⟩

/-- A port of several bits, their number following from the component type or the label. -/
def ofBus (id label : String) : PortDecl :=
  ⟨id, label, true, none⟩

/-- The number of bits of a bus port whose declaration does not state it. Resizers are wide on one
    side, named by `in` or `out`; other types tell by their suffix; then a label that mentions eight
    means eight bits; and four bits is the rest. -/
def impliedWidth (typeName : String) (decl : PortDecl) : Nat :=
  if typeName = "RESIZE_8_4" then (if decl.id = "in" then 8 else 4)
  else if typeName = "RESIZE_4_8" then (if decl.id = "out" then 8 else 4)
  else if ['_', '8'].isSuffixOf typeName.toList then 8
  else if ['_', '4'].isSuffixOf typeName.toList then 4
  else if decl.label.toList.contains '8' then 8
  else 4

/-- The number of bits of a declared port, as far as the declaration goes: it can state zero. -/
def declaredWidth (typeName : String) (decl : PortDecl) : Nat :=
  if decl.bus then decl.width.getD (decl.impliedWidth typeName) else 1

end PortDecl

/-- What a port does on its net. -/
inductive PortRole where
  /-- Listens to the net. -/
  | input
  /-- Drives the net. -/
  | output
  /-- Drives the net and listens to it. -/
  | both
deriving DecidableEq

/-- Drives its net. -/
def PortRole.drives : PortRole → Bool
  | .input => false
  | .output | .both => true

/-- Listens to its net. -/
def PortRole.listens : PortRole → Bool
  | .output => false
  | .input | .both => true

/-- What a wire sees of a port. -/
structure PortShape where
  role : PortRole
  /-- The number of bits, at least one. -/
  width : Nat
  /-- The port belongs to a joint, all of whose ports are one. -/
  joint : Bool
deriving DecidableEq

/-- The shape of every port of a joint. -/
def PortShape.ofJoint : PortShape :=
  ⟨.both, 1, true⟩

/-- The shape of a port of a component with the given declarations. A port on both sides has the
    width of its declaration as input. -/
def portShape (typeName : String) (inputs outputs : List PortDecl) (port : String) : PortShape :=
  let input := inputs.find? (·.id == port)
  let output := outputs.find? (·.id == port)
  let role := match input, output with
    | some _, none => .input
    | none, some _ => .output
    | _, _ => .both
  let width := ((input <|> output).map (·.declaredWidth typeName)).getD 1
  ⟨role, max width 1, false⟩

end Breadboard
