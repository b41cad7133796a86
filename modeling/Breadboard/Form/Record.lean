import Breadboard.Json.Basic
import Breadboard.Text.Digits

/-!
# Records in JSON

A record is written as an object with a member for each field. It is read from such an object, whose
other members are passed over and which gives no field twice, or from an array of the first fields
in their order. What a field that is not given means is up to the field: some are required, others
have a default.

A tagged record has a further field `type`, which tells what the other fields are. In an array it
comes first.
-/

namespace Breadboard.Json

/-- The value of the members with a name. There is no answer if there are several. -/
def field? (members : List (String × Json)) (name : String) : Option (Option Json) :=
  match members.filter (·.1 == name) with
  | [] => some none
  | [member] => some (some member.2)
  | _ => none

/-- The values of the fields of a record, in the order of the given names. -/
def fields? (names : List String) : Json → Option (List (Option Json))
  | .object members => names.mapM (field? members)
  | .array items =>
    if items.length ≤ names.length then
      some (items.map some ++ List.replicate (names.length - items.length) none)
    else none
  | _ => none

/-- The tag of a tagged record, and the record of the other fields. -/
def tagged? : Json → Option (Json × Json)
  | .object members =>
    match field? members "type" with
    | some (some tag) => some (tag, .object (members.filter (·.1 != "type")))
    | _ => none
  | .array (tag :: rest) => some (tag, .array rest)
  | _ => none

/-- A tagged record. -/
def tagged (tag : String) (members : List (String × Json)) : Json :=
  .object (("type", .string tag) :: members)

/-- The record has no fields: an object, whatever its members, or an array without items. -/
def isBare : Json → Bool
  | .object _ => true
  | .array items => items.isEmpty
  | _ => false

/-- Reads a field that has to be given. -/
def required {α : Type} (read : Json → Option α) (field : Option Json) : Option α :=
  field.bind read

/-- Reads a field that has a default. -/
def optional {α : Type} (default : α) (read : Json → Option α) : Option Json → Option α
  | some value => read value
  | none => some default

/-- A truth value. -/
def bool? : Json → Option Bool
  | .bool value => some value
  | _ => none

/-- A text. -/
def string? : Json → Option String
  | .string value => some value
  | _ => none

/-- A number below a limit, written as an integer. -/
def natBelow? (limit : Nat) : Json → Option Nat
  | .integer value => if 0 ≤ value ∧ value < limit then some value.toNat else none
  | _ => none

/-- A coordinate, a signed number of 32 bits. -/
def coordinate? : Json → Option Int
  | .integer value => if -0x80000000 ≤ value ∧ value < 0x80000000 then some value else none
  | _ => none

/-- A double, written as any number. -/
def float? : Json → Option Float
  | .integer value => some (Float.ofInt value)
  | .real value => some value
  | _ => none

/-- A list whose items are read alike. -/
def list? {α : Type} (read : Json → Option α) : Json → Option (List α)
  | .array items => items.mapM read
  | _ => none

/-- A thing that may be left out by writing `null`. -/
def orNull? {α : Type} (read : Json → Option α) : Json → Option (Option α)
  | .null => some none
  | value => (read value).map some

/-- One of several names, written as a text or as an object with the name for its only member, which
    is `null`. -/
def choice? : Json → Option String
  | .string name => some name
  | .object [(name, .null)] => some name
  | _ => none

/-- One of several names in a field of a tagged record, where an empty object may stand for the
    `null`. -/
def fieldChoice? : Json → Option String
  | .object [(name, .object [])] => some name
  | json => json.choice?

end Breadboard.Json
