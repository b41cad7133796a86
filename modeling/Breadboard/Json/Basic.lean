/-!
# JSON values

A JSON value keeps the members of an object in their order and with their duplicates, and numbers in
two kinds: integers that fit a 64-bit word, signed or not, and doubles. Some well-written values
denote nothing: a number beyond the doubles, a text with half of a surrogate pair, an object with
such a name. They do no harm where a value is passed over, so the reader keeps them as
`meaningless`.
-/

namespace Breadboard

/-- A JSON value. -/
inductive Json where
  | null
  | bool (value : Bool)
  | integer (value : Int)
  | real (value : Float)
  | string (value : String)
  | array (items : List Json)
  | object (members : List (String × Json))
  /-- A value that is well written and denotes nothing. -/
  | meaningless

namespace Json

instance : Inhabited Json := ⟨.null⟩

/-- A number as a JSON value. -/
def nat (n : Nat) : Json :=
  .integer n

/-- Every part denotes something, and containers nest at most so deep. -/
def soundWithin : Nat → Json → Bool
  | _, .meaningless => false
  | 0, .array _ => false
  | 0, .object _ => false
  | depth + 1, .array items => items.all (soundWithin depth)
  | depth + 1, .object members => members.all fun member => soundWithin depth member.2
  | _, _ => true

/-- The first member of an object with a name. -/
def member? (name : String) : Json → Option Json
  | .object members => (members.find? (·.1 == name)).map Prod.snd
  | _ => none

end Json

end Breadboard
