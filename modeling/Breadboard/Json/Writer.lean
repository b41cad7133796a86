import Breadboard.Decimal.Notation
import Breadboard.Json.Basic
import Breadboard.Json.Text

/-!
# Writing JSON

Two forms: the compact one without any blanks, and the spread one with a line for every item or
member, indented by two blanks for every level. Empty containers stay on one line in both. A double
that is no finite number is written as `null`.
-/

namespace Breadboard.Json

/-- An integer. -/
def writeInteger (n : Int) : List Char :=
  (if n < 0 then ['-'] else []) ++ Text.decimal n.natAbs

/-- A double. -/
def writeReal (x : Float) : List Char :=
  if x.isFinite then Decimal.fileLayout.writeFloat x else ['n', 'u', 'l', 'l']

mutual

/-- The compact form. -/
def compactChars : Json → List Char
  | .null | .meaningless => ['n', 'u', 'l', 'l']
  | .bool value => if value then ['t', 'r', 'u', 'e'] else ['f', 'a', 'l', 's', 'e']
  | .integer value => writeInteger value
  | .real value => writeReal value
  | .string value => quote value
  | .array items => '[' :: compactItems items ++ [']']
  | .object members => '{' :: compactMembers members ++ ['}']

/-- Items, with commas between them. -/
def compactItems : List Json → List Char
  | [] => []
  | item :: rest =>
    compactChars item ++ (if rest.isEmpty then [] else [',']) ++ compactItems rest

/-- Members, with commas between them. -/
def compactMembers : List (String × Json) → List Char
  | [] => []
  | (name, value) :: rest =>
    quote name ++ [':'] ++ compactChars value ++ (if rest.isEmpty then [] else [','])
      ++ compactMembers rest

end

/-- A new line at a level. -/
def newLine (level : Nat) : List Char :=
  '\n' :: List.replicate (2 * level) ' '

mutual

/-- The spread form at a level. -/
def spreadChars (level : Nat) : Json → List Char
  | .array [] => ['[', ']']
  | .object [] => ['{', '}']
  | .array items => '[' :: spreadItems (level + 1) items ++ newLine level ++ [']']
  | .object members => '{' :: spreadMembers (level + 1) members ++ newLine level ++ ['}']
  | .null | .meaningless => ['n', 'u', 'l', 'l']
  | .bool value => if value then ['t', 'r', 'u', 'e'] else ['f', 'a', 'l', 's', 'e']
  | .integer value => writeInteger value
  | .real value => writeReal value
  | .string value => quote value

/-- Items, each on a line of its own. -/
def spreadItems (level : Nat) : List Json → List Char
  | [] => []
  | item :: rest =>
    newLine level ++ spreadChars level item ++ (if rest.isEmpty then [] else [','])
      ++ spreadItems level rest

/-- Members, each on a line of its own. -/
def spreadMembers (level : Nat) : List (String × Json) → List Char
  | [] => []
  | (name, value) :: rest =>
    newLine level ++ quote name ++ [':', ' '] ++ spreadChars level value
      ++ (if rest.isEmpty then [] else [',']) ++ spreadMembers level rest

end

/-- The compact form as a text. -/
def compact (value : Json) : String :=
  String.ofList value.compactChars

/-- The spread form as a text. -/
def spread (value : Json) : String :=
  String.ofList (value.spreadChars 0)

end Breadboard.Json
