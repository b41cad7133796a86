import Breadboard.Json.Number
import Breadboard.Json.Text

/-!
# Reading JSON

The strict grammar: no comments, no trailing commas, nothing after the value, and only space, tab,
line feed and carriage return between tokens. Reading does not limit how deep containers nest; that
is left to whoever gives the value a meaning.
-/

namespace Breadboard.Json

/-- The character may stand between tokens. -/
def isGap (c : Char) : Bool :=
  c == ' ' || c == '\t' || c == '\n' || c == '\r'

/-- Drops what may stand between tokens. -/
def skipGap (text : List Char) : List Char :=
  text.dropWhile isGap

/-- Takes a word off the front. -/
def word? (word text : List Char) : Option (List Char) :=
  if word.isPrefixOf text then some (text.drop word.length) else none

/-- A value that is one word. -/
def wordValue? (text : List Char) : Option (Json × List Char) :=
  match word? ['n', 'u', 'l', 'l'] text, word? ['t', 'r', 'u', 'e'] text,
    word? ['f', 'a', 'l', 's', 'e'] text with
  | some rest, _, _ => some (.null, rest)
  | _, some rest, _ => some (.bool true, rest)
  | _, _, some rest => some (.bool false, rest)
  | none, none, none => none

/-- The value of a text. -/
def ofText : Option String → Json
  | some text => .string text
  | none => .meaningless

/-- The value of an object whose members were read. -/
def ofMembers (members : List (Option String × Json)) : Json :=
  match members.mapM fun member => member.1.map fun name => (name, member.2) with
  | some named => .object named
  | none => .meaningless

mutual

/-- Reads a value. The number bounds the calls on the way to any part. -/
def readValue : Nat → List Char → Option (Json × List Char)
  | 0, _ => none
  | calls + 1, text =>
    match skipGap text with
    | '"' :: rest => (text? rest).map fun (read, rest) => (ofText read, rest)
    | '[' :: rest =>
      match skipGap rest with
      | ']' :: rest => some (.array [], rest)
      | rest => (readItems calls rest).map fun (items, rest) => (.array items, rest)
    | '{' :: rest =>
      match skipGap rest with
      | '}' :: rest => some (.object [], rest)
      | rest => (readMembers calls rest).map fun (members, rest) => (ofMembers members, rest)
    | c :: rest =>
      if c == '-' || c.isDigit then
        (numeral? (c :: rest)).map fun (numeral, rest) => (numeral.value, rest)
      else wordValue? (c :: rest)
    | [] => none

/-- Reads the items of an array up to its closing bracket. -/
def readItems : Nat → List Char → Option (List Json × List Char)
  | 0, _ => none
  | calls + 1, text =>
    match readValue calls text with
    | some (item, rest) =>
      match skipGap rest with
      | ',' :: rest => (readItems calls rest).map fun (items, rest) => (item :: items, rest)
      | ']' :: rest => some ([item], rest)
      | _ => none
    | none => none

/-- Reads the members of an object up to its closing brace. -/
def readMembers : Nat → List Char → Option (List (Option String × Json) × List Char)
  | 0, _ => none
  | calls + 1, text =>
    match skipGap text with
    | '"' :: rest =>
      match text? rest with
      | some (name, rest) =>
        match skipGap rest with
        | ':' :: rest =>
          match readValue calls rest with
          | some (value, rest) =>
            match skipGap rest with
            | ',' :: rest =>
              (readMembers calls rest).map fun (members, rest) => ((name, value) :: members, rest)
            | '}' :: rest => some ([(name, value)], rest)
            | _ => none
          | none => none
        | _ => none
      | none => none
    | _ => none

end

/-- Reads a text that holds one value and nothing else. Every second call on the way to a part takes
    a character, so twice as many calls as characters suffice. -/
def parse? (text : String) : Option Json :=
  let chars := text.toList
  match readValue (2 * chars.length + 2) chars with
  | some (value, rest) => if (skipGap rest).isEmpty then some value else none
  | none => none

end Breadboard.Json
