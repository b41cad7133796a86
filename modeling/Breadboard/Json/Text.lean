import Breadboard.Text.Digits

/-!
# JSON texts

The characters between the quotes of a JSON text. Written texts escape only the quote, the backslash
and the controls. In read texts every character may be escaped, beyond the first plane as a pair of
surrogates; half a pair is well written but denotes no text.
-/

namespace Breadboard.Json

/-- A character of a written text. -/
def escapeChar (c : Char) : List Char :=
  if c == '"' then ['\\', '"']
  else if c == '\\' then ['\\', '\\']
  else if c == '\x08' then ['\\', 'b']
  else if c == '\t' then ['\\', 't']
  else if c == '\n' then ['\\', 'n']
  else if c == '\x0c' then ['\\', 'f']
  else if c == '\r' then ['\\', 'r']
  else if c.toNat < 0x20 then ['\\', 'u'] ++ Text.hexLower 4 c.toNat
  else [c]

/-- A written text with its quotes. -/
def quote (text : String) : List Char :=
  '"' :: text.toList.flatMap escapeChar ++ ['"']

/-- The character of a one-letter escape. -/
def shortEscape? : Char → Option Char
  | '"' => some '"'
  | '\\' => some '\\'
  | '/' => some '/'
  | 'b' => some '\x08'
  | 'f' => some '\x0c'
  | 'n' => some '\n'
  | 'r' => some '\r'
  | 't' => some '\t'
  | _ => none

/-- Reads the four digits of a numeric escape. -/
def codeUnit? : List Char → Option (Nat × List Char)
  | a :: b :: c :: d :: rest => (Text.value? 16 [a, b, c, d]).map fun unit => (unit, rest)
  | _ => none

/-- The unit is the first of a surrogate pair. -/
def isHighSurrogate (unit : Nat) : Bool :=
  0xD800 ≤ unit && unit < 0xDC00

/-- The unit is the second of a surrogate pair. -/
def isLowSurrogate (unit : Nat) : Bool :=
  0xDC00 ≤ unit && unit < 0xE000

/-- The character of a numeric escape and what follows it: a second unit is taken only where it
    completes a pair. There is no character for half a pair. -/
def escapedChar (unit : Nat) (rest : List Char) : Option Char × List Char :=
  if isHighSurrogate unit then
    match rest with
    | '\\' :: 'u' :: behind =>
      match codeUnit? behind with
      | some (second, after) =>
        if isLowSurrogate second then
          (some (Char.ofNat (0x10000 + (unit - 0xD800) * 0x400 + (second - 0xDC00))), after)
        else (none, rest)
      | none => (none, rest)
    | _ => (none, rest)
  else if isLowSurrogate unit then (none, rest)
  else (some (Char.ofNat unit), rest)

/-- What was read of a text: its characters backwards, unless half a pair was among them. -/
abbrev TextSoFar := Option (List Char)

/-- Reads up to the closing quote, character by character; every step takes at least one. -/
def readText : Nat → TextSoFar → List Char → Option (Option String × List Char)
  | 0, _, _ => none
  | _ + 1, _, [] => none
  | steps + 1, read, c :: rest =>
    if c == '"' then some (read.map fun chars => String.ofList chars.reverse, rest)
    else if c == '\\' then
      match rest with
      | 'u' :: digits =>
        match codeUnit? digits with
        | some (unit, behind) =>
          let (char, after) := escapedChar unit behind
          readText steps (char.bind fun char => read.map (char :: ·)) after
        | none => none
      | letter :: behind =>
        match shortEscape? letter with
        | some char => readText steps (read.map (char :: ·)) behind
        | none => none
      | [] => none
    else if c.toNat < 0x20 then none
    else readText steps (read.map (c :: ·)) rest

/-- Reads a text whose opening quote was read. -/
def text? (rest : List Char) : Option (Option String × List Char) :=
  readText (rest.length + 1) (some []) rest

end Breadboard.Json
