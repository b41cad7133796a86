import Breadboard.Text.Digits

/-!
# TOML texts

Four notations for a text: between quotation marks with escapes, between apostrophes as it stands,
and each of them over several lines between triple delimiters. Controls other than the tab do not
occur; a text over several lines drops a line end at its beginning, and a backslash at the end of a
line joins it to the next character that is not blank.
-/

namespace Breadboard.Toml

/-- A blank within a line. -/
def isBlank (c : Char) : Bool :=
  c == ' ' || c == '\t'

/-- The character may stand in a comment or a text. -/
def isPlain (c : Char) : Bool :=
  c == '\t' || (0x20 ≤ c.toNat && c != '\x7f')

/-- Reads the character of an escape behind a number of digits. -/
def codePoint? (count : Nat) (text : List Char) : Option (Char × List Char) :=
  if text.length < count then none
  else
    match Text.value? 16 (text.take count) with
    | some n => if n.isValidChar then some (Char.ofNat n, text.drop count) else none
    | none => none

/-- Reads the character of an escape whose backslash was read. -/
def escape? : List Char → Option (Char × List Char)
  | 'b' :: rest => some ('\x08', rest)
  | 't' :: rest => some ('\t', rest)
  | 'n' :: rest => some ('\n', rest)
  | 'f' :: rest => some ('\x0c', rest)
  | 'r' :: rest => some ('\r', rest)
  | '"' :: rest => some ('"', rest)
  | '\\' :: rest => some ('\\', rest)
  | 'u' :: rest => codePoint? 4 rest
  | 'U' :: rest => codePoint? 8 rest
  | _ => none

/-- Takes a line end off the front. -/
def lineEnd? : List Char → Option (List Char)
  | '\n' :: rest => some rest
  | '\r' :: '\n' :: rest => some rest
  | _ => none

/-- Drops blanks and line ends. -/
def skipLines : List Char → List Char
  | '\r' :: '\n' :: rest => skipLines rest
  | c :: rest => if isBlank c || c == '\n' then skipLines rest else c :: rest
  | [] => []

/-- Joins lines: drops the rest of a line whose backslash was read, if it is blank, and all blanks
    and line ends behind it. -/
def joinLines? (text : List Char) : Option (List Char) :=
  (lineEnd? (text.dropWhile isBlank)).map skipLines

/-- A notation of texts. -/
structure Notation where
  /-- The character that stands once or three times at both ends. -/
  mark : Char
  /-- A backslash begins an escape. -/
  escapes : Bool
  /-- Line ends may occur, and the mark stands three times. -/
  spansLines : Bool

/-- The number of marks at the front. -/
def Notation.marks (style : Notation) (text : List Char) : Nat :=
  (text.takeWhile (· == style.mark)).length

/-- Reads up to the closing delimiter. The characters read so far stand backwards; every step takes
    at least one. Up to two marks may stand right before a triple delimiter. -/
def Notation.readFrom (style : Notation) : Nat → List Char → List Char →
    Option (String × List Char)
  | 0, _, _ => none
  | _ + 1, _, [] => none
  | steps + 1, read, c :: rest =>
    if c == style.mark then
      if !style.spansLines then some (String.ofList read.reverse, rest)
      else
        let marks := style.marks (c :: rest)
        if marks < 3 then style.readFrom steps (c :: read) rest
        else if marks ≤ 5 then
          some (String.ofList (read.reverse ++ List.replicate (marks - 3) c), rest.drop (marks - 1))
        else none
    else if c == '\\' && style.escapes then
      match escape? rest with
      | some (char, rest) => style.readFrom steps (char :: read) rest
      | none =>
        if style.spansLines then
          match joinLines? rest with
          | some rest => style.readFrom steps read rest
          | none => none
        else none
    else if isPlain c then style.readFrom steps (c :: read) rest
    else if style.spansLines then
      match lineEnd? (c :: rest) with
      | some rest => style.readFrom steps ('\n' :: read) rest
      | none => none
    else none

/-- Reads a text whose opening delimiter was read. -/
def Notation.read? (style : Notation) (text : List Char) : Option (String × List Char) :=
  let body := if style.spansLines then (lineEnd? text).getD text else text
  style.readFrom (body.length + 1) [] body

/-- Reads a text on one line, in either notation. -/
def lineText? : List Char → Option (String × List Char)
  | '"' :: rest => Notation.read? ⟨'"', true, false⟩ rest
  | '\'' :: rest => Notation.read? ⟨'\'', false, false⟩ rest
  | _ => none

/-- Reads a text in any notation. -/
def text? : List Char → Option (String × List Char)
  | '"' :: '"' :: '"' :: rest => Notation.read? ⟨'"', true, true⟩ rest
  | '\'' :: '\'' :: '\'' :: rest => Notation.read? ⟨'\'', false, true⟩ rest
  | text => lineText? text

end Breadboard.Toml
