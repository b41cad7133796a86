/-!
# Blank characters

The white space of circuit names, command lines and literals is the Unicode property `White_Space`:
twenty-five characters, of which core's `Char.isWhitespace` knows six. Trimming and splitting here
work on lists of characters, so that every statement about a text is one about its characters.
-/

namespace Breadboard.Text

/-- The property `White_Space`, as a list of ranges. -/
def isBlank (c : Char) : Bool :=
  let n := c.toNat
  (0x09 ≤ n && n ≤ 0x0D) || n == 0x20 || n == 0x85 || n == 0xA0 || n == 0x1680
    || (0x2000 ≤ n && n ≤ 0x200A) || n == 0x2028 || n == 0x2029 || n == 0x202F || n == 0x205F
    || n == 0x3000

/-- Drops the blanks at the front. -/
def trimStart (text : List Char) : List Char :=
  text.dropWhile isBlank

/-- Drops the blanks at the end. -/
def trimEnd (text : List Char) : List Char :=
  (text.reverse.dropWhile isBlank).reverse

/-- Drops the blanks at both ends. -/
def trim (text : List Char) : List Char :=
  trimEnd (trimStart text)

/-- The maximal runs of characters that are not blank, in order. A run is gathered in `word`, which
    is empty between runs. -/
def wordsFrom (word : List Char) : List Char → List (List Char)
  | [] => if word.isEmpty then [] else [word.reverse]
  | c :: rest =>
    if isBlank c then
      if word.isEmpty then wordsFrom [] rest else word.reverse :: wordsFrom [] rest
    else
      wordsFrom (c :: word) rest

/-- The words of a line: its maximal runs of characters that are not blank. -/
def words (text : List Char) : List (List Char) :=
  wordsFrom [] text

end Breadboard.Text

namespace Breadboard

/-- The text without the blanks at its ends. -/
def trimmed (text : String) : String :=
  String.ofList (Text.trim text.toList)

/-- The text without the blanks at its end. -/
def trimmedEnd (text : String) : String :=
  String.ofList (Text.trimEnd text.toList)

end Breadboard
