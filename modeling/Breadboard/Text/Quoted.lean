import Breadboard.Text.Digits
import Breadboard.Text.Unprinted

/-!
# Quoted texts

A text between quotes on one line, in which every character can be told: the quote and the backslash
stand behind a backslash, tab, line feed, carriage return and zero have a letter, and what is not
shown as itself is written as its code point in base sixteen.
-/

namespace Breadboard.Text

/-- A code point in base sixteen, between braces. -/
def escapeCode (n : Nat) : List Char :=
  ['\\', 'u', '\x7b'] ++ (digits 16 n).map digitChar ++ ['\x7d']

/-- A character inside a quoted text. -/
def quoteChar (c : Char) : List Char :=
  if c == '"' || c == '\\' then ['\\', c]
  else if c == '\t' then ['\\', 't']
  else if c == '\n' then ['\\', 'n']
  else if c == '\r' then ['\\', 'r']
  else if c == '\x00' then ['\\', '0']
  else if isUnprinted c then escapeCode c.toNat
  else [c]

/-- A text with its quotes. -/
def quoted (text : String) : String :=
  String.ofList ('"' :: text.toList.flatMap quoteChar ++ ['"'])

end Breadboard.Text
