import Breadboard.Signal.Basic
import Breadboard.Text.Blank
import Breadboard.Text.Caseless

/-!
# Literals

The text of a signal as a user writes it: a word such as `on` or `low`, a number in base sixteen
behind `0x`, in base two behind `0b`, or in decimal. Blanks at the ends and the case of letters do
not matter, and underscores separate digits behind `0x` and `0b`. A number drives a single bit by
being other than zero and a bus by its low bits.
-/

namespace Breadboard.Signal

/-- The number that a lower-case literal writes, if it writes one below `2 ^ 64`. -/
def literalNumber? : List Char → Option Nat
  | '0' :: 'x' :: digits => Text.whole? 16 wordLimit (digits.filter (· != '_'))
  | '0' :: 'b' :: digits => (Bus.ofBinary? digits).map Bus.word
  | text => Text.whole? 10 wordLimit text

/-- The bit that a word stands for. -/
def literalWord? (word : List Char) : Option Bool :=
  let word := String.ofList word
  if word = "true" || word = "on" || word = "high" then some true
  else if word = "false" || word = "off" || word = "low" then some false
  else none

/-- Reads a literal for a port of the given width. -/
def ofLiteral? (width : Nat) (text : List Char) : Option Signal :=
  let plain := Text.lowerAscii (Text.trim text)
  match literalWord? plain with
  | some value => some ((Signal.bit value).normalise width)
  | none => (literalNumber? plain).map fun number =>
      if width ≤ 1 then .bit (number != 0) else .bus (Bus.ofNat number width)

end Breadboard.Signal
