import Breadboard.Decimal.Notation
import Breadboard.Decimal.Reading
import Breadboard.Text.Blank
import Breadboard.Text.Caseless

/-!
# Frequencies

The rate of an oscillator, a double of hertz. A frequency is valid when it is finite and positive;
files can hold others, which then tick as fast as possible. Oscillators count external ticks, so a
frequency acts only through its half period, a whole number of ticks that is at least one.
-/

namespace Breadboard

/-- A rate in hertz. -/
structure Frequency where
  hertz : Float

namespace Frequency

instance : Inhabited Frequency := ⟨⟨1.0⟩⟩

/-- Finite and positive. -/
def isValid (f : Frequency) : Bool :=
  f.hertz.isFinite && f.hertz > 0.0

/-- The full period in milliseconds. -/
def period (f : Frequency) : Float :=
  1000.0 / f.hertz

/-- The number of ticks in half a period: half the period over the interval, rounded with halves
    away from zero, and at least one. A frequency that is not valid, or an interval of zero, gives
    one. A half period beyond 64 bits is cut off there. -/
def halfPeriod (f : Frequency) (interval : Nat) : Nat :=
  if !f.isValid || interval = 0 then 1
  else
    let ticks := (f.period / 2.0 / (UInt64.ofNat interval).toFloat).round
    if ticks.isFinite && ticks ≥ 1.0 then ticks.toUInt64.toNat else 1

/-- The frequency moved into a range. There is no answer if the range is empty or an end is no
    number; a frequency that is no number stays one. -/
def clamp? (f low high : Frequency) : Option Frequency :=
  if low.hertz ≤ high.hertz then
    let raised := if f.hertz < low.hertz then low.hertz else f.hertz
    some ⟨if raised > high.hertz then high.hertz else raised⟩
  else none

/-- The frequency as it is shown, in kilohertz from a thousand hertz on. -/
def render (f : Frequency) : List Char :=
  if f.hertz ≥ 1000.0 then
    Decimal.messageText (f.hertz / 1000.0) ++ ['k', 'H', 'z']
  else
    Decimal.messageText f.hertz ++ ['H', 'z']

/-- The shown form as a text. -/
def text (f : Frequency) : String :=
  String.ofList f.render

/-- A text that is no valid frequency. -/
structure ParseError where
  /-- The text, without the blanks around it. -/
  input : String
deriving DecidableEq

/-- The report of a text that is no frequency. -/
def ParseError.message (error : ParseError) : String :=
  "invalid frequency: '" ++ error.input ++ "'"

/-- Splits a lower-case text into the number and the factor of its unit. Without a unit the number
    is in hertz. -/
def splitUnit (text : List Char) : List Char × Float :=
  match text.reverse with
  | 'z' :: 'h' :: 'k' :: number => (number.reverse, 1000.0)
  | 'z' :: 'h' :: number => (number.reverse, 1.0)
  | _ => (text, 1.0)

/-- Reads a number with an optional unit `Hz` or `kHz` in any case, which has to be valid. -/
def ofText (text : String) : Except ParseError Frequency :=
  let plain := Text.trim text.toList
  let (number, factor) := splitUnit (Text.lowerAscii plain)
  match Decimal.float? (Text.trim number) with
  | some x =>
    let f : Frequency := ⟨x * factor⟩
    if f.isValid then .ok f else .error ⟨String.ofList plain⟩
  | none => .error ⟨String.ofList plain⟩

end Frequency

end Breadboard
