import Breadboard.Signal.Bus
import Breadboard.Text.Digits

/-!
# Signals

What a net or a port carries: a single bit or a bus. The two kinds turn into each other in one way
only. A bit that becomes a bus is copied to every position, and a bus that becomes a bit reads as
its most significant bit. A port of width `w` holds signals in the form `normalise w`: a bit when
`w` is at most one, a bus of `w` bits otherwise.
-/

namespace Breadboard

/-- The value of a port or a net. -/
inductive Signal where
  /-- A single bit. -/
  | bit (value : Bool)
  /-- Several bits. -/
  | bus (value : Bus)
deriving DecidableEq

namespace Signal

instance : Inhabited Signal := ⟨.bit false⟩

/-- The clear signal of a width. -/
def zero (width : Nat) : Signal :=
  if width ≤ 1 then .bit false else .bus (Bus.zero width)

/-- The number of bits. -/
def width : Signal → Nat
  | .bit _ => 1
  | .bus value => value.width

/-- The signal as a single bit: a bus reads as its most significant bit. -/
def toBool : Signal → Bool
  | .bit value => value
  | .bus value => value.last

/-- The signal as a bus: a bit is copied to every position. -/
def toBus (width : Nat) : Signal → Bus
  | .bit value => Bus.splat width value
  | .bus value => value.resize width

@[simp] theorem toBus_width (width : Nat) (signal : Signal) :
    (signal.toBus width).width = clampWidth width := by
  cases signal <;> rfl

/-- The signal in the form that a port of the given width holds. -/
def normalise (width : Nat) (signal : Signal) : Signal :=
  if width ≤ 1 then .bit signal.toBool else .bus (signal.toBus width)

/-- The wired or of two signals on a net of the given width. -/
def merge (width : Nat) (left right : Signal) : Signal :=
  if width ≤ 1 then .bit (left.toBool || right.toBool)
  else .bus ((left.toBus width).or (right.toBus width) (by simp))

/-- The bits as a number. -/
def toNat : Signal → Nat
  | .bit value => value.toNat
  | .bus value => value.word

/-- The signal in base sixteen, one digit for every four bits begun. -/
def hex (signal : Signal) : List Char :=
  Text.hexUpper ((signal.width + 3) / 4) signal.toNat

/-- The signal in binary. -/
def binary : Signal → List Char
  | .bit value => [if value then '1' else '0']
  | .bus value => value.render

/-- The signal as it is shown everywhere: `0` and `1` for a bit, the width and the digits in base
    sixteen for a bus. -/
def format : Signal → List Char
  | .bit value => [if value then '1' else '0']
  | .bus value => Text.decimal value.width ++ ['\'', 'h'] ++ (Signal.bus value).hex

/-- The shown form as a text. -/
def text (signal : Signal) : String :=
  String.ofList signal.format

end Signal

end Breadboard
