import Breadboard.Decimal.Shortest
import Breadboard.Text.Digits

/-!
# Writing doubles

A layout says how the digits of a number are set out: for which exponents the point stands at its
place, whether whole numbers keep `.0`, and which of two equally near decimals is taken. Two layouts
are in use, one for messages and one for files.
-/

namespace Breadboard.Decimal

/-- How the shortest digits of a number are set out. -/
structure Layout where
  /-- Whether the point stands at its place, by the exponent of the leading digit. -/
  positional : Int → Bool
  /-- Whether a whole number ends in `.0`. -/
  markWhole : Bool
  tie : Tie

/-- The digits with the point at its place. -/
def positionalText (markWhole : Bool) (d : Numeral) : List Char :=
  let digits := Text.decimal d.digits
  if 0 ≤ d.exponent then
    digits ++ List.replicate d.exponent.toNat '0' ++ (if markWhole then ['.', '0'] else [])
  else
    let places := (-d.exponent).toNat
    if digits.length ≤ places then
      ['0', '.'] ++ List.replicate (places - digits.length) '0' ++ digits
    else
      digits.take (digits.length - places) ++ ['.'] ++ digits.drop (digits.length - places)

/-- The digits with the point behind the first, followed by a signed exponent. -/
def scientificText (d : Numeral) : List Char :=
  let digits := Text.decimal d.digits
  let leading := d.exponent + digits.length - 1
  let mantissa := match digits with
    | first :: second :: rest => first :: '.' :: second :: rest
    | short => short
  let sign := if leading < 0 then '-' else '+'
  mantissa ++ ['e', sign] ++ Text.decimal leading.natAbs

/-- A decimal in a layout. -/
def Layout.write (layout : Layout) (d : Numeral) : List Char :=
  let leading := d.exponent + (Text.decimal d.digits).length - 1
  if layout.positional leading then positionalText layout.markWhole d else scientificText d

/-- A finite double in a layout. The sign of zero is written. -/
def Layout.writeFloat (layout : Layout) (x : Float) : List Char :=
  let bits := x.toBits
  let binary := Binary.ofBits bits
  let magnitude := if binary.m = 0 then ⟨0, 0⟩ else binary.shortest layout.tie
  (if bits.toNat ≥ signedLimit then ['-'] else []) ++ layout.write magnitude

/-- Messages never use an exponent and write whole numbers without a point. -/
def messageLayout : Layout where
  positional := fun _ => true
  markWhole := false
  tie := .up

/-- Files use an exponent below `10 ^ -5` and from `10 ^ 16` on, and keep a point in every number.
    -/
def fileLayout : Layout where
  positional := fun leading => decide (-5 ≤ leading ∧ leading ≤ 15)
  markWhole := true
  tie := .even

/-- A double in a message. -/
def messageText (x : Float) : List Char :=
  if x.isNaN then ['N', 'a', 'N']
  else if x.isInf then (if x < 0 then ['-'] else []) ++ ['i', 'n', 'f']
  else messageLayout.writeFloat x

end Breadboard.Decimal
