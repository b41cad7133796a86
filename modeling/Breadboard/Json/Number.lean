import Breadboard.Json.Basic
import Breadboard.Text.Digits

/-!
# JSON numbers

A number without fraction and exponent that fits a 64-bit word is an integer; only minus zero is
not. Every other number is a double, read in two roundings: its digits make a 64-bit significand,
digits that do not fit are dropped, the significand becomes a double, and that is multiplied or
divided by a power of ten. A number that comes out infinite denotes nothing.
-/

namespace Breadboard.Json

/-- The parts of a written number; the lists hold digits. -/
structure Numeral where
  negative : Bool
  whole : List Char
  fraction : List Char
  /-- The exponent, where one is written. -/
  exponent : Option Int
deriving DecidableEq

/-- Appends digits to a significand as long as it fits 64 bits. Gives the significand and the number
    of digits left over. -/
def takeDigits (significand : Nat) : List Char → Nat × Nat
  | [] => (significand, 0)
  | c :: rest =>
    let next := significand * 10 + (c.toNat - 48)
    if next < wordLimit then takeDigits next rest else (significand, rest.length + 1)

/-- A double multiplied or divided by a power of ten, in steps of at most `10 ^ 308`. There is no
    result where it would be infinite. -/
def scaleByTen (x : Float) (exponent : Int) : Option Float :=
  if exponent.natAbs ≤ 308 then
    let power := Float.ofScientific 1 false exponent.natAbs
    if exponent < 0 then some (x / power)
    else
      let scaled := x * power
      if scaled.isInf then none else some scaled
  else if x == 0.0 then some x
  else if 0 ≤ exponent then none
  else scaleByTen (x / 1e308) (exponent + 308)
termination_by exponent.natAbs
decreasing_by omega

/-- The value of a numeral. -/
def Numeral.value (numeral : Numeral) : Json :=
  let (whole, dropped) := takeDigits 0 numeral.whole
  let plain := numeral.fraction.isEmpty && numeral.exponent.isNone
  if plain && dropped == 0 && !numeral.negative then .integer whole
  else if plain && dropped == 0 && 0 < whole && whole ≤ signedLimit then .integer (-(whole : Int))
  else
    let (significand, spare) := takeDigits whole numeral.fraction
    let exponent := (dropped : Int) - (numeral.fraction.length - spare : Nat)
      + numeral.exponent.getD 0
    match scaleByTen (UInt64.ofNat significand).toFloat exponent with
    | some x => .real (if numeral.negative then -x else x)
    | none => .meaningless

/-- Splits off the digits at the front. -/
def digitsOf (text : List Char) : List Char × List Char :=
  text.span Char.isDigit

/-- Reads the whole part: a zero, or digits that do not begin with zero. -/
def wholePart? : List Char → Option (List Char × List Char)
  | '0' :: rest => some (['0'], rest)
  | text =>
    match digitsOf text with
    | ([], _) => none
    | split => some split

/-- Reads the fraction, if there is a point. -/
def fractionPart? : List Char → Option (List Char × List Char)
  | '.' :: rest =>
    match digitsOf rest with
    | ([], _) => none
    | split => some split
  | text => some ([], text)

/-- Reads the exponent, if there is one. -/
def exponentPart? : List Char → Option (Option Int × List Char)
  | [] => some (none, [])
  | c :: rest =>
    if c == 'e' || c == 'E' then
      let (negative, rest) := match rest with
        | '-' :: behind => (true, behind)
        | '+' :: behind => (false, behind)
        | _ => (false, rest)
      let (digits, behind) := digitsOf rest
      (Text.value? 10 digits).map fun n => (some (if negative then -(n : Int) else n), behind)
    else some (none, c :: rest)

/-- Reads a number. -/
def numeral? (text : List Char) : Option (Numeral × List Char) := do
  let (negative, text) := match text with
    | '-' :: rest => (true, rest)
    | _ => (false, text)
  let (whole, text) ← wholePart? text
  let (fraction, text) ← fractionPart? text
  let (exponent, text) ← exponentPart? text
  return (⟨negative, whole, fraction, exponent⟩, text)

end Breadboard.Json
