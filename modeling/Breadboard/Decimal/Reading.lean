import Breadboard.Text.Digits
import Breadboard.Text.Caseless

/-!
# Reading doubles

The written form of a double: an optional sign, then `inf`, `infinity` or `nan` in any case, or a
mantissa of digits with at most one point and at least one digit, and an optional exponent. The
double is the one nearest to the number that is written.
-/

namespace Breadboard.Decimal

/-- The double nearest to `digits * 10 ^ exponent`. Numbers that are out of the range of doubles by
    their count of digits alone are decided without computing the power. -/
def nearestFloat (digits : Nat) (exponent : Int) : Float :=
  let leading := exponent + (Text.digits 10 digits).length
  if digits = 0 || leading < -400 then 0.0
  else if leading > 400 then 1.0 / 0.0
  else if exponent < 0 then Float.ofScientific digits true exponent.natAbs
  else Float.ofScientific digits false exponent.natAbs

/-- Splits off the digits at the front. -/
def spanDigits (text : List Char) : List Char × List Char :=
  text.span Char.isDigit

/-- Takes an optional sign off the front; the flag tells a minus. -/
def takeSign : List Char → Bool × List Char
  | '-' :: rest => (true, rest)
  | '+' :: rest => (false, rest)
  | text => (false, text)

/-- Reads what may follow a mantissa: nothing, or an exponent with at least one digit. -/
def exponent? : List Char → Option Int
  | [] => some 0
  | e :: rest =>
    if e == 'e' || e == 'E' then
      let (negative, digits) := takeSign rest
      (Text.value? 10 digits).map fun n => if negative then -(n : Int) else n
    else none

/-- Reads an unsigned number in decimal notation. -/
def unsigned? (text : List Char) : Option Float :=
  let (whole, rest) := spanDigits text
  let (fraction, rest) := match rest with
    | '.' :: behind => spanDigits behind
    | _ => ([], rest)
  match Text.value? 10 (whole ++ fraction), exponent? rest with
  | some digits, some exponent => some (nearestFloat digits (exponent - fraction.length))
  | _, _ => none

/-- Reads a double. -/
def float? (text : List Char) : Option Float :=
  let (negative, magnitude) := takeSign text
  let name := String.ofList (Text.lowerAscii magnitude)
  let read :=
    if name = "inf" || name = "infinity" then some (1.0 / 0.0)
    else if name = "nan" then some (0.0 / 0.0)
    else unsigned? magnitude
  read.map fun x => if negative then -x else x

end Breadboard.Decimal
