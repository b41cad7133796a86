import Breadboard.Decimal.Reading
import Breadboard.Text.Digits
import Breadboard.Toml.Basic

/-!
# TOML words

The values that are written as one word: truth values, integers in four bases, and numbers with a
fraction or an exponent. Single underscores may separate digits. Integers are signed numbers of 64
bits; a number beyond the doubles is refused if it is positive.
-/

namespace Breadboard.Toml

/-- Removes underscores, each of which has to stand between two digits. A word without digits is
    refused. -/
def separated? (isDigit : Char → Bool) : List Char → Option (List Char)
  | [] => none
  | [c] => if isDigit c then some [c] else none
  | c :: '_' :: rest => if isDigit c then (separated? isDigit rest).map (c :: ·) else none
  | c :: rest => if isDigit c then (separated? isDigit rest).map (c :: ·) else none

/-- The character is a digit in a base. -/
def isDigitIn (base : Nat) (c : Char) : Bool :=
  (Text.digitValue? base c).isSome

/-- A sign and what follows it. -/
def splitSign : List Char → Bool × List Char
  | '-' :: rest => (true, rest)
  | '+' :: rest => (false, rest)
  | text => (false, text)

/-- Digits of a whole number, which do not begin with a superfluous zero. -/
def wholeDigits? (text : List Char) : Option (List Char) :=
  match separated? Char.isDigit text with
  | some ('0' :: _ :: _) => none
  | digits => digits

/-- A number that fits 63 bits and a sign. -/
def signed? (negative : Bool) (n : Nat) : Option Toml :=
  if negative then (if n ≤ signedLimit then some (.integer (-(n : Int))) else none)
  else if n < signedLimit then some (.integer n) else none

/-- An integer without sign in a base other than ten. -/
def based? (base : Nat) (text : List Char) : Option Toml :=
  ((separated? (isDigitIn base) text).bind (Text.value? base)).bind (signed? false)

/-- An integer. -/
def integer? : List Char → Option Toml
  | '0' :: 'x' :: rest => based? 16 rest
  | '0' :: 'o' :: rest => based? 8 rest
  | '0' :: 'b' :: rest => based? 2 rest
  | text =>
    let (negative, unsigned) := splitSign text
    ((wholeDigits? unsigned).bind (Text.value? 10)).bind (signed? negative)

/-- Splits a word at the first character that passes a test. -/
def splitAt (test : Char → Bool) (text : List Char) : List Char × Option (List Char) :=
  match text.span fun c => !test c with
  | (before, _ :: after) => (before, some after)
  | (before, []) => (before, none)

/-- The digits of an exponent with their sign, behind a letter. -/
def exponent? : Option (List Char) → Option (List Char)
  | none => some []
  | some text =>
    let (negative, digits) := splitSign text
    (separated? Char.isDigit digits).map fun digits =>
      if negative then 'e' :: '-' :: digits else 'e' :: digits

/-- The digits of a fraction, behind a point. -/
def fraction? : Option (List Char) → Option (List Char)
  | none => some []
  | some text => (separated? Char.isDigit text).map ('.' :: ·)

/-- A number with a fraction or an exponent. -/
def float? (text : List Char) : Option Toml := do
  let (negative, unsigned) := splitSign text
  let (mantissa, exponent) := splitAt (fun c => c == 'e' || c == 'E') unsigned
  let (whole, fraction) := splitAt (· == '.') mantissa
  if exponent.isNone && fraction.isNone then none
  else
    let digits := (← wholeDigits? whole) ++ (← fraction? fraction) ++ (← exponent? exponent)
    let x ← Decimal.float? digits
    if negative then some (.real (-x)) else if x.isInf then none else some (.real x)

/-- A word for a truth value, for infinity or for what is no number. -/
def named? (word : List Char) : Option Toml :=
  let infinity : Float := 1.0 / 0.0
  if word = ['t', 'r', 'u', 'e'] then some (.flag true)
  else if word = ['f', 'a', 'l', 's', 'e'] then some (.flag false)
  else
    match splitSign word with
    | (negative, ['i', 'n', 'f']) => some (.real (if negative then -infinity else infinity))
    | (_, ['n', 'a', 'n']) => some (.real (0.0 / 0.0))
    | _ => none

/-- The value of a word. -/
def word? (word : List Char) : Option Toml :=
  named? word <|> float? word <|> integer? word

end Breadboard.Toml
