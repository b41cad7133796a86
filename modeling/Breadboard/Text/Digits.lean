/-!
# Whole numbers as digits

Digits in a base, written and read. Reading takes the strict form that literals, tick counts and
node handles share: one optional plus sign, then at least one digit and nothing else, with a value
below a limit.
-/

namespace Breadboard.Text

/-- The character of a digit below sixteen, letters small. -/
def digitChar (d : Nat) : Char :=
  if d < 10 then Char.ofNat (48 + d) else Char.ofNat (87 + d)

/-- The character of a digit below sixteen, letters capital. -/
def digitCharUpper (d : Nat) : Char :=
  if d < 10 then Char.ofNat (48 + d) else Char.ofNat (55 + d)

/-- The value of a digit in a base up to sixteen, in either case of letters. -/
def digitValue? (base : Nat) (c : Char) : Option Nat :=
  let n := c.toNat
  let value :=
    if 48 ≤ n && n ≤ 57 then n - 48
    else if 97 ≤ n && n ≤ 102 then n - 87
    else if 65 ≤ n && n ≤ 70 then n - 55
    else base
  if value < base then some value else none

/-- The digits of a number in a base of at least two, most significant first; zero has one digit. -/
def digits (base n : Nat) : List Nat :=
  if _small : n < base ∨ base < 2 then [n]
  else digits base (n / base) ++ [n % base]
termination_by n
decreasing_by exact Nat.div_lt_self (by omega) (by omega)

/-- A number in decimal. -/
def decimal (n : Nat) : List Char :=
  (digits 10 n).map digitChar

/-- The lowest `count` digits of a number in base sixteen, capital, most significant first. -/
def hexUpper (count n : Nat) : List Char :=
  (List.range count).reverse.map fun place => digitCharUpper (n >>> (4 * place) % 16)

/-- The lowest `count` digits of a number in base sixteen, small, most significant first. -/
def hexLower (count n : Nat) : List Char :=
  (List.range count).reverse.map fun place => digitChar (n >>> (4 * place) % 16)

/-- The value of a run of digits, continuing from the value of the digits before it. -/
def valueFrom? (base : Nat) (before : Nat) : List Char → Option Nat
  | [] => some before
  | c :: rest =>
    match digitValue? base c with
    | some d => valueFrom? base (before * base + d) rest
    | none => none

/-- The value of a non-empty run of digits. -/
def value? (base : Nat) (text : List Char) : Option Nat :=
  if text.isEmpty then none else valueFrom? base 0 text

/-- A number below `limit`, written with an optional plus sign in front. -/
def whole? (base limit : Nat) (text : List Char) : Option Nat :=
  let unsigned := match text with
    | '+' :: rest => rest
    | _ => text
  (value? base unsigned).filter (· < limit)

end Breadboard.Text

namespace Breadboard

/-- One more than the largest 64-bit word. -/
def wordLimit : Nat := 0x10000000000000000

/-- One more than the largest signed 64-bit number. -/
def signedLimit : Nat := 0x8000000000000000

/-- One more than the largest 32-bit number. -/
def handleLimit : Nat := 0x100000000

/-- A number in decimal, as a text. -/
def decimalText (n : Nat) : String :=
  String.ofList (Text.decimal n)

/-- Reads an unsigned 64-bit number in decimal. -/
def word? (text : String) : Option Nat :=
  Text.whole? 10 wordLimit text.toList

/-- Reads an unsigned 32-bit number in decimal. -/
def handle? (text : String) : Option Nat :=
  Text.whole? 10 handleLimit text.toList

end Breadboard
