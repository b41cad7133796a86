/-!
# The shortest decimal of a binary number

A finite double is `m * 2 ^ q`. The decimals that read back to it form an interval around it, which
contains its ends exactly when `m` is even. `shortest` finds, among the decimals of that interval
with the fewest digits, the one nearest to the number. All comparisons are exact and in `Nat`. Where
two candidates are equally near, the choice is a parameter: it belongs to the format that is
written.
-/

namespace Breadboard.Decimal

/-- A positive number `m * 2 ^ q`. -/
structure Binary where
  m : Nat
  q : Int
  /-- The gap below the number is half of the gap above it. -/
  narrowBelow : Bool

/-- The magnitude of a finite double, from its bits. -/
def Binary.ofBits (bits : UInt64) : Binary :=
  let exponent : Nat := bits.toNat / 0x10000000000000 % 0x800
  let fraction : Nat := bits.toNat % 0x10000000000000
  if exponent == 0 then ⟨fraction, -1074, false⟩
  else ⟨0x10000000000000 + fraction, (exponent : Int) - 1075, fraction == 0 && exponent != 1⟩

/-- The number `digits * 10 ^ exponent`. -/
structure Numeral where
  digits : Nat
  exponent : Int
deriving DecidableEq

/-- Which of two equally near candidates is written. -/
inductive Tie where
  /-- The one whose last digit is even. -/
  | even
  /-- The larger one. -/
  | up
deriving DecidableEq

/-- A power of ten; one if the exponent is negative. -/
def tens (exponent : Int) : Nat :=
  Nat.pow 10 exponent.toNat

/-- A power of two; one if the exponent is negative. -/
def twos (exponent : Int) : Nat :=
  Nat.pow 2 exponent.toNat

/-- Compares `a * 10 ^ i` with `n * 2 ^ j`. -/
def compareScaled (a : Nat) (i : Int) (n : Nat) (j : Int) : Ordering :=
  compare (a * tens i * twos (-j)) (n * twos j * tens (-i))

/-- The decimal lies among the reals that round to the number. In units of a quarter of the last
    binary place the interval reaches two down, or one down if the gap below is narrow, and two up.
    -/
def Binary.readsBack (x : Binary) (d : Numeral) : Bool :=
  let low := if x.narrowBelow then 4 * x.m - 1 else 4 * x.m - 2
  let high := 4 * x.m + 2
  let closed := x.m % 2 == 0
  let above := compareScaled d.digits d.exponent low (x.q - 2)
  let below := compareScaled d.digits d.exponent high (x.q - 2)
  (above == .gt || (closed && above == .eq)) && (below == .lt || (closed && below == .eq))

/-- The number divided by `10 ^ exponent`, rounded down. -/
def Binary.floorAt (x : Binary) (exponent : Int) : Nat :=
  (x.m * twos x.q * tens (-exponent)) / (twos (-x.q) * tens exponent)

/-- The number of decimal digits in front of the point, or minus the number of zeros behind it: the
    least `k` with the number below `10 ^ k`, searched upward from a bound given by the binary
    logarithm. -/
def Binary.magnitude (x : Binary) : Int :=
  let binary := (x.m.log2 : Int) + x.q
  let start := binary * 30103 / 100000 - 1
  ((List.range 5).map fun (step : Nat) => start + (step : Int)).find?
    (fun k => compareScaled 1 k x.m x.q == .gt) |>.getD (start + 5)

/-- Of the two neighbours of the number on the grid `10 ^ exponent`, the one that is written: the
    nearer one if both read back, none if neither does. -/
def Binary.onGrid? (x : Binary) (tie : Tie) (exponent : Int) : Option Numeral :=
  let down := x.floorAt exponent
  let lower : Numeral := ⟨down, exponent⟩
  let upper : Numeral := ⟨down + 1, exponent⟩
  match x.readsBack lower, x.readsBack upper with
  | true, true =>
    match compareScaled (2 * down + 1) exponent (2 * x.m) x.q with
    | .lt => some upper
    | .gt => some lower
    | .eq =>
      match tie with
      | .even => some (if down % 2 == 0 then lower else upper)
      | .up => some upper
  | true, false => some lower
  | false, true => some upper
  | false, false => none

/-- Moves the trailing zeros of the digits into the exponent. -/
def Numeral.strip (d : Numeral) : Numeral :=
  if d.digits = 0 then d
  else if d.digits % 10 = 0 then Numeral.strip ⟨d.digits / 10, d.exponent + 1⟩
  else d
termination_by d.digits
decreasing_by exact Nat.div_lt_self (by omega) (by decide)

/-- The number itself: a power of two is a decimal. -/
def Binary.exact (x : Binary) : Numeral :=
  ⟨x.m * twos x.q * Nat.pow 5 (-x.q).toNat, if x.q < 0 then x.q else 0⟩

/-- The nearest of the shortest decimals that read back, without trailing zeros. Seventeen digits
    always suffice for a double. -/
def Binary.shortest (x : Binary) (tie : Tie) : Numeral :=
  let magnitude := x.magnitude
  let grids := (List.range 17).map fun (n : Nat) => magnitude - (n : Int) - 1
  ((grids.findSome? (x.onGrid? tie)).getD x.exact).strip

end Breadboard.Decimal
