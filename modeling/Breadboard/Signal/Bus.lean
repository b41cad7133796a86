import Breadboard.Text.Digits

/-!
# Buses

A bus is a vector of one to sixty-four bits, packed into one number with bit zero least significant.
The width and the absence of bits beyond it are part of the type, so two buses are equal exactly
when their widths and their bits agree. Widths asked for outside one to sixty-four are brought into
range, and bits that do not fit are dropped.
-/

namespace Breadboard

/-- The most bits that one bus holds. -/
def maxBusWidth : Nat := 64

/-- Brings a width into the range that a bus can have. -/
def clampWidth (width : Nat) : Nat :=
  max 1 (min width maxBusWidth)

theorem one_le_clampWidth (width : Nat) : 1 ≤ clampWidth width :=
  Nat.le_max_left ..

theorem clampWidth_le (width : Nat) : clampWidth width ≤ maxBusWidth := by
  simp only [clampWidth, maxBusWidth]
  omega

/-- The weight of the bit at an index, a power of two. The numbers below it are those with no bit at
    the index or above. -/
def bitWeight (index : Nat) : Nat :=
  Nat.pow 2 index

/-- A vector of bits, packed into a number. -/
structure Bus where
  /-- The number of bits. -/
  width : Nat
  /-- The bits, bit `i` with weight `bitWeight i`. -/
  word : Nat
  width_pos : 1 ≤ width
  width_le : width ≤ maxBusWidth
  word_lt : word < bitWeight width
deriving DecidableEq

namespace Bus

/-- The low bits of a number. -/
def ofNat (word width : Nat) : Bus where
  width := clampWidth width
  word := word % bitWeight (clampWidth width)
  width_pos := one_le_clampWidth width
  width_le := clampWidth_le width
  word_lt := Nat.mod_lt _ (Nat.two_pow_pos _)

/-- The bus with no bit set. -/
def zero (width : Nat) : Bus :=
  ofNat 0 width

/-- The bus whose bits are all `bit`. -/
def splat (width : Nat) (bit : Bool) : Bus :=
  ofNat (if bit then bitWeight (clampWidth width) - 1 else 0) width

/-- The number whose binary digits are the given bits, least significant first. -/
def pack : List Bool → Nat
  | [] => 0
  | bit :: rest => bit.toNat + 2 * pack rest

/-- The bus of the given bits, least significant first. Bits from the sixty-fifth on are dropped,
    and no bits at all make one clear bit. The bits are counted by a number of 32 bits, which starts
    again at zero. -/
def ofBits (bits : List Bool) : Bus :=
  ofNat (pack (bits.take maxBusWidth)) (bits.length % handleLimit)

/-- The bit at an index; beyond the width every bit reads as clear. -/
def get (bus : Bus) (index : Nat) : Bool :=
  decide (index < bus.width) && bus.word.testBit index

/-- The most significant bit. -/
def last (bus : Bus) : Bool :=
  bus.get (bus.width - 1)

/-- No bit is set. -/
def isZero (bus : Bus) : Bool :=
  bus.word == 0

/-- The bits, least significant first. -/
def bits (bus : Bus) : List Bool :=
  (List.range bus.width).map bus.get

/-- Writes the bit at an index; beyond the width nothing is written. -/
def set (bus : Bus) (index : Nat) (bit : Bool) : Bus :=
  if inside : index < bus.width then
    if bit then
      { bus with
        word := bus.word ||| bitWeight index
        word_lt := Nat.or_lt_two_pow bus.word_lt (Nat.pow_lt_pow_right (by decide) inside) }
    else
      { bus with
        word := bus.word ^^^ (bus.word &&& bitWeight index)
        word_lt := Nat.xor_lt_two_pow bus.word_lt (Nat.and_lt_two_pow _
          (Nat.pow_lt_pow_right (by decide) inside)) }
  else bus

/-- The bus cut off or filled up with clear bits to a width. -/
def resize (bus : Bus) (width : Nat) : Bus :=
  ofNat bus.word width

/-- `width` bits from `offset` on, filled up with clear bits past the end. -/
def slice (bus : Bus) (offset width : Nat) : Bus :=
  ofNat (bus.word >>> offset) width

/-- The bits of `low` followed by those of `high`. Bits that would come to stand at sixty-four or
    above are dropped. -/
def append (low high : Bus) : Bus :=
  ofNat (low.word ||| high.word <<< low.width) (low.width + high.width)

/-- The union of two buses of one width. -/
def or (left right : Bus) (same : left.width = right.width) : Bus :=
  { left with
    word := left.word ||| right.word
    word_lt := Nat.or_lt_two_pow left.word_lt (same ▸ right.word_lt) }

/-- The intersection of two buses of one width. -/
def and (left right : Bus) (_same : left.width = right.width) : Bus :=
  { left with
    word := left.word &&& right.word
    word_lt := Nat.lt_of_le_of_lt Nat.and_le_left left.word_lt }

/-- The bits that are clear. -/
def complement (bus : Bus) : Bus :=
  { bus with
    word := bus.word ^^^ (bitWeight bus.width - 1)
    word_lt := Nat.xor_lt_two_pow bus.word_lt (Nat.sub_lt (Nat.two_pow_pos _) Nat.zero_lt_one) }

/-- The bit that a binary digit stands for. -/
def binaryDigit? (c : Char) : Option Bool :=
  if c == '0' then some false else if c == '1' then some true else none

/-- Reads binary digits, most significant first. Underscores are separators; one to sixty-four
    digits have to remain. -/
def ofBinary? (text : List Char) : Option Bus :=
  let written := text.filter (· != '_')
  if written.isEmpty || written.length > maxBusWidth then none
  else (written.reverse.mapM binaryDigit?).map ofBits

/-- The bits as binary digits, most significant first. -/
def render (bus : Bus) : List Char :=
  (bus.bits.map fun bit => if bit then '1' else '0').reverse

end Bus

end Breadboard
