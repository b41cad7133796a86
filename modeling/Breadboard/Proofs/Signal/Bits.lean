import Breadboard.Proofs.Signal.WiredOr

/-!
# Signals bit by bit

A bus is told by its width and its bits, and a signal in the form of a width by its bits alone. What a
signal contributes to a net of some width is told by a rule for each kind: a scalar contributes itself to
every bit, a bus the bit at the same place, and on a net of a single bit its last bit. Bringing a signal
to a width and merging signals act on contributions bit by bit, so merging is commutative, associative and
idempotent up to the form of the width, whatever kinds and widths meet.
-/

namespace Breadboard

namespace Bus

/-- The bits of a number that is brought to a width are those below the width. -/
theorem get_ofNat (word width place : Nat) :
    (ofNat word width).get place = (decide (place < clampWidth width) && word.testBit place) := by
  have cut : (ofNat word width).word.testBit place =
      (decide (place < clampWidth width) && word.testBit place) := Nat.testBit_mod_two_pow ..
  change (decide (place < clampWidth width) && _) = _
  rw [cut, ← Bool.and_assoc, Bool.and_self]

/-- A bus has no bit beyond its width. -/
theorem testBit_word (bus : Bus) {place : Nat} (beyond : ¬ place < bus.width) :
    bus.word.testBit place = false :=
  Nat.testBit_lt_two_pow (Nat.lt_of_lt_of_le bus.word_lt
    (Nat.pow_le_pow_right Nat.zero_lt_two (Nat.le_of_not_lt beyond)))

/-- The bits of a bus that is brought to a width are its bits below the width. -/
theorem get_resize (bus : Bus) (width place : Nat) :
    (bus.resize width).get place = (decide (place < clampWidth width) && bus.get place) := by
  rw [resize, get_ofNat, get]
  by_cases inside : place < bus.width
  · rw [decide_eq_true inside, Bool.true_and]
  · rw [bus.testBit_word inside, Bool.and_false, Bool.and_false, Bool.and_false]

/-- Every bit of a bus that a scalar is broadcast to is the scalar. -/
theorem get_splat (width place : Nat) (bit : Bool) :
    (splat width bit).get place = (decide (place < clampWidth width) && bit) := by
  rw [splat, get_ofNat]
  cases bit with
  | false => simp
  | true =>
    simp only [if_true, bitWeight, Nat.pow_eq, Nat.testBit_two_pow_sub_one, Bool.and_self, Bool.and_true]

/-- The union of two buses is taken bit by bit. -/
theorem get_or {left right : Bus} (same : left.width = right.width) (place : Nat) :
    (left.or right same).get place = (left.get place || right.get place) := by
  simp only [get, or, Nat.testBit_or, Bool.and_or_distrib_left, same]

/-- Buses of one width with the same bits are equal. -/
theorem ext_get {left right : Bus} (width : left.width = right.width)
    (bits : ∀ place < left.width, left.get place = right.get place) : left = right := by
  refine ext_word width (Nat.eq_of_testBit_eq fun place => ?_)
  by_cases inside : place < left.width
  · simpa [get, inside, width ▸ inside] using bits place inside
  · rw [left.testBit_word inside, right.testBit_word (width ▸ inside)]

end Bus

namespace Signal

/-- The bit at a place; a scalar has one bit. -/
def bitAt (signal : Signal) (place : Nat) : Bool :=
  match signal with
  | .bit value => decide (place = 0) && value
  | .bus lanes => lanes.get place

/-- The bit that a signal contributes at a place of a net of some width: a scalar the same bit
everywhere, a bus the bit at that place, and on a net of a single bit its last one. -/
def contribution (width place : Nat) : Signal → Bool
  | .bit value => value
  | .bus lanes => if width ≤ 1 then lanes.last else lanes.get place

/-- The signal is in the form of a width. -/
def HasForm (width : Nat) (signal : Signal) : Prop :=
  signal.normalise width = signal

variable {width place : Nat} {left right signal : Signal}

/-- A width of at most one bit is brought to one. -/
theorem clampWidth_of_le_one (narrow : width ≤ 1) : clampWidth width = 1 := by
  simp only [clampWidth, maxBusWidth]
  omega

/-- What is brought to a width has its form. -/
theorem hasForm_normalise (width : Nat) (signal : Signal) : (signal.normalise width).HasForm width :=
  normalise_normalise width signal

/-- What is merged at a width has its form. -/
theorem hasForm_merge (width : Nat) (left right : Signal) : (left.merge width right).HasForm width := by
  by_cases narrow : width ≤ 1
  · simp only [HasForm, normalise, merge, if_pos narrow, toBool]
  · rw [HasForm, normalise, if_neg narrow, toBus_merge narrow, merge, if_neg narrow]

/-- The clear signal of a width has its form. -/
theorem hasForm_zero (width : Nat) : (zero width).HasForm width := by
  by_cases narrow : width ≤ 1
  · simp only [HasForm, normalise, zero, if_pos narrow, toBool]
  · simp only [HasForm, normalise, zero, if_neg narrow, toBus]
    exact congrArg Signal.bus (Bus.resize_of_width rfl)

/-- A signal in the form of a width contributes its own bits to a net of that width. -/
theorem HasForm.contribution (form : signal.HasForm width) (inside : place < clampWidth width) :
    signal.contribution width place = signal.bitAt place := by
  by_cases narrow : width ≤ 1
  · rw [clampWidth_of_le_one narrow, Nat.lt_one_iff] at inside
    rw [HasForm, normalise, if_pos narrow] at form
    rw [← form]
    simp [Signal.contribution, bitAt, inside]
  · rw [HasForm, normalise, if_neg narrow] at form
    rw [← form]
    simp only [Signal.contribution, if_neg narrow, bitAt]

/-- Signals in the form of a width with the same bits are equal. -/
theorem HasForm.ext (form : left.HasForm width) (otherForm : right.HasForm width)
    (bits : ∀ place < clampWidth width, left.bitAt place = right.bitAt place) : left = right := by
  rw [HasForm, normalise] at form otherForm
  split at form
  · next narrow =>
    rw [if_pos narrow] at otherForm
    rw [← form, ← otherForm]
    have only := bits 0 (by rw [clampWidth_of_le_one narrow]; exact Nat.zero_lt_one)
    rw [← form, ← otherForm] at only
    exact congrArg Signal.bit (by simpa [bitAt] using only)
  · next wide =>
    rw [if_neg wide] at otherForm
    rw [← form, ← otherForm] at bits ⊢
    refine congrArg Signal.bus (Bus.ext_get ?_ fun place inside => ?_)
    · rw [toBus_width, toBus_width]
    · exact bits place (by rwa [toBus_width] at inside)

/-- A signal that is brought to a width has the bits that it contributes. -/
theorem bitAt_normalise (inside : place < clampWidth width) (signal : Signal) :
    (signal.normalise width).bitAt place = signal.contribution width place := by
  by_cases narrow : width ≤ 1
  · rw [clampWidth_of_le_one narrow, Nat.lt_one_iff] at inside
    rw [normalise, if_pos narrow]
    cases signal <;> simp [bitAt, contribution, toBool, inside, narrow]
  · rw [normalise, if_neg narrow]
    cases signal with
    | bit value => simp [bitAt, contribution, toBus, Bus.get_splat, inside]
    | bus lanes => simp [bitAt, contribution, toBus, Bus.get_resize, inside, narrow]

/-- Merged signals have the bits that one or the other contributes. -/
theorem bitAt_merge (inside : place < clampWidth width) (left right : Signal) :
    (left.merge width right).bitAt place =
      (left.contribution width place || right.contribution width place) := by
  rw [← bitAt_normalise inside left, ← bitAt_normalise inside right]
  by_cases narrow : width ≤ 1
  · simp only [merge, normalise, if_pos narrow, bitAt, Bool.and_or_distrib_left]
  · simp only [merge, normalise, if_neg narrow, bitAt, Bus.get_or]

/-- The clear signal of a width contributes nothing to a net of that width. -/
theorem contribution_zero (inside : place < clampWidth width) :
    (zero width).contribution width place = false := by
  rw [(hasForm_zero width).contribution inside, zero]
  split
  · simp only [bitAt, Bool.and_false]
  · simp only [bitAt, Bus.zero, Bus.get_ofNat, Nat.zero_testBit, Bool.and_false]

/-- Merging at a width joins signals in a semilattice, up to the form of the width. -/
structure MergesAt (width : Nat) : Prop where
  commutative : ∀ left right, merge width left right = merge width right left
  associative : ∀ first second third,
    merge width (merge width first second) third = merge width first (merge width second third)
  idempotent : ∀ signal, merge width signal signal = normalise width signal
  zero_left : ∀ signal, merge width (zero width) signal = normalise width signal
  zero_right : ∀ signal, merge width signal (zero width) = normalise width signal
  normalise_again : ∀ signal, normalise width (normalise width signal) = normalise width signal

/-- Merging joins signals at every width.

Proof: both sides of every law have the form of the width, and their bits are the same disjunctions of
contributions. -/
theorem mergesAt (width : Nat) : MergesAt width where
  commutative left right := by
    refine (hasForm_merge width left right).ext (hasForm_merge width right left) fun place inside => ?_
    rw [bitAt_merge inside, bitAt_merge inside, Bool.or_comm]
  associative first second third := by
    refine (hasForm_merge width _ third).ext (hasForm_merge width first _) fun place inside => ?_
    rw [bitAt_merge inside, bitAt_merge inside, (hasForm_merge width _ _).contribution inside,
      (hasForm_merge width _ _).contribution inside, bitAt_merge inside, bitAt_merge inside,
      Bool.or_assoc]
  idempotent signal := by
    refine (hasForm_merge width _ _).ext (hasForm_normalise width signal) fun place inside => ?_
    rw [bitAt_merge inside, bitAt_normalise inside, Bool.or_self]
  zero_left signal := by
    refine (hasForm_merge width _ _).ext (hasForm_normalise width signal) fun place inside => ?_
    rw [bitAt_merge inside, bitAt_normalise inside, contribution_zero inside, Bool.false_or]
  zero_right signal := by
    refine (hasForm_merge width _ _).ext (hasForm_normalise width signal) fun place inside => ?_
    rw [bitAt_merge inside, bitAt_normalise inside, contribution_zero inside, Bool.or_false]
  normalise_again := normalise_normalise width

end Signal

end Breadboard
