import Breadboard.Part.Oscillator
import Mathlib.Logic.Function.Iterate

/-!
# Counts of oscillators

An oscillator that toggles starts to count anew, and its half period is a number of 64 bits. So a count
that is advanced without a fault stays below the largest such number, whatever becomes of frequency and
interval, and it can be advanced again. A running one keeps exact time: it toggles once in every half
period.
-/

namespace Breadboard

/-- Half a period is a number of 64 bits. -/
theorem Frequency.halfPeriod_lt (frequency : Frequency) (interval : Nat) :
    frequency.halfPeriod interval < wordLimit := by
  have one : 1 < wordLimit := by decide
  unfold halfPeriod
  split
  · exact one
  · simp only
    split
    · exact UInt64.toNat_lt _
    · exact one

namespace Oscillator

variable {o : Oscillator} {interval : Nat}

/-- Whether it toggles or not, an oscillator that has counted can count again. -/
theorem tick_count_lt (o : Oscillator) (interval : Nat) : (o.count interval).tick + 1 < wordLimit := by
  have two : 0 + 1 < wordLimit := by decide
  unfold count
  split
  · exact two
  · next below =>
    exact Nat.lt_of_le_of_lt (Nat.not_le.mp below) (Frequency.halfPeriod_lt ..)

/-- An oscillator cannot advance only where its count is full. -/
theorem advance_error {fault : Fault} (faults : o.advance interval = .error fault) :
    fault = .countOverflow := by
  unfold advance at faults
  split at faults
  · cases faults
  · split at faults
    · cases faults
    · cases faults
      rfl

/-- The oscillator with its count raised by one, if it runs. -/
def ticked (o : Oscillator) : Oscillator :=
  if o.running then { o with tick := o.tick + 1 } else o

/-- The next tick does not toggle the oscillator. -/
def keepsPhase (interval : Nat) (o : Oscillator) : Bool :=
  !o.running || o.tick + 1 < o.frequency.halfPeriod interval

/-- Counting leaves the output. -/
@[simp] theorem output_ticked (o : Oscillator) : o.ticked.output = o.output := by
  unfold ticked
  split <;> rfl

/-- An oscillator that is not toggled counts on. -/
theorem advance_of_keepsPhase (keeps : o.keepsPhase interval = true) :
    o.advance interval = .ok o.ticked := by
  cases running : o.running with
  | false => simp [advance, ticked, running]
  | true =>
    have below : o.tick + 1 < o.frequency.halfPeriod interval := by
      simpa [keepsPhase, running] using keeps
    have room : o.tick + 1 < wordLimit := Nat.lt_trans below (Frequency.halfPeriod_lt ..)
    simp only [advance, ticked, count, running, Bool.not_true, Bool.false_eq_true, if_false, if_true,
      if_pos room, if_neg (Nat.not_le.mpr below)]

/-- The oscillator after a tick, if its count has room for one. A stopped one stays as it is. -/
def next (interval : Nat) (o : Oscillator) : Oscillator :=
  if o.running then o.count interval else o

/-- An oscillator that advances does what a tick with room does. -/
theorem next_of_advance {advanced : Oscillator} (advances : o.advance interval = .ok advanced) :
    o.next interval = advanced := by
  unfold advance at advances
  unfold next
  cases running : o.running with
  | false =>
    rw [running] at advances
    cases advances
    rfl
  | true =>
    rw [running] at advances
    simp only [Bool.not_true, Bool.false_eq_true, if_false] at advances
    split at advances
    · cases advances
      rfl
    · cases advances

/-- Ticks do not start a stopped oscillator or change it in any other way. -/
theorem next_iterate_of_stopped (stopped : o.running = false) (ticks : Nat) :
    (next interval)^[ticks] o = o := by
  refine Function.iterate_fixed ?_ ticks
  rw [next, stopped, if_neg (by decide)]

/-- Counting one further completes a part of some size or lies within one. -/
theorem div_mod_succ {size : Nat} (positive : 0 < size) (count : Nat) :
    (size ≤ count % size + 1 → (count + 1) / size = count / size + 1 ∧ (count + 1) % size = 0) ∧
      (count % size + 1 < size →
        (count + 1) / size = count / size ∧ (count + 1) % size = count % size + 1) := by
  have split : size * (count / size) + count % size = count := Nat.div_add_mod count size
  have within : count % size < size := Nat.mod_lt count positive
  constructor
  · intro completes
    have whole : count + 1 = size * (count / size + 1) := by
      rw [Nat.mul_add, Nat.mul_one]
      omega
    rw [whole]
    exact ⟨Nat.mul_div_cancel_left _ positive, Nat.mul_mod_right ..⟩
  · intro inside
    have parts : count + 1 = size * (count / size) + (count % size + 1) := by omega
    constructor
    · rw [parts, Nat.mul_add_div positive, Nat.div_eq_of_lt inside, Nat.add_zero]
    · rw [parts, Nat.mul_add_mod, Nat.mod_eq_of_lt inside]

/-- An oscillator whose count is below half its period is, after some ticks, as far in its period as
count and ticks make it, and has toggled once for every half period in them.

Proof: by induction on the ticks. A further one either completes a half period or does not. -/
theorem next_iterate (running : o.running = true) (below : o.tick < o.frequency.halfPeriod interval)
    (ticks : Nat) :
    (next interval)^[ticks] o =
      { o with
        tick := (o.tick + ticks) % o.frequency.halfPeriod interval
        state := not^[(o.tick + ticks) / o.frequency.halfPeriod interval] o.state } := by
  induction ticks with
  | zero => simp [Nat.mod_eq_of_lt below, Nat.div_eq_of_lt below]
  | succ ticks inductionHypothesis =>
    have positive : 0 < o.frequency.halfPeriod interval := Nat.zero_lt_of_lt below
    obtain ⟨completes, inside⟩ := div_mod_succ positive (o.tick + ticks)
    rw [Function.iterate_succ_apply', inductionHypothesis, ← Nat.add_assoc]
    simp only [next, running, if_true, count]
    split
    · next full =>
      obtain ⟨toggles, restarts⟩ := completes full
      rw [toggles, restarts, Function.iterate_succ_apply']
    · next short =>
      obtain ⟨keeps, counts⟩ := inside (Nat.lt_of_not_le short)
      rw [keeps, counts]

/-- An oscillator whose count has reached half its period already toggles in the first tick, and from
then on is as far as the further ticks make it. -/
theorem next_iterate_of_full (running : o.running = true)
    (positive : 0 < o.frequency.halfPeriod interval) (full : o.frequency.halfPeriod interval ≤ o.tick)
    (ticks : Nat) :
    (next interval)^[ticks + 1] o =
      { o with
        tick := ticks % o.frequency.halfPeriod interval
        state := not^[ticks / o.frequency.halfPeriod interval + 1] o.state } := by
  have first : o.next interval = { o with tick := 0, state := !o.state } := by
    rw [next, if_pos running, count, if_pos (Nat.le_succ_of_le full)]
  have further := next_iterate (o := { o with tick := 0, state := !o.state }) running positive ticks
  rw [Function.iterate_succ_apply, first, further, Function.iterate_succ_apply]
  simp only [Nat.zero_add]

end Oscillator

end Breadboard
