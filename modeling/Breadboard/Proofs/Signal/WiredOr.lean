import Breadboard.Net.Basic
import Mathlib.Data.List.Perm.Basic

/-!
# The wired or

What is on a net depends on what its sources drive and not on their order: on a net of one bit the
sources are added bit by bit, on a wider one bus by bus, and what is added to a bus of the width of the
net was brought to that width before.
-/

namespace Breadboard

namespace Bus

/-- Buses of one width with the same bits are equal. -/
theorem ext_word {left right : Bus} (width : left.width = right.width)
    (word : left.word = right.word) : left = right := by
  obtain ⟨_, _, _, _, _⟩ := left
  obtain ⟨_, _, _, _, _⟩ := right
  simp only at width word
  subst width
  subst word
  rfl

/-- A bus that has a width already keeps its bits when it is brought to that width. -/
theorem resize_of_width {bus : Bus} {width : Nat} (same : bus.width = clampWidth width) :
    bus.resize width = bus := by
  refine ext_word same.symm ?_
  have fits : bus.word < bitWeight (clampWidth width) := same ▸ bus.word_lt
  exact Nat.mod_eq_of_lt fits

end Bus

namespace Signal

/-- A signal in the form of a width is in that form. -/
@[simp] theorem normalise_normalise (width : Nat) (signal : Signal) :
    (signal.normalise width).normalise width = signal.normalise width := by
  by_cases narrow : width ≤ 1
  · simp only [normalise, if_pos narrow, toBool]
  · simp only [normalise, if_neg narrow]
    exact congrArg Signal.bus (Bus.resize_of_width (toBus_width width signal))

/-- On a wide net the sum so far is a bus of the width of the net. -/
theorem toBus_merge {width : Nat} (wide : ¬ width ≤ 1) (left right : Signal) :
    (left.merge width right).toBus width =
      (left.toBus width).or (right.toBus width) (by simp) := by
  rw [merge, if_neg wide]
  exact Bus.resize_of_width (toBus_width width left)

/-- Two further sources may change places. -/
theorem merge_right_comm (width : Nat) (total first second : Signal) :
    (total.merge width first).merge width second = (total.merge width second).merge width first := by
  by_cases narrow : width ≤ 1
  · simp only [merge, if_pos narrow, toBool]
    rw [Bool.or_right_comm]
  · have added (left right : Signal) : ((total.merge width left).merge width right) =
        .bus (((total.merge width left).toBus width).or (right.toBus width) (by simp)) := by
      rw [merge, if_neg narrow]
    rw [added, added]
    congr 1
    refine Bus.ext_word ((toBus_width width _).trans (toBus_width width _).symm) ?_
    simp only [toBus_merge narrow, Bus.or]
    rw [Nat.or_assoc, Nat.or_comm (first.toBus width).word, ← Nat.or_assoc]

instance (width : Nat) : RightCommutative (merge width) :=
  ⟨merge_right_comm width⟩

end Signal

/-- The wired or does not depend on the order of the sources. -/
theorem Net.foldl_merge_of_perm {width : Nat} {left right : List Signal} (perm : left.Perm right)
    (total : Signal) :
    left.foldl (fun total signal => total.merge width signal) total =
      right.foldl (fun total signal => total.merge width signal) total :=
  perm.foldl_eq total

end Breadboard
