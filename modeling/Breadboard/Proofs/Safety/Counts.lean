import Breadboard.Proofs.Engine.Invariant
import Breadboard.Proofs.Engine.Settlement
import Breadboard.Proofs.Part.Counting

/-!
# Counts that can be raised

An oscillator whose count was raised in a tick toggled and starts anew, or has not come to half its
period yet, which is a number of 64 bits. So an evaluation leaves every count of its level below the
greatest number that was below it before, whatever the frequencies are.
-/

namespace Breadboard

namespace Node

/-- The count of the node is below a limit, if it is an oscillator. -/
def CountBelow (limit : Nat) (node : Node Circuit) : Prop :=
  ∀ oscillator, node.part = .clock oscillator → oscillator.tick < limit

/-- The count is below the greatest number afterwards if it was before. -/
def KeepsCount (before after : Node Circuit) : Prop :=
  before.CountBelow (wordLimit - 1) → after.CountBelow (wordLimit - 1)

theorem KeepsCount.refl (node : Node Circuit) : node.KeepsCount node :=
  id

theorem KeepsCount.trans {first second third : Node Circuit} (one : first.KeepsCount second)
    (two : second.KeepsCount third) : first.KeepsCount third :=
  two ∘ one

/-- A node with the part that it had has the count that it had. -/
theorem KeepsCount.of_part {before after : Node Circuit} (same : after.part = before.part) :
    before.KeepsCount after := by
  intro below oscillator isClock
  exact below oscillator (same ▸ isClock)

/-- A node that is no oscillator has no count. -/
theorem KeepsCount.of_not_clock {before after : Node Circuit}
    (notClock : ∀ oscillator, after.part ≠ .clock oscillator) : before.KeepsCount after :=
  fun _ oscillator isClock => absurd isClock (notClock oscillator)

/-- The beginning of a tick leaves a count that can be raised, whether it faults or not. -/
theorem keepsCount_begun (interval : Nat) (node : Node Circuit) :
    node.KeepsCount (node.begun interval) := by
  intro below
  cases part : node.part with
  | clock oscillator =>
    have own := below oscillator part
    intro after isClock
    simp only [begun, beginTick, part, Oscillator.advance] at isClock
    cases running : oscillator.running with
    | false =>
      simp only [running, Bool.not_false, if_true, quieted, Part.clock.injEq] at isClock
      exact isClock ▸ own
    | true =>
      have room : oscillator.tick + 1 < wordLimit := by omega
      simp only [running, Bool.not_true, Bool.false_eq_true, if_false, if_pos room, quieted,
        Part.clock.injEq] at isClock
      have counted := oscillator.tick_count_lt interval
      rw [isClock] at counted
      omega
  | _ =>
    refine KeepsCount.of_part ?_ below
    simp only [begun, beginTick, quieted, part]

/-- An evaluation keeps counts below the greatest number. -/
theorem invariant_keepsCount :
    Invariant KeepsCount (fun _ => True) (fun _ => True) fun _ => True where
  refl := KeepsCount.refl
  trans := KeepsCount.trans
  staged _ _ := .of_part rfl
  quieted node := by
    refine .of_part ?_
    unfold quieted
    split <;> rfl
  begun := keepsCount_begun
  shown _ _ := .of_part rfl
  stepped node notChip := by
    obtain ⟨label, position, part, inputs, outputs⟩ := node
    cases part with
    | clock oscillator => exact .of_part rfl
    | resize direction => exact .of_not_clock (by cases direction <;> simp [step, setOutput])
    | _ => exact .of_not_clock (by simp [step, setOutput])
  enclosed _ _ _ _ _ _ := .of_not_clock (by simp [enclosing])
  abandoned _ _ _ _ _ _ := .of_not_clock (by simp)
  driven _ _ _ := trivial
  lasts _ _ := trivial
  inner _ _ _ _ _ _ := trivial
  asked _ _ := trivial

end Node

namespace Circuit

/-- The counts of the oscillators of the level are below a limit. -/
def CountsBelow (limit : Nat) (circuit : Circuit) : Prop :=
  ∀ id node, circuit.node? id = some node → node.CountBelow limit

/-- Where nodes are kept, so are counts below the greatest number. -/
theorem CountsBelow.of_related {before after : Circuit}
    (counts : before.CountsBelow (wordLimit - 1)) (related : Related Node.KeepsCount before after) :
    after.CountsBelow (wordLimit - 1) := by
  intro id node found
  obtain ⟨original, foundBefore, kept⟩ := related.origin found
  exact kept (counts id original foundBefore)

/-- Counts below the greatest number can be raised. -/
theorem CountsBelow.advances {circuit : Circuit} (counts : circuit.CountsBelow (wordLimit - 1)) :
    circuit.Advances := by
  intro id node oscillator found isClock _
  have below := counts id node found oscillator isClock
  omega

end Circuit

end Breadboard
