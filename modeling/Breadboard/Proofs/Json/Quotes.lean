import Breadboard.Json.Text
import Mathlib.Tactic.SplitIfs

/-!
# Reading written texts

A text is written between quotes, character by character, with escapes for the quote, the backslash and
the controls. Reading takes one step for every character and stops behind the closing quote, whatever
follows.
-/

namespace Breadboard.Json

/-- A control is written as a numeric escape that is read as its code. -/
theorem codeUnit?_hexLower {unit : Nat} (small : unit < 0x20) (rest : List Char) :
    codeUnit? (Text.hexLower 4 unit ++ rest) = some (unit, rest) := by
  have each : ∀ unit < 0x20, Text.value? 16 (Text.hexLower 4 unit) = some unit := by decide
  have four : Text.hexLower 4 unit = [Text.digitChar (unit >>> 12 % 16), Text.digitChar (unit >>> 8 % 16),
      Text.digitChar (unit >>> 4 % 16), Text.digitChar (unit >>> 0 % 16)] := rfl
  have isValue := each unit small
  rw [four] at isValue ⊢
  simp only [List.cons_append, List.nil_append, codeUnit?, isValue, Option.map_some]

/-- A written character is read in one step. -/
theorem readText_escapeChar (steps : Nat) (read : List Char) (c : Char) (rest : List Char) :
    readText (steps + 1) (some read) (escapeChar c ++ rest) = readText steps (some (c :: read)) rest := by
  unfold escapeChar
  split_ifs with quote backslash backspace tab lineFeed formFeed carriageReturn control
  · rw [beq_iff_eq.mp quote]; rfl
  · rw [beq_iff_eq.mp backslash]; rfl
  · rw [beq_iff_eq.mp backspace]; rfl
  · rw [beq_iff_eq.mp tab]; rfl
  · rw [beq_iff_eq.mp lineFeed]; rfl
  · rw [beq_iff_eq.mp formFeed]; rfl
  · rw [beq_iff_eq.mp carriageReturn]; rfl
  · have noSurrogate : escapedChar c.toNat rest = (some c, rest) := by
      have notHigh : isHighSurrogate c.toNat = false := by simp [isHighSurrogate]; omega
      have notLow : isLowSurrogate c.toNat = false := by simp [isLowSurrogate]; omega
      simp [escapedChar, notHigh, notLow, Char.ofNat_toNat]
    have isUnit := codeUnit?_hexLower control rest
    simp [readText, isUnit, noSurrogate]
  · simp [readText, quote, backslash, control]

/-- A character is written with at least one. -/
theorem escapeChar_ne_nil (c : Char) : escapeChar c ≠ [] := by
  unfold escapeChar
  split_ifs <;> simp

/-- A written text is no shorter than the text.

Proof: by induction on the characters. -/
theorem length_le_escaped (text : List Char) : text.length ≤ (text.flatMap escapeChar).length := by
  induction text with
  | nil => exact Nat.le_refl _
  | cons c text inductionHypothesis =>
    have some := List.length_pos_iff.mpr (escapeChar_ne_nil c)
    rw [List.flatMap_cons, List.length_append, List.length_cons]
    omega

/-- The characters of a text are read one by one, up to the closing quote.

Proof: by induction on the characters. -/
theorem readText_escaped (text read rest : List Char) {steps : Nat} (enough : text.length < steps) :
    readText steps (some read) (text.flatMap escapeChar ++ '"' :: rest) =
      some (some (String.ofList (read.reverse ++ text)), rest) := by
  induction text generalizing read steps with
  | nil =>
    obtain ⟨more, rfl⟩ := Nat.exists_eq_add_one_of_ne_zero (Nat.ne_zero_of_lt enough)
    simp [readText]
  | cons c text inductionHypothesis =>
    obtain ⟨more, rfl⟩ := Nat.exists_eq_add_one_of_ne_zero (Nat.ne_zero_of_lt enough)
    rw [List.flatMap_cons, List.append_assoc, readText_escapeChar,
      inductionHypothesis _ (Nat.lt_of_succ_lt_succ enough)]
    simp

/-- A written text is its quote, its characters and its quote. -/
theorem quote_append (text : String) (rest : List Char) :
    quote text ++ rest = '"' :: (text.toList.flatMap escapeChar ++ '"' :: rest) := by
  simp [quote]

/-- A written text is read as the text, whatever follows. -/
theorem text?_quoted (text : String) (rest : List Char) :
    text? (text.toList.flatMap escapeChar ++ '"' :: rest) = some (some text, rest) := by
  have length := length_le_escaped text.toList
  have enough : text.toList.length < (text.toList.flatMap escapeChar ++ '"' :: rest).length + 1 := by
    rw [List.length_append, List.length_cons]
    omega
  rw [text?, readText_escaped _ _ _ enough, List.reverse_nil, List.nil_append, String.ofList_toList]

end Breadboard.Json
