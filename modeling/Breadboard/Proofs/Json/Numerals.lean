import Breadboard.Json.Number
import Breadboard.Json.Writer
import Mathlib.Data.List.TakeDrop
import Mathlib.Data.List.TakeWhile

/-!
# Reading written numbers

An integer is written in decimal, and reading takes its digits off the front again: as many as there
are, up to whatever cannot go on a number. A numeral that was read from a text is read as well where
other text follows, unless this goes on the number.
-/

namespace Breadboard

namespace Text

/-- A number in decimal has a digit. -/
theorem decimal_ne_nil (n : Nat) : decimal n ≠ [] := by
  rw [decimal, digits]
  split <;> simp

/-- The characters that a number in decimal is written with are digits.

Proof: by induction on the number. -/
theorem isDigit_of_mem_decimal (n : Nat) : ∀ c ∈ decimal n, c.isDigit = true := by
  have each : ∀ d < 10, (digitChar d).isDigit = true := by decide
  induction n using Nat.strongRecOn with
  | ind n inductionHypothesis =>
    rw [decimal, digits]
    split
    · next small =>
      intro c member
      obtain rfl := List.mem_singleton.mp member
      exact each n (by omega)
    · next large =>
      rw [List.map_append]
      intro c member
      rcases List.mem_append.mp member with front | last
      · exact inductionHypothesis (n / 10) (by omega) c front
      · obtain rfl := List.mem_singleton.mp last
        exact each (n % 10) (by omega)

/-- Zero in decimal. -/
theorem decimal_zero : decimal 0 = ['0'] := by
  rw [decimal, digits]
  rfl

/-- A number other than zero is written without a zero in front.

Proof: by induction on the number. -/
theorem decimal_eq_cons (n : Nat) (positive : 0 < n) :
    ∃ first rest, decimal n = first :: rest ∧ first ≠ '0' := by
  have each : ∀ d < 10, 0 < d → digitChar d ≠ '0' := by decide
  induction n using Nat.strongRecOn with
  | ind n inductionHypothesis =>
    rw [decimal, digits]
    split
    · next small => exact ⟨digitChar n, [], rfl, each n (by omega) positive⟩
    · next large =>
      obtain ⟨first, rest, front, notZero⟩ := inductionHypothesis (n / 10) (by omega) (by omega)
      rw [decimal] at front
      exact ⟨first, rest ++ [digitChar (n % 10)], by rw [List.map_append, front]; rfl, notZero⟩

/-- Reading digits goes on where it stopped. -/
theorem valueFrom?_append (base before : Nat) (front back : List Char) :
    valueFrom? base before (front ++ back) =
      (valueFrom? base before front).bind fun value => valueFrom? base value back := by
  induction front generalizing before with
  | nil => rfl
  | cons c front inductionHypothesis =>
    rw [List.cons_append, valueFrom?, valueFrom?]
    cases digitValue? base c with
    | none => rfl
    | some d => exact inductionHypothesis _

/-- A number in decimal is read back.

Proof: by induction on the number. -/
theorem value?_decimal (n : Nat) : value? 10 (decimal n) = some n := by
  have each : ∀ d < 10, digitValue? 10 (digitChar d) = some d := by decide
  have front : ∀ n, valueFrom? 10 0 (decimal n) = some n := by
    intro n
    induction n using Nat.strongRecOn with
    | ind n inductionHypothesis =>
      rw [decimal, digits]
      split
      · next small => simp [valueFrom?, each n (by omega)]
      · next large =>
        have shorter := inductionHypothesis (n / 10) (by omega)
        rw [decimal] at shorter
        rw [List.map_append, valueFrom?_append, shorter]
        simp only [Option.bind_some, List.map_cons, List.map_nil, valueFrom?,
          each (n % 10) (by omega), Option.some.injEq]
        omega
  rw [value?, List.isEmpty_eq_false_iff.mpr (decimal_ne_nil n), if_neg Bool.false_ne_true, front]

end Text

namespace Json

/-- The number that a run of digits continues a number to. -/
def continued (significand : Nat) (digits : List Char) : Nat :=
  digits.foldl (fun before c => before * 10 + (c.toNat - 48)) significand

/-- Digits continue a number to one that is no smaller.

Proof: by induction on the digits. -/
theorem le_continued (significand : Nat) (digits : List Char) :
    significand ≤ continued significand digits := by
  induction digits generalizing significand with
  | nil => exact Nat.le_refl _
  | cons c rest inductionHypothesis =>
    have later := inductionHypothesis (significand * 10 + (c.toNat - 48))
    simp only [continued, List.foldl_cons] at later ⊢
    omega

/-- All digits are taken if what they continue the significand to fits.

Proof: by induction on the digits. -/
theorem takeDigits_eq (significand : Nat) (digits : List Char)
    (fits : continued significand digits < wordLimit) :
    takeDigits significand digits = (continued significand digits, 0) := by
  induction digits generalizing significand with
  | nil => rfl
  | cons c rest inductionHypothesis =>
    have later := le_continued (significand * 10 + (c.toNat - 48)) rest
    simp only [continued, List.foldl_cons] at fits later ⊢
    rw [takeDigits, if_pos (by omega)]
    exact inductionHypothesis _ fits

/-- The digits of a number make the number.

Proof: by induction on the number. -/
theorem continued_decimal (n : Nat) : continued 0 (Text.decimal n) = n := by
  have each : ∀ d < 10, (Text.digitChar d).toNat - 48 = d := by decide
  induction n using Nat.strongRecOn with
  | ind n inductionHypothesis =>
    rw [Text.decimal, Text.digits]
    split
    · next small => simp only [continued, List.map_cons, List.map_nil, List.foldl_cons, List.foldl_nil,
        Nat.zero_mul, Nat.zero_add, each n (by omega)]
    · next large =>
      have front := inductionHypothesis (n / 10) (by omega)
      rw [continued, Text.decimal] at front
      simp only [continued, List.map_append, List.map_cons, List.map_nil, List.foldl_append,
        List.foldl_cons, List.foldl_nil, front, each (n % 10) (by omega)]
      omega

/-- Reads the digits of an exponent behind its sign. -/
def exponentDigits? (negative : Bool) (text : List Char) : Option (Option Int × List Char) :=
  (Text.value? 10 (digitsOf text).1).map fun n =>
    (some (if negative then -(n : Int) else n), (digitsOf text).2)

/-- An exponent without a sign begins with its digits. -/
theorem exponentPart?_unsigned {mark sign : Char} (isMark : (mark == 'e' || mark == 'E') = true)
    (noMinus : sign ≠ '-') (noPlus : sign ≠ '+') (text : List Char) :
    exponentPart? (mark :: sign :: text) = exponentDigits? false (sign :: text) := by
  simp only [exponentPart?, isMark, if_true]
  split
  · next minus => exact absurd (List.cons.inj minus).1 noMinus
  · next plus => exact absurd (List.cons.inj plus).1 noPlus
  · rfl

/-- Reads a numeral behind its sign. -/
def unsigned? (negative : Bool) (text : List Char) : Option (Numeral × List Char) := do
  let (whole, text) ← wholePart? text
  let (fraction, text) ← fractionPart? text
  let (exponent, text) ← exponentPart? text
  return (⟨negative, whole, fraction, exponent⟩, text)

/-- A numeral without a minus begins with its whole part. -/
theorem numeral?_unsigned {c : Char} (noMinus : c ≠ '-') (text : List Char) :
    numeral? (c :: text) = unsigned? false (c :: text) := by
  simp only [numeral?, unsigned?]
  split
  · next minus => exact absurd (List.cons.inj minus).1 noMinus
  · rfl

/-- The text does not go on a number that stands in front of it. -/
def EndsNumber (text : List Char) : Prop :=
  ∀ c ∈ text.head?, c.isDigit = false ∧ c ≠ '.' ∧ c ≠ 'e' ∧ c ≠ 'E'

/-- Where nothing follows a number ends. -/
theorem endsNumber_nil : EndsNumber [] := by
  intro c isFirst
  cases isFirst

section

variable {text rest behind : List Char} (ends : EndsNumber rest)
include ends

/-- The digits at the front stay the same where text follows that does not go on a number.

Proof: by induction on the text. -/
theorem digitsOf_append (text : List Char) :
    digitsOf (text ++ rest) = ((digitsOf text).1, (digitsOf text).2 ++ rest) := by
  simp only [digitsOf, List.span_eq_takeWhile_dropWhile]
  induction text with
  | nil =>
    cases rest with
    | nil => rfl
    | cons c rest => simp [(ends c rfl).1]
  | cons c text inductionHypothesis =>
    simp only [List.cons_append, List.takeWhile_cons, List.dropWhile_cons]
    split
    · simpa using inductionHypothesis
    · rfl

/-- A whole part stays the same where text follows that does not go on a number. -/
theorem wholePart?_append {whole : List Char} (reads : wholePart? text = some (whole, behind)) :
    wholePart? (text ++ rest) = some (whole, behind ++ rest) := by
  cases text with
  | nil => cases reads
  | cons c text =>
    by_cases zero : c = '0'
    · subst zero
      cases reads
      rfl
    · have notZero (text : List Char) : wholePart? (c :: text) =
          if (digitsOf (c :: text)).1.isEmpty then none else some (digitsOf (c :: text)) := by
        unfold wholePart?
        split
        · next isZero => exact absurd (List.cons.inj isZero).1 zero
        · rcases digitsOf (c :: text) with ⟨_ | ⟨first, digits⟩, after⟩ <;> rfl
      rw [notZero] at reads
      rw [List.cons_append, notZero, ← List.cons_append, digitsOf_append ends]
      revert reads
      rcases digitsOf (c :: text) with ⟨_ | ⟨first, digits⟩, after⟩
      · rintro ⟨⟩
      · rintro ⟨⟩
        rfl

/-- A fraction, or its absence, stays the same where text follows that does not go on a number. -/
theorem fractionPart?_append {fraction : List Char}
    (reads : fractionPart? text = some (fraction, behind)) :
    fractionPart? (text ++ rest) = some (fraction, behind ++ rest) := by
  have noPoint {text : List Char} (absent : text.head? ≠ some '.') :
      fractionPart? text = some ([], text) := by
    unfold fractionPart?
    split
    · exact absurd rfl absent
    · rfl
  cases text with
  | nil =>
    cases reads
    exact noPoint fun point => (ends '.' point).2.1 rfl
  | cons c text =>
    by_cases point : c = '.'
    · subst point
      rw [fractionPart?] at reads
      rw [List.cons_append, fractionPart?, digitsOf_append ends]
      revert reads
      rcases digitsOf text with ⟨_ | ⟨first, digits⟩, after⟩
      · rintro ⟨⟩
      · rintro ⟨⟩
        rfl
    · have absent (text : List Char) : (c :: text).head? ≠ some '.' := by simpa using point
      rw [noPoint (absent text)] at reads
      cases reads
      exact noPoint (absent (text ++ rest))

/-- The digits of an exponent stay the same where text follows that does not go on a number. -/
theorem exponentDigits?_append (negative : Bool) {exponent : Option Int}
    (reads : exponentDigits? negative text = some (exponent, behind)) :
    exponentDigits? negative (text ++ rest) = some (exponent, behind ++ rest) := by
  obtain ⟨n, isValue, same⟩ := Option.map_eq_some_iff.mp reads
  rw [exponentDigits?, digitsOf_append ends, isValue]
  cases same
  rfl

/-- An exponent, or its absence, stays the same where text follows that does not go on a number. -/
theorem exponentPart?_append {exponent : Option Int}
    (reads : exponentPart? text = some (exponent, behind)) :
    exponentPart? (text ++ rest) = some (exponent, behind ++ rest) := by
  have noMark {c : Char} (absent : ¬ (c == 'e' || c == 'E') = true) (text : List Char) :
      exponentPart? (c :: text) = some (none, c :: text) := by
    simp only [exponentPart?, absent, Bool.false_eq_true, if_false]
  cases text with
  | nil =>
    cases reads
    cases rest with
    | nil => rfl
    | cons c rest =>
      obtain ⟨_, _, notSmall, notCapital⟩ := ends c rfl
      exact noMark (by simp [notSmall, notCapital]) rest
  | cons c text =>
    by_cases isMark : (c == 'e' || c == 'E') = true
    · cases text with
      | nil => simp [exponentPart?, isMark, digitsOf, Text.value?] at reads
      | cons sign digits =>
        simp only [List.cons_append]
        by_cases minus : sign = '-'
        · subst minus
          simp only [exponentPart?, isMark, if_true] at reads ⊢
          exact exponentDigits?_append ends true reads
        · by_cases plus : sign = '+'
          · subst plus
            simp only [exponentPart?, isMark, if_true] at reads ⊢
            exact exponentDigits?_append ends false reads
          · rw [exponentPart?_unsigned isMark minus plus] at reads ⊢
            exact exponentDigits?_append ends false reads
    · rw [noMark isMark] at reads
      cases reads
      exact noMark isMark (text ++ rest)

/-- A numeral behind its sign stays the same where text follows that does not go on a number. -/
theorem unsigned?_append (negative : Bool) {numeral : Numeral}
    (reads : unsigned? negative text = some (numeral, behind)) :
    unsigned? negative (text ++ rest) = some (numeral, behind ++ rest) := by
  obtain ⟨whole, isWhole, reads⟩ := Option.bind_eq_some_iff.mp reads
  obtain ⟨fraction, isFraction, reads⟩ := Option.bind_eq_some_iff.mp reads
  obtain ⟨exponent, isExponent, same⟩ := Option.bind_eq_some_iff.mp reads
  cases same
  simp only [unsigned?, bind, wholePart?_append ends isWhole, Option.bind_some,
    fractionPart?_append ends isFraction, exponentPart?_append ends isExponent]
  rfl

/-- A numeral stays the same where text follows that does not go on a number. -/
theorem numeral?_append {numeral : Numeral} (reads : numeral? text = some (numeral, behind)) :
    numeral? (text ++ rest) = some (numeral, behind ++ rest) := by
  cases text with
  | nil => cases reads
  | cons c text =>
    rw [List.cons_append]
    by_cases minus : c = '-'
    · subst minus
      exact unsigned?_append ends true reads
    · rw [numeral?_unsigned minus] at reads ⊢
      exact unsigned?_append ends false reads

/-- The whole part of a number in decimal is all of it. -/
theorem wholePart?_decimal (n : Nat) :
    wholePart? (Text.decimal n ++ rest) = some (Text.decimal n, rest) := by
  have own : wholePart? (Text.decimal n) = some (Text.decimal n, []) := by
    rcases Nat.eq_zero_or_pos n with rfl | positive
    · rw [Text.decimal_zero]
      rfl
    · obtain ⟨first, digits, front, notZero⟩ := Text.decimal_eq_cons n positive
      have all := Text.isDigit_of_mem_decimal n
      have whole : digitsOf (Text.decimal n) = (Text.decimal n, []) := by
        rw [digitsOf, List.span_eq_takeWhile_dropWhile, List.takeWhile_eq_self_iff.mpr all,
          List.dropWhile_eq_nil_iff.mpr all]
      unfold wholePart?
      split
      · next zero =>
        rw [front] at zero
        exact absurd (List.cons.inj zero).1 notZero
      · rw [whole, front]
  have appended := wholePart?_append ends own
  rwa [List.nil_append] at appended

/-- A number in decimal is a numeral behind its sign. -/
theorem unsigned?_decimal (negative : Bool) (n : Nat) :
    unsigned? negative (Text.decimal n ++ rest) = some (⟨negative, Text.decimal n, [], none⟩, rest) := by
  have noFraction : fractionPart? ([] ++ rest) = some ([], [] ++ rest) := fractionPart?_append ends rfl
  have noExponent : exponentPart? ([] ++ rest) = some (none, [] ++ rest) := exponentPart?_append ends rfl
  rw [List.nil_append] at noFraction noExponent
  simp only [unsigned?, bind, wholePart?_decimal ends, Option.bind_some, noFraction, noExponent]
  rfl

/-- A written integer is a numeral. -/
theorem numeral?_writeInteger (value : Int) :
    numeral? (writeInteger value ++ rest) =
      some (⟨decide (value < 0), Text.decimal value.natAbs, [], none⟩, rest) := by
  by_cases negative : value < 0
  · simp only [writeInteger, negative, if_true, decide_true]
    exact unsigned?_decimal ends true value.natAbs
  · obtain ⟨first, digits, front⟩ := List.exists_cons_of_ne_nil (Text.decimal_ne_nil value.natAbs)
    have noMinus : first ≠ '-' := by
      rintro rfl
      have isDigit := Text.isDigit_of_mem_decimal value.natAbs '-' (front ▸ List.mem_cons_self)
      exact absurd isDigit (by decide)
    have isUnsigned := unsigned?_decimal ends false value.natAbs
    simp only [writeInteger, negative, if_false, decide_false, List.nil_append]
    rw [front, List.cons_append] at isUnsigned ⊢
    rw [numeral?_unsigned noMinus]
    exact isUnsigned

end

/-- A numeral begins with a minus or a digit. -/
theorem head_of_numeral? {text behind : List Char} {numeral : Numeral}
    (reads : numeral? text = some (numeral, behind)) :
    ∃ c rest, text = c :: rest ∧ (c == '-' || c.isDigit) = true := by
  cases text with
  | nil => cases reads
  | cons c text =>
    refine ⟨c, text, rfl, ?_⟩
    by_cases isFirst : (c == '-' || c.isDigit) = true
    · exact isFirst
    · simp only [Bool.or_eq_true, beq_iff_eq, not_or, Bool.not_eq_true] at isFirst
      obtain ⟨noMinus, noDigit⟩ := isFirst
      have nothing : wholePart? (c :: text) = none := by
        unfold wholePart?
        split
        · next zero =>
          rw [(List.cons.inj zero).1] at noDigit
          exact absurd noDigit (by decide)
        · simp [digitsOf, List.span_eq_takeWhile_dropWhile, noDigit]
      rw [numeral?_unsigned noMinus, unsigned?, nothing] at reads
      cases reads

/-- An integer that fits a word, signed or not, is the value that it is written as. -/
theorem value_writeInteger {value : Int} (least : -signedLimit ≤ value) (most : value < wordLimit) :
    (Numeral.value ⟨decide (value < 0), Text.decimal value.natAbs, [], none⟩) = .integer value := by
  have fits : value.natAbs < wordLimit := by
    simp only [signedLimit, wordLimit] at *
    omega
  have taken : takeDigits 0 (Text.decimal value.natAbs) = (value.natAbs, 0) := by
    rw [takeDigits_eq 0 _ (by rwa [continued_decimal]), continued_decimal]
  simp only [Numeral.value, taken]
  by_cases negative : value < 0
  · have positive : 0 < value.natAbs := by omega
    have small : value.natAbs ≤ signedLimit := by omega
    have isValue : -(value.natAbs : Int) = value := by omega
    simp only [List.isEmpty_nil, Option.isNone_none, Bool.and_self, BEq.rfl, negative, decide_true,
      Bool.not_true, Bool.and_false, Bool.false_eq_true, if_false, positive, small, if_true, isValue]
  · have isValue : (value.natAbs : Int) = value := by omega
    simp only [List.isEmpty_nil, Option.isNone_none, Bool.and_self, BEq.rfl, negative, decide_false,
      Bool.not_false, if_true, isValue]

end Json

end Breadboard
