import Breadboard.Decimal.Notation
import Breadboard.Proofs.Json.Numerals
import Mathlib.Data.Nat.Basic

/-!
# Written doubles are numerals

The shortest decimal that is found for a finite double has a digit other than zero in front, unless the
double is zero. So in a file it is set out as a numeral: a whole part without a leading zero, a fraction
behind a point, an exponent with its sign.
-/

namespace Breadboard

namespace Decimal

/-- Powers are positive. -/
theorem tens_pos (exponent : Int) : 0 < tens exponent :=
  Nat.pow_pos (by decide)

/-- Powers are positive. -/
theorem twos_pos (exponent : Int) : 0 < twos exponent :=
  Nat.pow_pos (by decide)

/-- Nothing reads back to a number but what has digits. -/
theorem Binary.digits_pos_of_readsBack {x : Binary} (positive : 0 < x.m) {d : Numeral}
    (readsBack : x.readsBack d = true) : 0 < d.digits := by
  by_contra none
  have zero : d.digits = 0 := by omega
  have low : 0 < (if x.narrowBelow then 4 * x.m - 1 else 4 * x.m - 2) := by
    split <;> omega
  have below : compareScaled d.digits d.exponent
      (if x.narrowBelow then 4 * x.m - 1 else 4 * x.m - 2) (x.q - 2) = .lt := by
    rw [compareScaled, zero, Nat.zero_mul, Nat.zero_mul, Nat.compare_eq_lt]
    exact Nat.mul_pos (Nat.mul_pos low (twos_pos _)) (tens_pos _)
  rw [Binary.readsBack, below] at readsBack
  simp at readsBack

/-- Of the neighbours on a grid one is taken only if it has digits. -/
theorem Binary.digits_pos_of_onGrid? {x : Binary} (positive : 0 < x.m) {tie : Tie} {exponent : Int}
    {d : Numeral} (onGrid : x.onGrid? tie exponent = some d) : 0 < d.digits := by
  have upper : 0 < (⟨x.floorAt exponent + 1, exponent⟩ : Numeral).digits := Nat.succ_pos _
  unfold Binary.onGrid? at onGrid
  dsimp only at onGrid
  cases lowerReads : x.readsBack ⟨x.floorAt exponent, exponent⟩ with
  | false =>
    cases upperReads : x.readsBack ⟨x.floorAt exponent + 1, exponent⟩ with
    | false =>
      simp only [lowerReads, upperReads] at onGrid
      cases onGrid
    | true =>
      simp only [lowerReads, upperReads, Option.some.injEq] at onGrid
      exact onGrid ▸ upper
  | true =>
    have lower := digits_pos_of_readsBack positive lowerReads
    cases upperReads : x.readsBack ⟨x.floorAt exponent + 1, exponent⟩ with
    | false =>
      simp only [lowerReads, upperReads, Option.some.injEq] at onGrid
      exact onGrid ▸ lower
    | true =>
      simp only [lowerReads, upperReads] at onGrid
      split at onGrid
      · exact Option.some.inj onGrid ▸ upper
      · exact Option.some.inj onGrid ▸ lower
      · cases tie with
        | up => exact Option.some.inj onGrid ▸ upper
        | even =>
          obtain rfl := Option.some.inj onGrid
          split
          · exact lower
          · exact upper

/-- Moving zeros into the exponent leaves digits.

Proof: by induction on the digits. -/
theorem Numeral.digits_pos_of_strip {d : Numeral} (positive : 0 < d.digits) : 0 < d.strip.digits := by
  fun_induction Numeral.strip d with
  | case1 d zero => omega
  | case2 d _ tenfold inductionHypothesis => exact inductionHypothesis (by simp only; omega)
  | case3 d => exact positive

/-- The shortest decimal of a number that is not zero has digits. -/
theorem Binary.digits_pos_of_shortest {x : Binary} (positive : 0 < x.m) (tie : Tie) :
    0 < (x.shortest tie).digits := by
  refine Numeral.digits_pos_of_strip ?_
  cases found : ((List.range 17).map fun (n : Nat) => x.magnitude - (n : Int) - 1).findSome?
      (x.onGrid? tie) with
  | some d =>
    obtain ⟨exponent, _, onGrid⟩ := List.exists_of_findSome?_eq_some found
    exact x.digits_pos_of_onGrid? positive onGrid
  | none =>
    exact Nat.mul_pos (Nat.mul_pos positive (twos_pos _)) (Nat.pow_pos (by decide))

end Decimal

namespace Json

/-- The text is a numeral behind its sign, to its end. -/
def IsNumeral (text : List Char) : Prop :=
  ∀ negative, ∃ numeral, unsigned? negative text = some (numeral, [])

section

variable {digits rest : List Char} (all : ∀ c ∈ digits, c.isDigit = true)
  (ends : ∀ c ∈ rest.head?, c.isDigit = false)
include all ends

/-- Digits are split off in front of what is no digit. -/
theorem digitsOf_digits : digitsOf (digits ++ rest) = (digits, rest) := by
  have stops : rest.takeWhile Char.isDigit = [] ∧ rest.dropWhile Char.isDigit = rest := by
    cases rest with
    | nil => exact ⟨rfl, rfl⟩
    | cons c rest => simp [ends c rfl]
  rw [digitsOf, List.span_eq_takeWhile_dropWhile, List.takeWhile_append_of_pos all,
    List.dropWhile_append_of_pos all, stops.1, stops.2, List.append_nil]

/-- Digits without a leading zero are a whole part. -/
theorem wholePart?_digits (nonempty : digits ≠ []) (noZero : digits.head? ≠ some '0') :
    wholePart? (digits ++ rest) = some (digits, rest) := by
  obtain ⟨first, more, rfl⟩ := List.exists_cons_of_ne_nil nonempty
  have split := digitsOf_digits all ends
  unfold wholePart?
  split
  · next zero =>
    rw [List.cons_append] at zero
    exact absurd (congrArg some (List.cons.inj zero).1) noZero
  · rw [split]

/-- Digits behind a point are a fraction. -/
theorem fractionPart?_digits (nonempty : digits ≠ []) :
    fractionPart? ('.' :: (digits ++ rest)) = some (digits, rest) := by
  obtain ⟨first, more, rfl⟩ := List.exists_cons_of_ne_nil nonempty
  rw [fractionPart?, digitsOf_digits all ends]

end

/-- A signed number behind its mark is an exponent. -/
theorem exponentPart?_signed {sign : Char} (isSign : sign = '-' ∨ sign = '+') (n : Nat) :
    ∃ exponent, exponentPart? ('e' :: sign :: Text.decimal n) = some (exponent, []) := by
  have digits : digitsOf (Text.decimal n) = (Text.decimal n, []) := by
    have split : digitsOf (Text.decimal n ++ []) = (Text.decimal n, []) :=
      digitsOf_digits (Text.isDigit_of_mem_decimal n) nofun
    rwa [List.append_nil] at split
  rcases isSign with rfl | rfl
  · exact ⟨some (-(n : Int)), by simp [exponentPart?, digits, Text.value?_decimal]⟩
  · exact ⟨some (n : Int), by simp [exponentPart?, digits, Text.value?_decimal]⟩

/-- The parts of a numeral, one behind the other, make a numeral. -/
theorem isNumeral_of_parts {text behindWhole behindFraction whole fraction : List Char}
    {exponent : Option Int} (isWhole : wholePart? text = some (whole, behindWhole))
    (isFraction : fractionPart? behindWhole = some (fraction, behindFraction))
    (isExponent : exponentPart? behindFraction = some (exponent, [])) : IsNumeral text := by
  intro negative
  refine ⟨⟨negative, whole, fraction, exponent⟩, ?_⟩
  simp [unsigned?, isWhole, isFraction, isExponent]

/-- A numeral behind its sign is a numeral, with a minus in front or without. -/
theorem IsNumeral.numeral? {text : List Char} (isNumeral : IsNumeral text) (negative : Bool) :
    ∃ numeral, Json.numeral? ((if negative then ['-'] else []) ++ text) = some (numeral, []) := by
  cases negative with
  | true => exact isNumeral true
  | false =>
    obtain ⟨numeral, reads⟩ := isNumeral false
    refine ⟨numeral, ?_⟩
    cases text with
    | nil => cases reads
    | cons c text =>
      have noMinus : c ≠ '-' := by
        rintro rfl
        cases reads
      exact (numeral?_unsigned noMinus text).trans reads

/-- A whole part and a fraction with a point between them are a numeral. The whole part has no leading zero,
unless it is one. -/
theorem isNumeral_pointed {whole fraction : List Char} (allWhole : ∀ c ∈ whole, c.isDigit = true)
    (someWhole : whole ≠ []) (leads : whole.head? ≠ some '0' ∨ whole = ['0'])
    (allFraction : ∀ c ∈ fraction, c.isDigit = true) (someFraction : fraction ≠ []) :
    IsNumeral (whole ++ '.' :: fraction) := by
  have point : ∀ c ∈ ('.' :: fraction).head?, c.isDigit = false := by
    rintro c ⟨⟩
    rfl
  have isFraction : fractionPart? ('.' :: (fraction ++ [])) = some (fraction, []) :=
    fractionPart?_digits allFraction nofun someFraction
  rw [List.append_nil] at isFraction
  rcases leads with noZero | rfl
  · exact isNumeral_of_parts (wholePart?_digits allWhole point someWhole noZero) isFraction rfl
  · exact isNumeral_of_parts rfl isFraction rfl

/-- Digits with the point at their place are a numeral. -/
theorem isNumeral_positionalText {d : Decimal.Numeral} (positive : 0 < d.digits) :
    IsNumeral (Decimal.positionalText true d) := by
  obtain ⟨first, more, front, notZero⟩ := Text.decimal_eq_cons d.digits positive
  have all := Text.isDigit_of_mem_decimal d.digits
  have zeros (n : Nat) : ∀ c ∈ List.replicate n '0', c.isDigit = true := by
    intro c member
    rw [List.eq_of_mem_replicate member]
    rfl
  have noZero (rest : List Char) : (first :: rest).head? ≠ some '0' :=
    fun zero => notZero (Option.some.inj zero)
  rw [Decimal.positionalText]
  split
  · -- Zeros fill up to the point, and there is one behind it.
    have allWhole := List.forall_mem_append.mpr ⟨all, zeros d.exponent.toNat⟩
    rw [front] at allWhole ⊢
    exact isNumeral_pointed allWhole (List.cons_ne_nil _ _) (.inl (noZero _)) (zeros 1) (by decide)
  · have behind : 0 < (-d.exponent).toNat := by omega
    simp only
    generalize (-d.exponent).toNat = places at behind ⊢
    split
    · -- A zero stands before the point, and zeros fill up behind it.
      have allFraction := List.forall_mem_append.mpr
        ⟨zeros (places - (Text.decimal d.digits).length), all⟩
      exact isNumeral_pointed (zeros 1) (by decide) (.inr rfl) allFraction (by simp [front])
    · -- The point stands among the digits.
      next many =>
      obtain ⟨less, before⟩ : ∃ less, (Text.decimal d.digits).length - places = less + 1 :=
        ⟨(Text.decimal d.digits).length - places - 1, by omega⟩
      have some : (Text.decimal d.digits).drop (less + 1) ≠ [] := by
        rw [Ne, List.drop_eq_nil_iff]
        omega
      have allWhole : ∀ c ∈ (Text.decimal d.digits).take (less + 1), c.isDigit = true :=
        fun c member => all c (List.mem_of_mem_take member)
      have allFraction : ∀ c ∈ (Text.decimal d.digits).drop (less + 1), c.isDigit = true :=
        fun c member => all c (List.mem_of_mem_drop member)
      rw [before, List.append_assoc]
      rw [front, List.take_succ_cons] at allWhole ⊢
      rw [front] at allFraction some
      exact isNumeral_pointed allWhole (List.cons_ne_nil _ _) (.inl (noZero _)) allFraction some

/-- Digits with the point behind the first and an exponent are a numeral. -/
theorem isNumeral_scientificText {d : Decimal.Numeral} (positive : 0 < d.digits) :
    IsNumeral (Decimal.scientificText d) := by
  obtain ⟨first, more, front, notZero⟩ := Text.decimal_eq_cons d.digits positive
  have all := Text.isDigit_of_mem_decimal d.digits
  have isFirst : ∀ c ∈ [first], c.isDigit = true :=
    List.forall_mem_singleton.mpr (all first (front ▸ List.mem_cons_self))
  have noZero : [first].head? ≠ some '0' := fun zero => notZero (Option.some.inj zero)
  rw [Decimal.scientificText]
  simp only [front]
  generalize d.exponent + ((first :: more).length : Int) - 1 = leading
  have isSign : (if leading < 0 then '-' else '+') = '-' ∨ (if leading < 0 then '-' else '+') = '+' := by
    split <;> simp
  obtain ⟨exponent, isExponent⟩ := exponentPart?_signed isSign leading.natAbs
  have mark (text : List Char) : ∀ c ∈ ('e' :: text).head?, c.isDigit = false := by
    rintro c ⟨⟩
    rfl
  rw [List.append_assoc]
  cases more with
  | nil =>
    change IsNumeral ([first] ++ 'e' :: _)
    exact isNumeral_of_parts (wholePart?_digits isFirst (mark _) nofun noZero) rfl isExponent
  | cons second more =>
    have others : ∀ c ∈ second :: more, c.isDigit = true :=
      fun c member => all c (front ▸ List.mem_cons_of_mem _ member)
    change IsNumeral ([first] ++ '.' :: (second :: more ++ 'e' :: _))
    refine isNumeral_of_parts (wholePart?_digits isFirst ?_ nofun noZero)
      (fractionPart?_digits others (mark _) nofun) isExponent
    rintro c ⟨⟩
    rfl

/-- A double in the layout of files, but for its sign, is a numeral. -/
theorem isNumeral_write {d : Decimal.Numeral} (leads : 0 < d.digits ∨ d = ⟨0, 0⟩) :
    IsNumeral (Decimal.fileLayout.write d) := by
  rcases leads with positive | rfl
  · rw [Decimal.Layout.write]
    split
    · exact isNumeral_positionalText positive
    · exact isNumeral_scientificText positive
  · have written : Decimal.fileLayout.write ⟨0, 0⟩ = ['0', '.', '0'] := by
      simp [Decimal.Layout.write, Decimal.fileLayout, Decimal.positionalText, Text.decimal_zero]
    rw [written]
    exact isNumeral_of_parts rfl rfl rfl

/-- A double that is a number is written as a numeral. -/
theorem exists_numeral_of_writeReal {x : Float} (finite : x.isFinite = true) :
    ∃ numeral, numeral? (writeReal x) = some (numeral, []) := by
  rw [writeReal, if_pos finite, Decimal.Layout.writeFloat]
  set magnitude : Decimal.Numeral := if (Decimal.Binary.ofBits x.toBits).m = 0 then ⟨0, 0⟩
    else (Decimal.Binary.ofBits x.toBits).shortest Decimal.fileLayout.tie
  have leads : 0 < magnitude.digits ∨ magnitude = ⟨0, 0⟩ := by
    by_cases zero : (Decimal.Binary.ofBits x.toBits).m = 0
    · exact .inr (if_pos zero)
    · left
      rw [show magnitude = (Decimal.Binary.ofBits x.toBits).shortest Decimal.fileLayout.tie from
        if_neg zero]
      exact Decimal.Binary.digits_pos_of_shortest (Nat.pos_of_ne_zero zero) _
  have signed := (isNumeral_write leads).numeral? (decide (x.toBits.toNat ≥ signedLimit))
  simpa using signed

end Json

end Breadboard
