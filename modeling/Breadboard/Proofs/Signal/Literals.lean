import Breadboard.Proofs.Circuit.Places
import Breadboard.Proofs.Signal.Bits
import Breadboard.Proofs.Wave.Words
import Breadboard.Signal.Literal
import Mathlib.Tactic.Ring

/-!
# Literals and what is shown

A signal can be written down as a number in three ways: in base sixteen with as many digits as its width asks
for, in base two with one digit for each bit, in decimal with as many digits as the number takes. In the form
of a width, a signal is told by its number, so each of the three, read for that width, gives the signal
again. Blanks around it and the case of its letters make no difference. What is read from any text has the
form of the width. What is shown to a user names the width of a bus along with the number, so it tells all
signals apart, of whatever widths.
-/

namespace Breadboard

namespace Text

section Case

/-- Characters before the capital letters stay as they are where capitals become small. -/
theorem toLower_of_lt {c : Char} (before : c.toNat < 65) : c.toLower = c := by
  have notCapital : ¬ (c.val ≥ 'A'.val ∧ c.val ≤ 'Z'.val) := by
    rintro ⟨least, _⟩
    have lower : 65 ≤ c.toNat := UInt32.le_iff_toNat_le.mp least
    omega
  exact dif_neg notCapital

/-- A character is blank in either case, or in none. -/
theorem isBlank_toLower (c : Char) : isBlank c.toLower = isBlank c := by
  by_cases capital : c.toNat < 91
  · have each : ∀ n < 91, isBlank (Char.ofNat n).toLower = isBlank (Char.ofNat n) := by decide
    have here := each c.toNat capital
    rwa [Char.ofNat_toNat] at here
  · have notCapital : ¬ (c.val ≥ 'A'.val ∧ c.val ≤ 'Z'.val) := by
      rintro ⟨_, most⟩
      have upper : c.toNat ≤ 90 := UInt32.le_iff_toNat_le.mp most
      omega
    exact congrArg isBlank (dif_neg notCapital)

/-- Digits have no case. -/
theorem lowerAscii_of_digits {text : List Char} (digits : ∀ c ∈ text, c.isDigit = true) :
    lowerAscii text = text := by
  have each : ∀ c ∈ text, c.toLower = c := by
    intro c member
    have range : 48 ≤ c.toNat ∧ c.toNat ≤ 57 := by
      simpa [Char.isDigit, UInt32.le_iff_toNat_le] using digits c member
    exact toLower_of_lt (by omega)
  rw [lowerAscii, List.map_congr_left each, List.map_id']

/-- Texts that differ in the case of letters only are both free of blanks, or neither is. -/
theorem solid_of_lowerAscii_eq {left right : List Char} (same : lowerAscii left = lowerAscii right)
    (solid : ∀ c ∈ right, isBlank c = false) : ∀ c ∈ left, isBlank c = false := by
  intro c member
  have lowered : c.toLower ∈ lowerAscii right := same ▸ List.mem_map_of_mem member
  obtain ⟨other, inRight, alike⟩ := List.mem_map.mp lowered
  rw [← isBlank_toLower, ← alike, isBlank_toLower]
  exact solid other inRight

end Case

section Trimming

/-- There are no blanks at the front of a text without blanks. -/
theorem dropWhile_isBlank_of_solid {text : List Char} (solid : ∀ c ∈ text, isBlank c = false) :
    text.dropWhile isBlank = text := by
  cases text with
  | nil => rfl
  | cons c rest =>
    have head : ¬ isBlank c = true := Bool.eq_false_iff.mp (solid c List.mem_cons_self)
    exact List.dropWhile_cons_of_neg head

/-- Blanks at both ends of a text without blanks are dropped. -/
theorem trim_around {before body after : List Char} (blankBefore : ∀ c ∈ before, isBlank c = true)
    (blankAfter : ∀ c ∈ after, isBlank c = true) (nonempty : body ≠ [])
    (solid : ∀ c ∈ body, isBlank c = false) : trim (before ++ body ++ after) = body := by
  obtain ⟨c, rest, rfl⟩ := List.exists_cons_of_ne_nil nonempty
  have head : ¬ isBlank c = true := Bool.eq_false_iff.mp (solid c List.mem_cons_self)
  have front : trimStart (before ++ (c :: rest) ++ after) = (c :: rest) ++ after := by
    rw [trimStart, List.append_assoc, List.dropWhile_append_of_pos blankBefore]
    exact List.dropWhile_cons_of_neg head
  have blankBehind : ∀ c ∈ after.reverse, isBlank c = true := fun c member =>
    blankAfter c (List.mem_reverse.mp member)
  have solidBehind : ∀ d ∈ (c :: rest).reverse, isBlank d = false := fun d member =>
    solid d (List.mem_reverse.mp member)
  rw [trim, front, trimEnd, List.reverse_append, List.dropWhile_append_of_pos blankBehind,
    dropWhile_isBlank_of_solid solidBehind, List.reverse_reverse]

end Trimming

section Digits

/-- A digit in base sixteen is read in either case, it is not blank and no separator. -/
theorem digitCharUpper_spec {d : Nat} (small : d < 16) :
    digitValue? 16 (digitCharUpper d).toLower = some d ∧ isBlank (digitCharUpper d) = false ∧
      (digitCharUpper d).toLower ≠ '_' ∧ (digitCharUpper d).toLower ≠ '+' := by
  have each : ∀ d < 16, digitValue? 16 (digitCharUpper d).toLower = some d ∧
      isBlank (digitCharUpper d) = false ∧ (digitCharUpper d).toLower ≠ '_' ∧
      (digitCharUpper d).toLower ≠ '+' := by decide
  exact each d small

/-- The characters of a number in base sixteen are digits. -/
theorem exists_of_mem_hexUpper {count n : Nat} {c : Char} (member : c ∈ hexUpper count n) :
    ∃ d < 16, c = digitCharUpper d := by
  obtain ⟨place, _, rfl⟩ := List.mem_map.mp member
  exact ⟨_, Nat.mod_lt _ (by decide), rfl⟩

/-- One more digit in base sixteen stands in front of the others. -/
theorem hexUpper_succ (count n : Nat) :
    hexUpper (count + 1) n = digitCharUpper (n >>> (4 * count) % 16) :: hexUpper count n := by
  rw [hexUpper, List.range_succ, List.reverse_append, List.map_append]
  rfl

/-- The lowest digits of a number in base sixteen are read back, in either case of letters.

Proof: by induction on how many there are, for any value before them. -/
theorem valueFrom?_hexUpper (count n before : Nat) :
    valueFrom? 16 before (lowerAscii (hexUpper count n)) = some (before * 16 ^ count + n % 16 ^ count) := by
  induction count generalizing before with
  | zero => simp [hexUpper, lowerAscii, valueFrom?, Nat.mod_one]
  | succ count inductionHypothesis =>
    have digit : n >>> (4 * count) % 16 < 16 := Nat.mod_lt _ (by decide)
    have place : n >>> (4 * count) = n / 16 ^ count := by
      rw [Nat.shiftRight_eq_div_pow, Nat.pow_mul]
    rw [hexUpper_succ, lowerAscii, List.map_cons, valueFrom?, (digitCharUpper_spec digit).1]
    refine (inductionHypothesis _).trans (congrArg some ?_)
    rw [place, Nat.mod_pow_succ, Nat.pow_succ]
    ring

/-- A number that is written without a sign is read if it is below the limit. -/
theorem whole?_unsigned {base limit n : Nat} {text : List Char} (unsigned : ∀ c ∈ text, c ≠ '+')
    (reads : value? base text = some n) (below : n < limit) : whole? base limit text = some n := by
  have found : (value? base text).filter (· < limit) = some n := by
    rw [reads, Option.filter_some, if_pos (decide_eq_true below)]
  unfold whole?
  split
  · next rest => exact absurd rfl (unsigned '+' List.mem_cons_self)
  · exact found

end Digits

end Text

namespace Signal

variable {width : Nat} {signal : Signal}

/-- The ways to write the number of a signal. -/
inductive Writes (signal : Signal) : List Char → Prop
  | hex : Writes signal ('0' :: 'x' :: signal.hex)
  | binary : Writes signal ('0' :: 'b' :: signal.binary)
  | decimal : Writes signal (Text.decimal signal.toNat)

section Numbers

/-- The number of a signal has no bit beyond the width, and it fits a machine word. -/
theorem toNat_lt (signal : Signal) : signal.toNat < 2 ^ signal.width ∧ signal.toNat < wordLimit := by
  cases signal with
  | bit value => cases value <;> decide
  | bus lanes => exact ⟨lanes.word_lt, lanes.fits.2⟩

/-- A signal has a bit. -/
theorem width_pos (signal : Signal) : 1 ≤ signal.width := by
  cases signal with
  | bit value => exact Nat.le_refl 1
  | bus lanes => exact lanes.width_pos

/-- The digits in base sixteen are enough for the number. -/
theorem toNat_lt_hex (signal : Signal) : signal.toNat < 16 ^ ((signal.width + 3) / 4) := by
  have enough : 2 ^ signal.width ≤ 2 ^ (4 * ((signal.width + 3) / 4)) :=
    Nat.pow_le_pow_right Nat.zero_lt_two (by omega)
  rw [Nat.pow_mul] at enough
  exact Nat.lt_of_lt_of_le signal.toNat_lt.1 enough

/-- A signal in the form of a width is what its number is read as at that width. -/
theorem HasForm.of_toNat (form : signal.HasForm width) :
    (if width ≤ 1 then bit (signal.toNat != 0) else bus (Bus.ofNat signal.toNat width)) = signal := by
  rw [HasForm, normalise] at form
  by_cases narrow : width ≤ 1
  · rw [if_pos narrow] at form ⊢
    rw [← form]
    cases signal.toBool <;> rfl
  · rw [if_neg narrow] at form ⊢
    cases signal with
    | bit value => exact absurd form Signal.noConfusion
    | bus lanes => exact form

end Numbers

section Writing

/-- The digits in base two are zeros and ones. -/
theorem isDigit_of_mem_binary {c : Char} (member : c ∈ signal.binary) : c.isDigit = true := by
  cases signal with
  | bit value =>
    obtain rfl := List.mem_singleton.mp member
    cases value <;> rfl
  | bus lanes => rcases Bus.mem_render member with rfl | rfl <;> rfl

/-- What is written for a signal starts with a digit. -/
theorem Writes.head {written : List Char} (writes : signal.Writes written) :
    ∃ c rest, Text.lowerAscii written = c :: rest ∧ c.isDigit = true := by
  cases writes with
  | hex => exact ⟨'0', _, rfl, rfl⟩
  | binary => exact ⟨'0', _, rfl, rfl⟩
  | decimal =>
    have digits := Text.isDigit_of_mem_decimal signal.toNat
    obtain ⟨c, rest, shape⟩ := List.exists_cons_of_ne_nil (Text.decimal_ne_nil signal.toNat)
    refine ⟨c, rest, ?_, digits c (shape ▸ List.mem_cons_self)⟩
    rw [Text.lowerAscii_of_digits digits, shape]

/-- What is written for a signal has no blanks in it. -/
theorem Writes.solid {written : List Char} (writes : signal.Writes written) :
    ∀ c ∈ written, Text.isBlank c = false := by
  cases writes with
  | hex =>
    have solid : ∀ c ∈ signal.hex, Text.isBlank c = false := by
      intro c member
      obtain ⟨d, small, rfl⟩ := Text.exists_of_mem_hexUpper member
      exact (Text.digitCharUpper_spec small).2.1
    exact List.forall_mem_cons.mpr ⟨rfl, List.forall_mem_cons.mpr ⟨rfl, solid⟩⟩
  | binary =>
    have solid : ∀ c ∈ signal.binary, Text.isBlank c = false := fun c member =>
      Text.isBlank_of_isDigit (isDigit_of_mem_binary member)
    exact List.forall_mem_cons.mpr ⟨rfl, List.forall_mem_cons.mpr ⟨rfl, solid⟩⟩
  | decimal => exact (Text.isWord_decimal _).solid

end Writing

section Reading

/-- A text that starts with a digit is none of the words for a bit. -/
theorem literalWord?_of_digit {c : Char} (digit : c.isDigit = true) (rest : List Char) :
    literalWord? (c :: rest) = none := by
  have differs (word : String) (letter : ∀ first ∈ word.toList.head?, first.isDigit = false) :
      String.ofList (c :: rest) ≠ word := by
    rintro rfl
    rw [String.toList_ofList] at letter
    rw [letter c rfl] at digit
    exact Bool.false_ne_true digit
  simp only [literalWord?, differs "true" (by simp), differs "on" (by simp), differs "high" (by simp),
    differs "false" (by simp), differs "off" (by simp), differs "low" (by simp), decide_false,
    Bool.or_false, if_neg Bool.false_ne_true]

/-- The digits of a signal in base sixteen are read as its number, in either case of letters. -/
theorem literalNumber?_hex (signal : Signal) :
    literalNumber? (Text.lowerAscii ('0' :: 'x' :: signal.hex)) = some signal.toNat := by
  have proper : ∀ c ∈ Text.lowerAscii signal.hex, c ≠ '_' ∧ c ≠ '+' := by
    intro c member
    obtain ⟨digit, inHex, rfl⟩ := List.mem_map.mp member
    obtain ⟨d, small, rfl⟩ := Text.exists_of_mem_hexUpper inHex
    exact (Text.digitCharUpper_spec small).2.2
  have plain : (Text.lowerAscii signal.hex).filter (· != '_') = Text.lowerAscii signal.hex :=
    List.filter_eq_self.mpr fun c member => bne_iff_ne.mpr (proper c member).1
  have nonempty : (Text.lowerAscii signal.hex).isEmpty = false := by
    have least := signal.width_pos
    obtain ⟨count, many⟩ : ∃ count, (signal.width + 3) / 4 = count + 1 :=
      ⟨(signal.width + 3) / 4 - 1, by omega⟩
    rw [hex, many, Text.hexUpper_succ]
    rfl
  have reads : Text.value? 16 (Text.lowerAscii signal.hex) = some signal.toNat := by
    rw [Text.value?, nonempty, if_neg Bool.false_ne_true, hex, Text.valueFrom?_hexUpper,
      Nat.mod_eq_of_lt signal.toNat_lt_hex, Nat.zero_mul, Nat.zero_add]
  change Text.whole? 16 wordLimit ((Text.lowerAscii signal.hex).filter (· != '_')) = _
  rw [plain]
  exact Text.whole?_unsigned (fun c member => (proper c member).2) reads signal.toNat_lt.2

/-- The digits of a signal in base two are read as its number. -/
theorem literalNumber?_binary (signal : Signal) :
    literalNumber? (Text.lowerAscii ('0' :: 'b' :: signal.binary)) = some signal.toNat := by
  have lowered : Text.lowerAscii signal.binary = signal.binary :=
    Text.lowerAscii_of_digits fun _ => isDigit_of_mem_binary
  change (Bus.ofBinary? (Text.lowerAscii signal.binary)).map Bus.word = _
  rw [lowered]
  cases signal with
  | bit value => cases value <;> rfl
  | bus lanes =>
    rw [binary, Bus.ofBinary?_render]
    rfl

/-- Digits alone are read in decimal. -/
theorem literalNumber?_of_digits {text : List Char} (digits : ∀ c ∈ text, c.isDigit = true) :
    literalNumber? text = Text.whole? 10 wordLimit text := by
  have second {c d : Char} {rest : List Char} (shape : text = c :: d :: rest) : d.isDigit = true :=
    digits d (shape ▸ List.mem_cons_of_mem c List.mem_cons_self)
  unfold literalNumber?
  split
  · exact absurd (second rfl) (by decide)
  · exact absurd (second rfl) (by decide)
  · rfl

/-- A signal in decimal is read as its number. -/
theorem literalNumber?_decimal (signal : Signal) :
    literalNumber? (Text.lowerAscii (Text.decimal signal.toNat)) = some signal.toNat := by
  have digits := Text.isDigit_of_mem_decimal signal.toNat
  have unsigned : ∀ c ∈ Text.decimal signal.toNat, c ≠ '+' := by
    rintro c member rfl
    exact absurd (digits '+' member) (by decide)
  rw [Text.lowerAscii_of_digits digits, literalNumber?_of_digits digits]
  exact Text.whole?_unsigned unsigned (Text.value?_decimal signal.toNat) signal.toNat_lt.2

/-- However it is written, the number of a signal is read. -/
theorem Writes.literalNumber? {written : List Char} (writes : signal.Writes written) :
    literalNumber? (Text.lowerAscii written) = some signal.toNat := by
  cases writes with
  | hex => exact literalNumber?_hex signal
  | binary => exact literalNumber?_binary signal
  | decimal => exact literalNumber?_decimal signal

/-- A signal in the form of a width is read back from what is written for it, whatever the case of letters
and whatever blanks are around. -/
theorem ofLiteral?_of_writes {written body before after : List Char} (form : signal.HasForm width)
    (writes : signal.Writes written) (caseless : Text.lowerAscii body = Text.lowerAscii written)
    (blankBefore : ∀ c ∈ before, Text.isBlank c = true)
    (blankAfter : ∀ c ∈ after, Text.isBlank c = true) : ofLiteral? width (before ++ body ++ after) = some signal := by
  obtain ⟨c, rest, shape, digit⟩ := writes.head
  have nonempty : body ≠ [] := by
    rintro rfl
    rw [shape] at caseless
    exact List.cons_ne_nil c rest caseless.symm
  have trimmed : Text.trim (before ++ body ++ after) = body :=
    Text.trim_around blankBefore blankAfter nonempty (Text.solid_of_lowerAscii_eq caseless writes.solid)
  have noWord : literalWord? (Text.lowerAscii written) = none := by
    rw [shape]
    exact literalWord?_of_digit digit rest
  simp only [ofLiteral?, trimmed, caseless, noWord, writes.literalNumber?, Option.map_some]
  exact congrArg some form.of_toNat

/-- What is read from a text has the form of the width. -/
theorem hasForm_of_ofLiteral? {text : List Char} (reads : ofLiteral? width text = some signal) :
    signal.HasForm width := by
  rw [ofLiteral?] at reads
  split at reads
  · next value word =>
    obtain rfl := Option.some.inj reads
    exact hasForm_normalise width (bit value)
  · next noWord =>
    obtain ⟨number, _, rfl⟩ := Option.map_eq_some_iff.mp reads
    by_cases narrow : width ≤ 1
    · rw [if_pos narrow, HasForm, normalise, if_pos narrow, toBool]
    · rw [if_neg narrow, HasForm, normalise, if_neg narrow]
      exact congrArg bus (Bus.resize_of_width rfl)

end Reading

section Showing

/-- A bus is shown by its width, a mark and its digits. -/
theorem format_bus (lanes : Bus) :
    (bus lanes).format = Text.decimal lanes.width ++ '\'' :: 'h' :: (bus lanes).hex := by
  rw [format, List.append_assoc]
  rfl

/-- The width of a bus stands in front of the mark. -/
theorem takeWhile_format_bus (lanes : Bus) :
    (bus lanes).format.takeWhile Char.isDigit = Text.decimal lanes.width := by
  rw [format_bus, List.takeWhile_append_of_pos (Text.isDigit_of_mem_decimal lanes.width),
    List.takeWhile_cons_of_neg (by decide), List.append_nil]

/-- A bit is shown as a digit, without a mark. -/
theorem format_bit_ne_format_bus (value : Bool) (lanes : Bus) : (bit value).format ≠ (bus lanes).format := by
  intro same
  have mark : '\'' ∈ (bit value).format := by
    rw [same, format_bus]
    exact List.mem_append_right _ List.mem_cons_self
  cases value <;> exact absurd mark (by decide)

/-- Buses that are shown alike are equal. -/
theorem eq_of_format_bus_eq {left right : Bus} (same : (bus left).format = (bus right).format) :
    left = right := by
  have widths : left.width = right.width := by
    have decimals := congrArg (List.takeWhile Char.isDigit) same
    rw [takeWhile_format_bus, takeWhile_format_bus] at decimals
    exact decimalText_injective (congrArg String.ofList decimals)
  have digits : (bus left).hex = (bus right).hex := by
    rw [format_bus, format_bus, widths] at same
    exact (List.cons.inj (List.cons.inj (List.append_cancel_left same)).2).2
  have numbers := congrArg (fun digits => Text.valueFrom? 16 0 (Text.lowerAscii digits)) digits
  simp only [hex, Text.valueFrom?_hexUpper, Nat.mod_eq_of_lt (toNat_lt_hex _), Option.some.injEq,
    Nat.zero_mul, Nat.zero_add] at numbers
  exact Bus.ext_word widths numbers

/-- Signals that are shown alike are equal. -/
theorem text_injective : Function.Injective text := by
  intro left right same
  have formats : left.format = right.format := String.ofList_injective same
  cases left with
  | bit value =>
    cases right with
    | bit other => cases value <;> cases other <;> first | rfl | exact absurd formats (by decide)
    | bus lanes => exact absurd formats (format_bit_ne_format_bus value lanes)
  | bus lanes =>
    cases right with
    | bit value => exact absurd formats.symm (format_bit_ne_format_bus value lanes)
    | bus others => exact congrArg bus (eq_of_format_bus_eq formats)

end Showing

/-- Literals and renderings are inverse. A signal in the form of a width is read back at that width from its
digits in base sixteen behind `0x`, in base two behind `0b` and in decimal, whatever the case of letters and
the blanks around them; what is read from any text at any width has the form of the width; and what is shown
for a signal tells it apart from all others. -/
theorem literals_read_back :
    (∀ (width : Nat) (signal : Signal) (written body before after : List Char),
      signal.normalise width = signal → signal.Writes written →
      Text.lowerAscii body = Text.lowerAscii written →
      (∀ c ∈ before, Text.isBlank c = true) → (∀ c ∈ after, Text.isBlank c = true) →
      ofLiteral? width (before ++ body ++ after) = some signal) ∧
    (∀ (width : Nat) (read : List Char) (signal : Signal),
      ofLiteral? width read = some signal → signal = signal.normalise width) ∧
    Function.Injective text := by
  refine ⟨?_, ?_, text_injective⟩
  · intro width signal written body before after form writes caseless blankBefore blankAfter
    exact ofLiteral?_of_writes form writes caseless blankBefore blankAfter
  · intro width read signal reads
    exact (hasForm_of_ofLiteral? reads).symm

end Signal

end Breadboard
