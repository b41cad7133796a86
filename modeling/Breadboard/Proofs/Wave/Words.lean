import Breadboard.Proofs.Form.Parts
import Breadboard.Wave.Tracer
import Mathlib.Data.Nat.Bitwise

/-!
# The words of a dump

A dump is a sequence of words with blanks between them: keywords, numbers, codes, names and the
digits of buses. Each of them is a single word wherever it is written, and the numbers and the buses
can be read back from their words. Codes are exactly the texts of printable characters, and each of
them is the code of one place.
-/

namespace Breadboard

namespace Text

/-- A text that is read as one word: it has a character and none that is blank. -/
structure IsWord (text : List Char) : Prop where
  nonempty : text ≠ []
  solid : ∀ c ∈ text, isBlank c = false

/-- Characters that are not blank go on the word that is gathered.

Proof: by induction on these characters. -/
theorem wordsFrom_append (gathered word rest : List Char) (solid : ∀ c ∈ word, isBlank c = false) :
    wordsFrom gathered (word ++ rest) = wordsFrom (word.reverse ++ gathered) rest := by
  induction word generalizing gathered with
  | nil => rfl
  | cons c word inductionHypothesis =>
    have here := solid c List.mem_cons_self
    rw [List.cons_append, wordsFrom, here, if_neg Bool.false_ne_true,
      inductionHypothesis _ fun c member => solid c (List.mem_cons_of_mem _ member),
      List.reverse_cons, List.append_assoc, List.singleton_append]

instance (text : List Char) : Decidable (IsWord text) :=
  decidable_of_iff (text ≠ [] ∧ text.all (fun c => !isBlank c) = true)
    ⟨fun ⟨nonempty, solid⟩ => ⟨nonempty, by simpa using solid⟩,
      fun word => ⟨word.nonempty, by simpa using word.solid⟩⟩

/-- A text that only separates words: it has a character and every one is blank. -/
structure IsGap (text : List Char) : Prop where
  nonempty : text ≠ []
  blank : ∀ c ∈ text, isBlank c = true

instance (text : List Char) : Decidable (IsGap text) :=
  decidable_of_iff (text ≠ [] ∧ text.all isBlank = true)
    ⟨fun ⟨nonempty, blank⟩ => ⟨nonempty, by simpa using blank⟩,
      fun gap => ⟨gap.nonempty, by simpa using gap.blank⟩⟩

theorem isGap_blank : IsGap [' '] := by decide

theorem isGap_newline : IsGap ['\n'] := by decide

/-- Blanks in front are passed over.

Proof: by induction on the blanks. -/
theorem words_blanks {blanks : List Char} (blank : ∀ c ∈ blanks, isBlank c = true)
    (rest : List Char) : words (blanks ++ rest) = words rest := by
  induction blanks with
  | nil => rfl
  | cons c blanks inductionHypothesis =>
    have here := blank c List.mem_cons_self
    rw [List.cons_append, words, wordsFrom, here, if_pos rfl, List.isEmpty_nil, if_pos rfl]
    exact inductionHypothesis fun c member => blank c (List.mem_cons_of_mem _ member)

/-- A word in front of a gap is the first word. -/
theorem words_append {word gap : List Char} (isWord : IsWord word) (isGap : IsGap gap)
    (rest : List Char) : words (word ++ gap ++ rest) = word :: words rest := by
  obtain ⟨blank, blanks, rfl⟩ := List.exists_cons_of_ne_nil isGap.nonempty
  have notEmpty : word.reverse.isEmpty = false := by simp [isWord.nonempty]
  rw [List.append_assoc, List.cons_append, words, wordsFrom_append _ _ _ isWord.solid,
    List.append_nil, wordsFrom, isGap.blank blank List.mem_cons_self, if_pos rfl, notEmpty,
    if_neg Bool.false_ne_true, List.reverse_reverse]
  exact congrArg (word :: ·)
    (words_blanks (fun c member => isGap.blank c (List.mem_cons_of_mem _ member)) rest)

/-- Words, each with the gap behind it, written one behind the other. -/
def spaced (pieces : List (List Char × List Char)) : List Char :=
  pieces.flatMap fun piece => piece.1 ++ piece.2

/-- Words written with gaps behind them are split off.

Proof: by induction on the words. -/
theorem words_spaced {pieces : List (List Char × List Char)}
    (proper : ∀ piece ∈ pieces, IsWord piece.1 ∧ IsGap piece.2) (rest : List Char) :
    words (spaced pieces ++ rest) = pieces.map Prod.fst ++ words rest := by
  induction pieces with
  | nil => rfl
  | cons piece pieces inductionHypothesis =>
    obtain ⟨isWord, isGap⟩ := proper piece List.mem_cons_self
    have later := inductionHypothesis fun piece member => proper piece (List.mem_cons_of_mem _ member)
    rw [spaced, List.flatMap_cons, List.append_assoc, words_append isWord isGap]
    exact congrArg (piece.1 :: ·) later

/-- A word with characters that are not blank behind it is a word. -/
theorem IsWord.append {front back : List Char} (word : IsWord front)
    (solid : ∀ c ∈ back, isBlank c = false) : IsWord (front ++ back) where
  nonempty := List.append_ne_nil_of_left_ne_nil word.nonempty back
  solid c member := (List.mem_append.mp member).elim (word.solid c) (solid c)

/-- Characters that are not blank are a word. -/
theorem IsWord.cons {first : Char} {rest : List Char} (here : isBlank first = false)
    (solid : ∀ c ∈ rest, isBlank c = false) : IsWord (first :: rest) where
  nonempty := List.cons_ne_nil first rest
  solid := List.forall_mem_cons.mpr ⟨here, solid⟩

/-- The characters from `!` to `~` are told by their numbers. -/
theorem printed_iff {c : Char} : ('!' ≤ c ∧ c ≤ '~') ↔ 33 ≤ c.toNat ∧ c.toNat ≤ 126 := by
  simp only [Char.le_def, UInt32.le_iff_toNat_le]
  rfl

/-- The characters from `!` to `~` are not blank. -/
theorem isBlank_of_printed {c : Char} (printed : '!' ≤ c ∧ c ≤ '~') : isBlank c = false := by
  have range := printed_iff.mp printed
  simp only [isBlank, Bool.or_eq_false_iff, Bool.and_eq_false_iff, decide_eq_false_iff_not,
    beq_eq_false_iff_ne]
  omega

/-- A digit is not blank. -/
theorem isBlank_of_isDigit {c : Char} (digit : c.isDigit = true) : isBlank c = false := by
  have range : 48 ≤ c.toNat ∧ c.toNat ≤ 57 := by
    simpa [Char.isDigit, UInt32.le_iff_toNat_le] using digit
  exact isBlank_of_printed (printed_iff.mpr (by omega))

/-- A number in decimal is a word. -/
theorem isWord_decimal (n : Nat) : IsWord (decimal n) where
  nonempty := decimal_ne_nil n
  solid c member := isBlank_of_isDigit (isDigit_of_mem_decimal n c member)

end Text

namespace Dump

/-- A text that can be a code: it has a character and all of them are printable, from `!` to `~`. -/
structure IsCode (text : List Char) : Prop where
  nonempty : text ≠ []
  printed : ∀ c ∈ text, '!' ≤ c ∧ c ≤ '~'

/-- The place of a text among the codes, counted from one: a number in base ninety-four with the least
significant digit first, whose digits go from one to ninety-four. As no digit is zero, a longer text
is never a shorter one with zeros behind it. -/
def ordinal : List Char → Nat
  | [] => 0
  | c :: rest => (c.toNat - 32) + 94 * ordinal rest

/-- A code is a word. -/
theorem IsCode.isWord {text : List Char} (code : IsCode text) : Text.IsWord text where
  nonempty := code.nonempty
  solid c member := Text.isBlank_of_printed (code.printed c member)

/-- No code stands at zero, since its first digit is at least one. -/
theorem IsCode.ordinal_pos {text : List Char} (code : IsCode text) : 0 < ordinal text := by
  obtain ⟨c, rest, rfl⟩ := List.exists_cons_of_ne_nil code.nonempty
  have range := Text.printed_iff.mp (code.printed c List.mem_cons_self)
  rw [ordinal]
  omega

/-- The number of the character that writes a digit. -/
theorem toNat_digit {d : Nat} (digit : d < 94) : (Char.ofNat (33 + d)).toNat = 33 + d := by
  have each : ∀ d < 94, (Char.ofNat (33 + d)).toNat = 33 + d := by decide
  exact each d digit

/-- The code at a place can be a code.

Proof: by induction on the place, as the code is built. -/
theorem isCode_codeOf (place : Nat) : IsCode (codeOf place) := by
  induction place using codeOf.induct with
  | case1 place inductionHypothesis =>
    rw [codeOf]
    refine ⟨List.cons_ne_nil _ _, fun c member => ?_⟩
    rcases List.mem_cons.mp member with rfl | later
    · have digit := Nat.mod_lt place (show 0 < 94 by decide)
      rw [Text.printed_iff, toNat_digit digit]
      omega
    · split at later
      · contradiction
      · next more => exact (inductionHypothesis more).printed c later

/-- The code at a place is a word. -/
theorem isWord_codeOf (place : Nat) : Text.IsWord (codeOf place) :=
  (isCode_codeOf place).isWord

/-- The place of a code is read back.

Proof: by induction on the place. The first character is the remainder by ninety-four, and the others
are the code of the quotient less one, or nothing if this is zero. -/
theorem ordinal_codeOf (place : Nat) : ordinal (codeOf place) = place + 1 := by
  induction place using codeOf.induct with
  | case1 place inductionHypothesis =>
    rw [codeOf, ordinal, toNat_digit (Nat.mod_lt place (by decide))]
    split
    · rw [ordinal]
      omega
    · next more =>
      rw [inductionHypothesis more]
      omega

/-- Different places have different codes. -/
theorem codeOf_injective : Function.Injective codeOf := by
  intro place other same
  have ordinals := congrArg ordinal same
  rw [ordinal_codeOf, ordinal_codeOf] at ordinals
  omega

/-- Every text that can be a code is the code at its place, so no short text is left out.

Proof: by induction on the text. -/
theorem codeOf_ordinal {text : List Char} (code : IsCode text) : codeOf (ordinal text - 1) = text := by
  induction text with
  | nil => exact absurd rfl code.nonempty
  | cons c rest inductionHypothesis =>
    have range := Text.printed_iff.mp (code.printed c List.mem_cons_self)
    have place : ordinal (c :: rest) - 1 = (c.toNat - 33) + 94 * ordinal rest := by
      rw [ordinal]
      omega
    have remainder : ((c.toNat - 33) + 94 * ordinal rest) % 94 = c.toNat - 33 := by omega
    have quotient : ((c.toNat - 33) + 94 * ordinal rest) / 94 = ordinal rest := by omega
    have first : Char.ofNat (33 + (c.toNat - 33)) = c := by
      rw [Nat.add_sub_cancel' range.1, Char.ofNat_toNat]
    rw [place, codeOf, remainder, quotient, first]
    cases rest with
    | nil => rfl
    | cons next rest =>
      have later : IsCode (next :: rest) :=
        ⟨List.cons_ne_nil next rest, fun c member => code.printed c (List.mem_cons_of_mem _ member)⟩
      rw [dif_neg (Nat.ne_of_gt later.ordinal_pos), inductionHypothesis later]

/-- Codes grow where the characters of one length are used up. -/
example : codeOf 93 = ['~'] ∧ codeOf 94 = ['!', '!'] := by
  decide +kernel

end Dump

namespace Node

variable {Inner : Type}

/-- The name of a node is a word, whatever its label. -/
theorem isWord_traceName (node : Node Inner) (id : NodeId) :
    Text.IsWord (node.traceName id).toList := by
  have handle : Text.IsWord ('n' :: Text.decimal id) := .cons rfl (Text.isWord_decimal id).solid
  have label : ∀ c ∈ node.label.toList.map fun c => if Text.isBlank c then '_' else c,
      Text.isBlank c = false := by
    intro c member
    obtain ⟨original, _, rfl⟩ := List.mem_map.mp member
    split
    · rfl
    · next solid => exact Bool.eq_false_of_not_eq_true solid
  rw [traceName, String.toList_ofList]
  split
  · exact handle
  · next labelled =>
    refine Text.IsWord.append ⟨fun empty => labelled (by rw [empty]; rfl), label⟩ fun c member => ?_
    rcases List.mem_cons.mp member with rfl | inHandle
    · rfl
    · exact handle.solid c inHandle

end Node

namespace Bus

/-- The bits of the number that bits make up are these bits, and clear bits beyond.

Proof: by induction on the bits. -/
theorem testBit_pack (bits : List Bool) (index : Nat) :
    (pack bits).testBit index = bits[index]?.getD false := by
  induction bits generalizing index with
  | nil => simp [pack]
  | cons bit rest inductionHypothesis =>
    cases index with
    | zero => cases bit <;> simp [pack, Nat.testBit_zero]
    | succ index =>
      have half : (pack (bit :: rest)) / 2 = pack rest := by
        cases bit <;> simp only [pack, Bool.toNat_false, Bool.toNat_true] <;> omega
      rw [Nat.testBit_succ, half, inductionHypothesis, List.getElem?_cons_succ]

/-- The bits of a bus make it up again. -/
theorem ofBits_bits (bus : Bus) : ofBits bus.bits = bus := by
  have length : bus.bits.length = bus.width := by simp [bits]
  have counted : bus.width % handleLimit = bus.width := Nat.mod_eq_of_lt bus.fits.1
  have whole : bus.bits.take maxBusWidth = bus.bits :=
    List.take_of_length_le (length ▸ bus.width_le)
  have packed : pack bus.bits = bus.word := by
    refine Nat.eq_of_testBit_eq fun index => ?_
    rw [testBit_pack]
    by_cases inside : index < bus.width
    · simp [bits, get, inside]
    · have clear := Nat.testBit_lt_two_pow (Nat.lt_of_lt_of_le bus.word_lt
        (Nat.pow_le_pow_right (by decide) (Nat.not_lt.mp inside)))
      rw [List.getElem?_eq_none (by omega), clear]
      rfl
  rw [ofBits, whole, length, counted, packed, ofNat_word]

/-- The digits of a bus are zeros and ones. -/
theorem mem_render {bus : Bus} {c : Char} (member : c ∈ bus.render) : c = '0' ∨ c = '1' := by
  obtain ⟨bit, _, rfl⟩ := List.mem_map.mp (List.mem_reverse.mp member)
  cases bit
  · exact .inl rfl
  · exact .inr rfl

/-- A bus has as many digits as bits. -/
theorem length_render (bus : Bus) : bus.render.length = bus.width := by
  simp [render, bits]

/-- The digits of a bus are a word. -/
theorem isWord_render (bus : Bus) : Text.IsWord bus.render where
  nonempty := List.ne_nil_of_length_pos (by rw [length_render]; exact bus.width_pos)
  solid c member := by rcases mem_render member with rfl | rfl <;> rfl

/-- The digits of bits are read back. -/
theorem mapM_binaryDigit? (bits : List Bool) :
    (bits.map fun bit => if bit then '1' else '0').mapM binaryDigit? = some bits := by
  induction bits with
  | nil => rfl
  | cons bit rest inductionHypothesis =>
    rw [List.map_cons, List.mapM_cons, inductionHypothesis]
    cases bit <;> rfl

/-- A bus is read back from its digits. -/
theorem ofBinary?_render (bus : Bus) : ofBinary? bus.render = some bus := by
  have plain : bus.render.filter (· != '_') = bus.render :=
    List.filter_eq_self.mpr fun c member => by rcases mem_render member with rfl | rfl <;> rfl
  have inRange : ¬(bus.render.isEmpty || decide (bus.render.length > maxBusWidth)) = true := by
    have least := bus.width_pos
    have most := bus.width_le
    simp only [Bool.or_eq_true, decide_eq_true_eq, List.isEmpty_iff_length_eq_zero, length_render]
    omega
  rw [ofBinary?, plain, if_neg inRange, render, List.reverse_reverse, mapM_binaryDigit?,
    Option.map_some, ofBits_bits]

end Bus

end Breadboard
