import Breadboard.Json.Reader
import Breadboard.Proofs.Json.Numerals
import Breadboard.Proofs.Json.Quotes

/-!
# Texts that spell a value

A text spells a value if it sets out the tokens of the value one after the other, with gaps in front of
items, members, values of members and closing brackets. The compact and the spread form of a value spell
it, provided that its numbers can be read back, and whatever spells a value is read as the value.
-/

namespace Breadboard.Json

/-- Nothing but what may stand between tokens. -/
def Gap (text : List Char) : Prop :=
  ∀ c ∈ text, isGap c = true

mutual

/-- The text spells the value. A number may be followed by a gap. -/
inductive Spells : Json → List Char → Prop where
  | null : Spells .null ['n', 'u', 'l', 'l']
  | yes : Spells (.bool true) ['t', 'r', 'u', 'e']
  | no : Spells (.bool false) ['f', 'a', 'l', 's', 'e']
  | number {text behind : List Char} {numeral : Numeral} (reads : numeral? text = some (numeral, behind))
      (gap : Gap behind) : Spells numeral.value text
  | string (value : String) : Spells (.string value) (quote value)
  | emptyArray : Spells (.array []) ['[', ']']
  | array {items : List Json} {text after : List Char} (spelled : SpellsItems items text)
      (gap : Gap after) : Spells (.array items) ('[' :: text ++ after ++ [']'])
  | emptyObject : Spells (.object []) ['{', '}']
  | object {members : List (String × Json)} {text after : List Char}
      (spelled : SpellsMembers members text) (gap : Gap after) :
      Spells (.object members) ('{' :: text ++ after ++ ['}'])

/-- The text spells the items, at least one, with commas between them. -/
inductive SpellsItems : List Json → List Char → Prop where
  | last {item : Json} {before text : List Char} (gap : Gap before) (spelled : Spells item text) :
      SpellsItems [item] (before ++ text)
  | cons {item : Json} {items : List Json} {before text more : List Char} (gap : Gap before)
      (spelled : Spells item text) (rest : SpellsItems items more) :
      SpellsItems (item :: items) (before ++ text ++ ',' :: more)

/-- The text spells the members, at least one, with commas between them. -/
inductive SpellsMembers : List (String × Json) → List Char → Prop where
  | last (name : String) {value : Json} {before between text : List Char} (gap : Gap before)
      (gapBetween : Gap between) (spelled : Spells value text) :
      SpellsMembers [(name, value)] (before ++ quote name ++ ':' :: between ++ text)
  | cons (name : String) {value : Json} {members : List (String × Json)}
      {before between text more : List Char} (gap : Gap before) (gapBetween : Gap between)
      (spelled : Spells value text) (rest : SpellsMembers members more) :
      SpellsMembers ((name, value) :: members)
        (before ++ quote name ++ ':' :: between ++ text ++ ',' :: more)

end

section

variable {before rest text : List Char}

/-- A gap in front of a text is skipped. -/
theorem skipGap_append (gap : Gap before) (text : List Char) : skipGap (before ++ text) = skipGap text :=
  List.dropWhile_append_of_pos gap

/-- A gap before a value is skipped. -/
theorem readValue_append (gap : Gap before) (calls : Nat) (text : List Char) :
    readValue calls (before ++ text) = readValue calls text := by
  cases calls with
  | zero => rw [readValue, readValue]
  | succ calls => rw [readValue, readValue, skipGap_append gap]

/-- A gap before items is skipped. -/
theorem readItems_append (gap : Gap before) (calls : Nat) (text : List Char) :
    readItems calls (before ++ text) = readItems calls text := by
  cases calls with
  | zero => rw [readItems, readItems]
  | succ calls => rw [readItems, readItems, readValue_append gap]

/-- A gap before members is skipped. -/
theorem readMembers_append (gap : Gap before) (calls : Nat) (text : List Char) :
    readMembers calls (before ++ text) = readMembers calls text := by
  cases calls with
  | zero => rw [readMembers, readMembers]
  | succ calls => rw [readMembers, readMembers, skipGap_append gap]

/-- What is no gap is not skipped. -/
theorem skipGap_cons {c : Char} (noGap : isGap c = false) (text : List Char) :
    skipGap (c :: text) = c :: text :=
  List.dropWhile_cons_of_neg (by simp [noGap])

/-- The character is no part of a number. -/
def IsStop (c : Char) : Prop :=
  c.isDigit = false ∧ c ≠ '.' ∧ c ≠ 'e' ∧ c ≠ 'E'

/-- Before a character that is no part of it a number ends. -/
theorem endsNumber_cons {c : Char} (stops : IsStop c) (rest : List Char) : EndsNumber (c :: rest) := by
  intro first isFirst
  obtain rfl : c = first := by simpa using isFirst
  exact stops

/-- Before a gap and a character that is no part of it a number ends. -/
theorem endsNumber_of_gap (gap : Gap before) {c : Char} (stops : IsStop c) (rest : List Char) :
    EndsNumber (before ++ c :: rest) := by
  cases before with
  | nil => exact endsNumber_cons stops rest
  | cons head gaps =>
    have isGap := gap head List.mem_cons_self
    refine endsNumber_cons ?_ (gaps ++ c :: rest)
    simp only [Json.isGap, Bool.or_eq_true, beq_iff_eq] at isGap
    rcases isGap with ((rfl | rfl) | rfl) | rfl <;> exact ⟨by decide, by decide, by decide, by decide⟩

/-- Commas and closing brackets are no parts of numbers. -/
theorem isStop_mark : IsStop ',' ∧ IsStop ']' ∧ IsStop '}' := by
  refine ⟨?_, ?_, ?_⟩ <;> exact ⟨by decide, by decide, by decide, by decide⟩

/-- Neither a minus nor a digit is a gap. -/
theorem isGap_of_first {c : Char} (isFirst : (c == '-' || c.isDigit) = true) : isGap c = false := by
  refine Bool.of_not_eq_true fun isGap => ?_
  simp only [Json.isGap, Bool.or_eq_true, beq_iff_eq] at isGap
  rcases isGap with ((rfl | rfl) | rfl) | rfl <;> exact absurd isFirst (by decide)

/-- A number is read where a minus or a digit stands. -/
theorem readValue_number {c : Char} (isFirst : (c == '-' || c.isDigit) = true) (calls : Nat)
    (text : List Char) :
    readValue (calls + 1) (c :: text) =
      (numeral? (c :: text)).map fun (numeral, rest) => (numeral.value, rest) := by
  have other {mark : Char} (absent : (mark == '-' || mark.isDigit) = false) (more : List Char) :
      c :: text ≠ mark :: more := by
    intro same
    rw [(List.cons.inj same).1, absent] at isFirst
    cases isFirst
  rw [readValue, skipGap_cons (isGap_of_first isFirst)]
  split
  · next isQuote => exact absurd isQuote (other (by decide) _)
  · next isBracket => exact absurd isBracket (other (by decide) _)
  · next isBrace => exact absurd isBrace (other (by decide) _)
  · next same =>
    obtain ⟨rfl, rfl⟩ := List.cons.inj same
    rw [if_pos isFirst]
  · next same => cases same

/-- The text is a gap and what is left when gaps are skipped. -/
theorem exists_gap (text : List Char) : ∃ before, Gap before ∧ text = before ++ skipGap text :=
  ⟨text.takeWhile isGap, fun _ member => List.mem_takeWhile_imp member,
    List.takeWhile_append_dropWhile.symm⟩

/-- The items of an array are read, unless the array is closed at once. -/
theorem readValue_array {c : Char} {more : List Char} (starts : skipGap text = c :: more)
    (noEnd : c ≠ ']') (calls : Nat) :
    readValue (calls + 1) ('[' :: text) =
      (readItems calls text).map fun (items, rest) => (.array items, rest) := by
  obtain ⟨before, gap, same⟩ := exists_gap text
  have skipped : readItems calls (c :: more) = readItems calls text := by
    rw [same, readItems_append gap, starts]
  have opened : skipGap ('[' :: text) = '[' :: text := rfl
  rw [readValue, opened]
  simp only [starts]
  split
  · next isEnd => exact absurd (List.cons.inj isEnd).1 noEnd
  · rw [skipped]

/-- The members of an object are read, unless the object is closed at once. -/
theorem readValue_object {more : List Char} (starts : skipGap text = '"' :: more) (calls : Nat) :
    readValue (calls + 1) ('{' :: text) =
      (readMembers calls text).map fun (members, rest) => (ofMembers members, rest) := by
  obtain ⟨before, gap, same⟩ := exists_gap text
  have skipped : readMembers calls ('"' :: more) = readMembers calls text := by
    rw [same, readMembers_append gap, starts]
  have opened : skipGap ('{' :: text) = '{' :: text := rfl
  rw [readValue, opened]
  simp only [starts]
  split
  · next isEnd => exact absurd (List.cons.inj isEnd).1 (by decide)
  · rw [skipped]

/-- The last item is read up to the closing bracket. -/
theorem readItems_last {calls : Nat} {item : Json} {behind : List Char}
    (reads : readValue calls text = some (item, behind)) (closes : skipGap behind = ']' :: rest) :
    readItems (calls + 1) text = some ([item], rest) := by
  simp only [readItems, reads, closes]

/-- An item is read up to the comma, and then the items behind it. -/
theorem readItems_cons {calls : Nat} {item : Json} {behind : List Char}
    (reads : readValue calls text = some (item, behind)) (goesOn : skipGap behind = ',' :: rest) :
    readItems (calls + 1) text =
      (readItems calls rest).map fun (items, rest) => (item :: items, rest) := by
  simp only [readItems, reads, goesOn]

/-- The last member is read up to the closing brace. -/
theorem readMembers_last {calls : Nat} {name : String} {value : Json} {behind : List Char}
    (reads : readValue calls text = some (value, behind)) (closes : skipGap behind = '}' :: rest) :
    readMembers (calls + 1) (quote name ++ ':' :: text) = some ([(some name, value)], rest) := by
  have opened (text : List Char) : skipGap ('"' :: text) = '"' :: text := rfl
  have colon : skipGap (':' :: text) = ':' :: text := rfl
  simp only [quote_append, readMembers, opened, text?_quoted, colon, reads, closes]

/-- A member is read up to the comma, and then the members behind it. -/
theorem readMembers_cons {calls : Nat} {name : String} {value : Json} {behind : List Char}
    (reads : readValue calls text = some (value, behind)) (goesOn : skipGap behind = ',' :: rest) :
    readMembers (calls + 1) (quote name ++ ':' :: text) =
      (readMembers calls rest).map fun (members, rest) => ((some name, value) :: members, rest) := by
  have opened (text : List Char) : skipGap ('"' :: text) = '"' :: text := rfl
  have colon : skipGap (':' :: text) = ':' :: text := rfl
  simp only [quote_append, readMembers, opened, text?_quoted, colon, reads, goesOn]

/-- A text that spells a value begins neither with a gap nor with a closing bracket. -/
theorem Spells.head {json : Json} (spelled : Spells json text) :
    ∃ c more, text = c :: more ∧ isGap c = false ∧ c ≠ ']' := by
  cases spelled with
  | number reads =>
    obtain ⟨c, more, rfl, isFirst⟩ := head_of_numeral? reads
    refine ⟨c, more, rfl, isGap_of_first isFirst, ?_⟩
    rintro rfl
    exact absurd isFirst (by decide)
  | _ => exact ⟨_, _, rfl, by decide, by decide⟩

/-- A text that spells items begins with what spells the first one. -/
theorem SpellsItems.starts {items : List Json} (spelled : SpellsItems items text) (rest : List Char) :
    ∃ c more, skipGap (text ++ rest) = c :: more ∧ c ≠ ']' := by
  have first {item : Json} {before text : List Char} (gap : Gap before) (spelled : Spells item text)
      (rest : List Char) : ∃ c more, skipGap (before ++ (text ++ rest)) = c :: more ∧ c ≠ ']' := by
    obtain ⟨c, more, rfl, noGap, noEnd⟩ := spelled.head
    exact ⟨c, more ++ rest, by rw [skipGap_append gap, List.cons_append, skipGap_cons noGap], noEnd⟩
  cases spelled with
  | last gap spelled =>
    rw [List.append_assoc]
    exact first gap spelled rest
  | cons gap spelled others =>
    rw [List.append_assoc, List.append_assoc]
    exact first gap spelled _

/-- A text that spells members begins with the quote of the first name. -/
theorem SpellsMembers.starts {members : List (String × Json)} (spelled : SpellsMembers members text)
    (rest : List Char) : ∃ more, skipGap (text ++ rest) = '"' :: more := by
  cases spelled with
  | last _ gap _ _ =>
    simp only [List.append_assoc, skipGap_append gap, quote_append]
    exact ⟨_, rfl⟩
  | cons _ gap _ _ _ =>
    simp only [List.append_assoc, skipGap_append gap, quote_append]
    exact ⟨_, rfl⟩

/-- Members with names are those of an object. -/
theorem ofMembers_named (members : List (String × Json)) :
    ofMembers (members.map fun member => (some member.1, member.2)) = .object members := by
  have named : (members.map fun member => (some member.1, member.2)).mapM
      (fun member => member.1.map fun name => (name, member.2)) = some members := by
    induction members with
    | nil => rfl
    | cons member rest inductionHypothesis =>
      simp [inductionHypothesis]
  rw [ofMembers, named]

end

/-- Whatever is spelled in so many characters that so many calls suffice for them is read. -/
structure ReadsWithin (calls : Nat) : Prop where
  value {json : Json} {text : List Char} (spelled : Spells json text) (enough : 2 * text.length ≤ calls)
    {rest : List Char} (ends : EndsNumber rest) :
    ∃ behind, readValue calls (text ++ rest) = some (json, behind) ∧ skipGap behind = skipGap rest
  items {items : List Json} {text : List Char} (spelled : SpellsItems items text)
    (enough : 2 * text.length < calls) {after : List Char} (gap : Gap after) (rest : List Char) :
    readItems calls (text ++ (after ++ ']' :: rest)) = some (items, rest)
  members {members : List (String × Json)} {text : List Char} (spelled : SpellsMembers members text)
    (enough : 2 * text.length < calls) {after : List Char} (gap : Gap after) (rest : List Char) :
    readMembers calls (text ++ (after ++ '}' :: rest)) =
      some (members.map fun member => (some member.1, member.2), rest)

namespace ReadsWithin

variable {calls : Nat} (within : ReadsWithin calls)
include within

/-- A value is read with one call more, its parts without it. -/
theorem value_succ {json : Json} {text : List Char} (spelled : Spells json text)
    (enough : 2 * text.length ≤ calls + 1) {rest : List Char} (ends : EndsNumber rest) :
    ∃ behind, readValue (calls + 1) (text ++ rest) = some (json, behind) ∧
      skipGap behind = skipGap rest := by
  cases spelled with
  | null => exact ⟨rest, rfl, rfl⟩
  | yes => exact ⟨rest, rfl, rfl⟩
  | no => exact ⟨rest, rfl, rfl⟩
  | number reads gap =>
    obtain ⟨c, more, rfl, isFirst⟩ := head_of_numeral? reads
    have appended := numeral?_append ends reads
    rw [List.cons_append] at appended
    refine ⟨_, ?_, skipGap_append gap rest⟩
    rw [List.cons_append, readValue_number isFirst, appended]
    rfl
  | string value =>
    have opened (text : List Char) : readValue (calls + 1) ('"' :: text) =
        (text? text).map fun read => (ofText read.1, read.2) := rfl
    refine ⟨rest, ?_, rfl⟩
    rw [quote_append, opened, text?_quoted]
    rfl
  | emptyArray => exact ⟨rest, rfl, rfl⟩
  | @array _ text after spelled gap =>
    obtain ⟨c, more, starts, noEnd⟩ := spelled.starts (after ++ ']' :: rest)
    have shape : '[' :: text ++ after ++ [']'] ++ rest = '[' :: (text ++ (after ++ ']' :: rest)) := by simp
    simp only [List.length_append, List.length_cons, List.length_nil] at enough
    refine ⟨rest, ?_, rfl⟩
    rw [shape, readValue_array starts noEnd, within.items spelled (by omega) gap]
    rfl
  | emptyObject => exact ⟨rest, rfl, rfl⟩
  | @object members text after spelled gap =>
    obtain ⟨more, starts⟩ := spelled.starts (after ++ '}' :: rest)
    have shape : '{' :: text ++ after ++ ['}'] ++ rest = '{' :: (text ++ (after ++ '}' :: rest)) := by simp
    simp only [List.length_append, List.length_cons, List.length_nil] at enough
    refine ⟨rest, ?_, rfl⟩
    rw [shape, readValue_object starts, within.members spelled (by omega) gap, ← ofMembers_named]
    rfl

/-- Items are read with one call more, the first of them and the others without it. -/
theorem items_succ {items : List Json} {text : List Char} (spelled : SpellsItems items text)
    (enough : 2 * text.length < calls + 1) {after : List Char} (gapAfter : Gap after) (rest : List Char) :
    readItems (calls + 1) (text ++ (after ++ ']' :: rest)) = some (items, rest) := by
  cases spelled with
  | @last item before text gap spelled =>
    rw [List.length_append] at enough
    obtain ⟨behind, reads, same⟩ :=
      within.value spelled (by omega) (endsNumber_of_gap gapAfter isStop_mark.2.1 rest)
    rw [skipGap_append gapAfter] at same
    rw [List.append_assoc, readItems_append gap]
    exact readItems_last reads same
  | @cons item items before text more gap spelled others =>
    simp only [List.length_append, List.length_cons] at enough
    have shape : before ++ text ++ ',' :: more ++ (after ++ ']' :: rest) =
        before ++ (text ++ ',' :: (more ++ (after ++ ']' :: rest))) := by
      simp
    obtain ⟨behind, reads, same⟩ :=
      within.value spelled (by omega) (endsNumber_cons isStop_mark.1 (more ++ (after ++ ']' :: rest)))
    rw [shape, readItems_append gap, readItems_cons reads same, within.items others (by omega) gapAfter]
    rfl

/-- Members are read with one call more, the value of the first and the others without it. -/
theorem members_succ {members : List (String × Json)} {text : List Char}
    (spelled : SpellsMembers members text) (enough : 2 * text.length < calls + 1) {after : List Char}
    (gapAfter : Gap after) (rest : List Char) :
    readMembers (calls + 1) (text ++ (after ++ '}' :: rest)) =
      some (members.map fun member => (some member.1, member.2), rest) := by
  cases spelled with
  | @last name value before between text gap gapBetween spelled =>
    simp only [List.length_append, List.length_cons] at enough
    have shape : before ++ quote name ++ ':' :: between ++ text ++ (after ++ '}' :: rest) =
        before ++ (quote name ++ ':' :: (between ++ (text ++ (after ++ '}' :: rest)))) := by
      simp
    obtain ⟨behind, reads, same⟩ :=
      within.value spelled (by omega) (endsNumber_of_gap gapAfter isStop_mark.2.2 rest)
    rw [← readValue_append gapBetween] at reads
    rw [skipGap_append gapAfter] at same
    rw [shape, readMembers_append gap]
    exact readMembers_last reads same
  | @cons name value members before between text more gap gapBetween spelled others =>
    simp only [List.length_append, List.length_cons] at enough
    have shape :
        before ++ quote name ++ ':' :: between ++ text ++ ',' :: more ++ (after ++ '}' :: rest) =
          before ++ (quote name ++ ':' :: (between ++ (text ++ ',' :: (more ++ (after ++ '}' :: rest))))) := by
      simp
    obtain ⟨behind, reads, same⟩ :=
      within.value spelled (by omega) (endsNumber_cons isStop_mark.1 (more ++ (after ++ '}' :: rest)))
    rw [← readValue_append gapBetween] at reads
    rw [shape, readMembers_append gap, readMembers_cons reads same, within.members others (by omega) gapAfter]
    rfl

end ReadsWithin

/-- So many calls suffice for what is spelled in half as many characters.

Proof: by induction on the calls. A value takes a call and its bracket before its parts are read, and
items and members take a call and their comma before the next ones are. -/
theorem readsWithin (calls : Nat) : ReadsWithin calls := by
  induction calls with
  | zero =>
    have none {text : List Char} (enough : 2 * text.length ≤ 0) : text = [] :=
      List.length_eq_zero_iff.mp (by omega)
    refine ⟨fun spelled enough => ?_, fun _ enough => absurd enough (by omega),
      fun _ enough => absurd enough (by omega)⟩
    obtain ⟨c, more, rfl, _⟩ := spelled.head
    cases none enough
  | succ calls inductionHypothesis =>
    exact ⟨inductionHypothesis.value_succ, inductionHypothesis.items_succ,
      inductionHypothesis.members_succ⟩

/-- A text that spells a value is read as the value. -/
theorem Spells.parse? {json : Json} {text : List Char} (spelled : Spells json text) :
    Json.parse? (String.ofList text) = some json := by
  obtain ⟨behind, reads, same⟩ :=
    (readsWithin (2 * text.length + 2)).value spelled (by omega) endsNumber_nil
  rw [List.append_nil] at reads
  simp only [Json.parse?, String.toList_ofList, reads, same]
  rfl

end Breadboard.Json
