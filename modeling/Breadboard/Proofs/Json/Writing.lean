import Breadboard.Json.Writer
import Breadboard.Proofs.Json.Decimals
import Breadboard.Proofs.Json.Spelling

/-!
# Written values are read back

The compact and the spread form of a value spell it, provided that its parts can be read back: its
integers fit words, and its doubles are read as they are written. So both forms are read as the value.
Where doubles are read as something else, both forms are read as the value with that in their places.
-/

namespace Breadboard

namespace Json

/-- The double is read as it is written. -/
def ReadsBack (x : Float) : Prop :=
  Json.parse? (Json.real x).compact = some (.real x)

/-- The value as a double, if it is written as one. -/
def real? : Json → Option Float
  | .real x => some x
  | _ => none

/-- A double is read as it is written exactly if it is the double that is read. -/
theorem readsBack_iff {x : Float} :
    ReadsBack x ↔ (Json.parse? (Json.real x).compact).bind real? = some x := by
  constructor
  · intro reads
    rw [reads]
    rfl
  · intro reads
    obtain ⟨json, parsed, isReal⟩ := Option.bind_eq_some_iff.mp reads
    cases json with
    | real y => rw [ReadsBack, parsed, Option.some.inj isReal]
    | _ => cases isReal

instance (x : Float) : Decidable (ReadsBack x) :=
  decidable_of_iff _ readsBack_iff.symm

-- The nearest double is not always found, since a number is scaled after its digits were rounded.
example : ReadsBack 2.5 ∧ ¬ReadsBack 1.1016494845360825e-5 := by decide +kernel

/-- What can be read back: integers fit words, signed or not, and doubles are read as they are
written. -/
inductive Legible : Json → Prop where
  | null : Legible .null
  | bool (value : Bool) : Legible (.bool value)
  | integer {value : Int} (least : -signedLimit ≤ value) (most : value < wordLimit) :
      Legible (.integer value)
  | real {value : Float} (readsBack : ReadsBack value) : Legible (.real value)
  | string (value : String) : Legible (.string value)
  | array {items : List Json} (each : ∀ item ∈ items, Legible item) : Legible (.array items)
  | object {members : List (String × Json)} (each : ∀ member ∈ members, Legible member.2) :
      Legible (.object members)

/-- Nothing is a gap. -/
theorem gap_nil : Gap [] := by
  intro c member
  cases member

/-- What is written of a double, whatever that may be, spells something: a number, or that there is none. -/
theorem exists_spells_real (x : Float) : ∃ value, Spells value (writeReal x) := by
  by_cases finite : x.isFinite = true
  · obtain ⟨numeral, reads⟩ := exists_numeral_of_writeReal finite
    exact ⟨numeral.value, .number reads gap_nil⟩
  · rw [writeReal, if_neg finite]
    exact ⟨.null, .null⟩

/-- A double is read as what is written of it spells. -/
theorem parse?_real {x : Float} {value : Json} (spelled : Spells value (writeReal x)) :
    Json.parse? (Json.real x).compact = some value := by
  rw [compact, compactChars]
  exact spelled.parse?

/-- A double that is read as it is written is spelled as it is written. -/
theorem spells_real {x : Float} (readsBack : ReadsBack x) : Spells (.real x) (writeReal x) := by
  obtain ⟨value, spelled⟩ := exists_spells_real x
  have same := (parse?_real spelled).symm.trans readsBack
  exact Option.some.inj same ▸ spelled

/-- An integer that fits a word is spelled as it is written. -/
theorem spells_integer {value : Int} (least : -signedLimit ≤ value) (most : value < wordLimit) :
    Spells (.integer value) (writeInteger value) := by
  have reads := numeral?_writeInteger endsNumber_nil value
  rw [List.append_nil] at reads
  rw [← value_writeInteger least most]
  exact .number reads fun c member => by cases member

section

variable {line between : List Char} (gap : Gap line) (gapBetween : Gap between) {chars : Json → List Char}

include gap

/-- Items that are set out with gaps in front of them and commas between them spell the items that each of
them spells.

Proof: by induction on the items. -/
theorem spellsItems_of_each (write : List Json → List Char) (nil : write [] = [])
    (cons : ∀ item rest, write (item :: rest) =
      line ++ chars item ++ (if rest.isEmpty then [] else [',']) ++ write rest)
    {pairs : List (Json × Json)} (nonempty : pairs ≠ [])
    (each : ∀ pair ∈ pairs, Spells pair.2 (chars pair.1)) :
    SpellsItems (pairs.map Prod.snd) (write (pairs.map Prod.fst)) := by
  induction pairs with
  | nil => exact absurd rfl nonempty
  | cons pair pairs inductionHypothesis =>
    have first := each pair List.mem_cons_self
    rw [List.map_cons, List.map_cons, cons]
    cases pairs with
    | nil => simpa [nil] using SpellsItems.last gap first
    | cons second pairs =>
      have others := inductionHypothesis (by simp) fun other member =>
        each other (List.mem_cons_of_mem _ member)
      simpa using SpellsItems.cons gap first others

include gapBetween

/-- Members that are set out with gaps in front of them and behind their colons and with commas between
them spell the members whose values theirs spell.

Proof: by induction on the members. -/
theorem spellsMembers_of_each (write : List (String × Json) → List Char) (nil : write [] = [])
    (cons : ∀ name value rest, write ((name, value) :: rest) =
      line ++ quote name ++ ':' :: between ++ chars value ++ (if rest.isEmpty then [] else [','])
        ++ write rest)
    {members : List (String × Json × Json)} (nonempty : members ≠ [])
    (each : ∀ member ∈ members, Spells member.2.2 (chars member.2.1)) :
    SpellsMembers (members.map fun member => (member.1, member.2.2))
      (write (members.map fun member => (member.1, member.2.1))) := by
  induction members with
  | nil => exact absurd rfl nonempty
  | cons member members inductionHypothesis =>
    obtain ⟨name, value, read⟩ := member
    have first : Spells read (chars value) := each (name, value, read) List.mem_cons_self
    rw [List.map_cons, List.map_cons, cons]
    cases members with
    | nil => simpa [nil] using SpellsMembers.last name gap gapBetween first
    | cons second members =>
      have others := inductionHypothesis (by simp) fun member isMember =>
        each member (List.mem_cons_of_mem _ isMember)
      simpa using SpellsMembers.cons name gap gapBetween first others

end

/-- A new line is a gap. -/
theorem gap_newLine (level : Nat) : Gap (newLine level) := by
  intro c member
  rcases List.mem_cons.mp member with rfl | blank
  · rfl
  · rw [List.eq_of_mem_replicate blank]
    rfl

/-- What is read where a value is written whose integers fit words: the same, but for its doubles. -/
inductive ReadAs : Json → Json → Prop where
  | null : ReadAs .null .null
  | bool (value : Bool) : ReadAs (.bool value) (.bool value)
  | integer {value : Int} (least : -signedLimit ≤ value) (most : value < wordLimit) :
      ReadAs (.integer value) (.integer value)
  | real {x : Float} {value : Json} (spelled : Spells value (writeReal x)) : ReadAs (.real x) value
  | string (value : String) : ReadAs (.string value) (.string value)
  | array (pairs : List (Json × Json)) (each : ∀ pair ∈ pairs, ReadAs pair.1 pair.2) :
      ReadAs (.array (pairs.map Prod.fst)) (.array (pairs.map Prod.snd))
  | object (members : List (String × Json × Json))
      (each : ∀ member ∈ members, ReadAs member.2.1 member.2.2) :
      ReadAs (.object (members.map fun member => (member.1, member.2.1)))
        (.object (members.map fun member => (member.1, member.2.2)))

namespace ReadAs

variable {json read : Json}

/-- The compact form of a value spells what is read where the value is written.

Proof: by induction over the parts. -/
theorem spells_compactChars (readAs : ReadAs json read) : Spells read json.compactChars := by
  induction readAs with
  | null =>
    rw [compactChars]
    exact .null
  | bool value =>
    rw [compactChars]
    cases value
    · exact .no
    · exact .yes
  | integer least most =>
    rw [compactChars]
    exact spells_integer least most
  | real spelled =>
    rw [compactChars]
    exact spelled
  | string value =>
    rw [compactChars]
    exact .string value
  | array pairs _ inductionHypothesis =>
    rw [compactChars]
    cases pairs with
    | nil => exact .emptyArray
    | cons pair pairs =>
      have spelled := spellsItems_of_each gap_nil compactItems rfl
        (fun item rest => by rw [compactItems, List.nil_append]) (by simp) inductionHypothesis
      simpa using Spells.array spelled gap_nil
  | object members _ inductionHypothesis =>
    rw [compactChars]
    cases members with
    | nil => exact .emptyObject
    | cons member members =>
      have spelled := spellsMembers_of_each gap_nil gap_nil compactMembers rfl
        (fun name value rest => by rw [compactMembers]; simp) (by simp) inductionHypothesis
      simpa using Spells.object spelled gap_nil

/-- The spread form of a value spells what is read where the value is written, at any level.

Proof: by induction over the parts. -/
theorem spells_spreadChars (readAs : ReadAs json read) (level : Nat) :
    Spells read (json.spreadChars level) := by
  induction readAs generalizing level with
  | null =>
    rw [spreadChars]
    exact .null
  | bool value =>
    rw [spreadChars]
    cases value
    · exact .no
    · exact .yes
  | integer least most =>
    rw [spreadChars]
    exact spells_integer least most
  | real spelled =>
    rw [spreadChars]
    exact spelled
  | string value =>
    rw [spreadChars]
    exact .string value
  | array pairs _ inductionHypothesis =>
    cases pairs with
    | nil =>
      rw [List.map_nil, List.map_nil, spreadChars]
      exact .emptyArray
    | cons pair pairs =>
      have spelled := spellsItems_of_each (gap_newLine (level + 1)) (spreadItems (level + 1))
        (by rw [spreadItems]) (fun item rest => by rw [spreadItems]) (by simp)
        fun pair member => inductionHypothesis pair member (level + 1)
      rw [spreadChars]
      · exact Spells.array spelled (gap_newLine level)
      · simp
  | object members _ inductionHypothesis =>
    cases members with
    | nil =>
      rw [List.map_nil, List.map_nil, spreadChars]
      exact .emptyObject
    | cons member members =>
      have blank : Gap [' '] := fun c member => by rw [List.mem_singleton.mp member]; rfl
      have spelled := spellsMembers_of_each (gap_newLine (level + 1)) blank
        (spreadMembers (level + 1)) (by rw [spreadMembers])
        (fun name value rest => by rw [spreadMembers]) (by simp)
        fun member isMember => inductionHypothesis member isMember (level + 1)
      rw [spreadChars]
      · exact Spells.object spelled (gap_newLine level)
      · simp

/-- Both forms of a value are read as what is read where the value is written. -/
theorem parse?_written (readAs : ReadAs json read) :
    Json.parse? json.compact = some read ∧ Json.parse? json.spread = some read :=
  ⟨readAs.spells_compactChars.parse?, (readAs.spells_spreadChars 0).parse?⟩

end ReadAs

namespace Legible

variable {json : Json}

/-- What can be read back is read where it is written.

Proof: by induction over the parts. -/
theorem readAs (legible : Legible json) : ReadAs json json := by
  induction legible with
  | null => exact .null
  | bool value => exact .bool value
  | integer least most => exact .integer least most
  | real readsBack => exact .real (spells_real readsBack)
  | string value => exact .string value
  | @array items _ inductionHypothesis =>
    have same := ReadAs.array (items.map fun item => (item, item))
      (List.forall_mem_map.mpr inductionHypothesis)
    simpa [Function.comp_def] using same
  | @object members _ inductionHypothesis =>
    have same := ReadAs.object (members.map fun member => (member.1, member.2, member.2))
      (List.forall_mem_map.mpr inductionHypothesis)
    simpa [Function.comp_def] using same

/-- What can be read back is read from its compact form and from its spread form. -/
theorem parse?_written (legible : Legible json) :
    Json.parse? json.compact = some json ∧ Json.parse? json.spread = some json :=
  legible.readAs.parse?_written

end Legible

end Json

end Breadboard
