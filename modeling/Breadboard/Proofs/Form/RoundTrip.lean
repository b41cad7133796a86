import Breadboard.Proofs.Form.Acceptance

/-!
# Circuit files are read back

A file holds a bare circuit: two circuits that are the same once bare have one text. What is written of a
circuit, on one line or spread over lines, is read back as the circuit, but for stamps and what is derived.
The numbers of the circuit have to fit machine words, its file form has to nest within the limit, and the
frequencies of its oscillators have to be read as they are written, which holds of every finite double as
far as the text of doubles is exact. A circuit that was read meets the first two by itself.
-/

namespace Breadboard

namespace Circuit

variable {left right : Circuit}

/-- What bare circuits tell of a circuit holds throughout all circuits that are the same once bare or none.

Proof: by induction over the nesting. Every chip has a counterpart around a circuit that is the same once
bare. -/
theorem Throughout.of_bare_eq {property : Circuit → Prop}
    (told : ∀ {left right : Circuit}, left.bare = right.bare → property left → property right)
    (same : left.bare = right.bare) (throughout : left.Throughout property) :
    right.Throughout property := by
  induction right using nesting_induction generalizing left with
  | step right inductionHypothesis =>
    refine throughout_iff.mpr ⟨told same (throughout left (.refl left)), ?_⟩
    intro id node body found isChip
    obtain ⟨other, foundOther, sameNode⟩ := counterpart_of_bare_eq same.symm found
    rcases Node.cases_of_bare_eq sameNode with ⟨_, plain⟩ | ⟨_, inner, _, _, wasChip, sameInner, rfl⟩
    · exact absurd isChip (plain body)
    · obtain rfl := Part.chip.inj (wasChip.symm.trans isChip)
      exact inductionHypothesis id node _ found isChip sameInner (throughout.inside foundOther rfl)

/-- Circuits that are the same once bare have the same frequencies. -/
theorem FrequenciesReadBack.of_bare_eq (same : left.bare = right.bare)
    (frequencies : left.FrequenciesReadBack) : right.FrequenciesReadBack := by
  refine Throughout.of_bare_eq (fun {left right} same each => ?_) same frequencies
  intro id node found
  obtain ⟨other, foundOther, sameNode⟩ := counterpart_of_bare_eq same.symm found
  rcases Node.cases_of_bare_eq sameNode with ⟨rfl, _⟩ | ⟨_, _, _, _, isChip, _⟩
  · exact each id other foundOther
  · rw [isChip]
    trivial

/-- A bare circuit is bare. -/
theorem bare_bare (circuit : Circuit) : circuit.bare.bare = circuit.bare := by
  have same : ((fun node => { node with part := node.part.bare }) ∘
      fun node : Node Circuit => { node with part := node.part.bare }) =
        fun node => { node with part := node.part.bare } := by
    funext ⟨label, position, part, inputs, outputs⟩
    cases part <;> rfl
  rw [bare, viewed_viewed Node.map_withBarePart, same]
  rfl

/-- What is written of a circuit is written of the bare circuit.

Proof: by induction over the nesting. -/
theorem toJson_bare (circuit : Circuit) : circuit.bare.toJson = circuit.toJson := by
  induction circuit using nesting_induction with
  | step circuit inductionHypothesis =>
    have each : ∀ slot ∈ circuit.nodes.slots,
        (((slot.map Node.bare).map fun node => (node.map toJson).toJson).getD .null) =
          (slot.map fun node => (node.map toJson).toJson).getD .null := by
      rintro (_ | node) member
      · rfl
      · obtain ⟨id, found⟩ := Arena.exists_get?_of_mem_slots member
        obtain ⟨label, position, part, inputs, outputs⟩ := node
        cases part with
        | chip body =>
          have inner := inductionHypothesis id _ body found rfl
          rw [Option.map_some, Node.bare_of_chip rfl]
          simp only [Option.map_some, Option.getD_some, Node.map, Part.map, Chip.map, inner]
          rfl
        | _ => rfl
    have nodes : (circuit.nodes.map Node.bare).toJson (fun node => (node.map toJson).toJson) =
        circuit.nodes.toJson fun node => (node.map toJson).toJson := by
      simp only [Arena.toJson, Arena.map, List.map_map]
      exact congrArg Json.array (List.map_congr_left each)
    rw [toJson_eq, toJson_eq circuit, bare_eq, nodes]

/-- The texts of a circuit: on one line, and spread over lines as in a file. -/
def texts (circuit : Circuit) : List String :=
  [circuit.toJson.compact, circuit.fileText]

/-- The text in a file is one of the texts. -/
theorem fileText_mem_texts (circuit : Circuit) : circuit.fileText ∈ circuit.texts := by
  simp [texts]

/-- Circuits that are the same once bare have the same texts. -/
theorem texts_of_bare_eq (same : left.bare = right.bare) : left.texts = right.texts := by
  have written : left.toJson = right.toJson := by rw [← toJson_bare left, same, toJson_bare]
  rw [texts, texts, fileText, fileText, written]

/-- A text of a circuit whose frequencies are read as they are written is read as its file form. -/
theorem parse?_of_mem_texts {circuit : Circuit} (storable : circuit.Storable)
    (frequencies : circuit.FrequenciesReadBack) {text : String} (member : text ∈ circuit.texts) :
    Json.parse? text = some circuit.toJson := by
  obtain ⟨compact, spread⟩ := (legible_toJson storable frequencies).parse?_written
  rcases List.mem_pair.mp member with rfl | rfl
  · exact compact
  · exact spread

/-- A circuit that is read is renewed from one whose numbers fit machine words and whose file form nests
within the limit. -/
theorem origin_of_ofText? {text : String} {fresh next : Revision} {circuit : Circuit}
    (reads : ofText? text fresh = some (circuit, next)) :
    ∃ origin : Circuit, circuit.bare = origin.bare ∧ origin.Storable ∧
      origin.toJson.soundWithin nestingLimit = true := by
  obtain ⟨json, _, readsJson⟩ := Option.bind_eq_some_iff.mp reads
  obtain ⟨origin, readsNested, renewed⟩ := Option.map_eq_some_iff.mp readsJson
  have isRenewed : (origin.renew fresh).1 = circuit := congrArg Prod.fst renewed
  exact ⟨origin, isRenewed ▸ origin.bare_renew fresh, storable_of_ofNested? readsNested,
    soundWithin_nestingLimit readsNested⟩

/-- A text of a circuit is read as a circuit that is the same once bare. -/
theorem ofText?_of_mem_texts {circuit : Circuit} (storable : circuit.Storable)
    (frequencies : circuit.FrequenciesReadBack) (sound : circuit.toJson.soundWithin nestingLimit = true)
    {text : String} (member : text ∈ circuit.texts) (fresh : Revision) :
    ∃ read next, ofText? text fresh = some (read, next) ∧ read.bare = circuit.bare := by
  have readsNested : ofNested? false nestingLimit circuit.toJson = some circuit.bare :=
    ofNested?_toJson storable sound (Nat.le_refl _) (Nat.le_refl _)
  have reads : ofText? text fresh = some (circuit.bare.renew fresh) := by
    rw [ofText?, parse?_of_mem_texts storable frequencies member, Option.bind_some, ofJson?, readsNested,
      Option.map_some]
  exact ⟨_, _, reads, (bare_renew circuit.bare fresh).trans circuit.bare_bare⟩

/-- **Circuit files are read back.** Both texts of a circuit are read as the circuit in every slot, wire and
field, but for stamps and what chips have derived: if its numbers fit machine words, its frequencies are read
as they are written and its file form nests within the limit. Of a circuit that was read from a text, whatever
that text left out or passed over, only the frequencies have to be so, and what is read of its texts has the
same texts. -/
theorem files_read_back :
    (∀ (circuit : Circuit) (fresh : Revision), circuit.Storable → circuit.FrequenciesReadBack →
      circuit.toJson.nesting ≤ nestingLimit → ∀ text ∈ circuit.texts, ∃ read next,
        ofText? text fresh = some (read, next) ∧ read.bare = circuit.bare) ∧
    ∀ (source : String) (fresh next : Revision) (circuit : Circuit),
      ofText? source fresh = some (circuit, next) → circuit.FrequenciesReadBack →
      ∀ text ∈ circuit.texts, ∀ later, ∃ read after,
        ofText? text later = some (read, after) ∧ read.texts = circuit.texts := by
  constructor
  · intro circuit fresh storable frequencies nested text member
    have sound : circuit.toJson.soundWithin nestingLimit = true :=
      (legible_toJson storable frequencies).soundWithin_iff.mpr nested
    exact ofText?_of_mem_texts storable frequencies sound member fresh
  · intro source fresh next circuit reads frequencies text member later
    obtain ⟨origin, same, storable, sound⟩ := origin_of_ofText? reads
    rw [texts_of_bare_eq same] at member ⊢
    obtain ⟨read, after, readsText, sameRead⟩ :=
      ofText?_of_mem_texts storable (frequencies.of_bare_eq same) sound member later
    exact ⟨read, after, readsText, texts_of_bare_eq sameRead⟩

/-- A clock within its period beside a pin that is driven with a bus. -/
def clockedPin : Circuit :=
  ⟨⟨[some ⟨"clk", ⟨-3, 40⟩, .clock ⟨⟨2.5⟩, true, true, 99⟩, .empty, .ofList [("out", .bit true)]⟩,
    some ⟨"D", ⟨0, 8⟩, .inputPin .eight (.bus (.ofNat 165 8)), .empty, .empty⟩]⟩, [], 5⟩

/-- A chip that has derived its pins, a vacant slot, an unknown component with a signal, and a wire that leads
nowhere. -/
def motleyBoard : Circuit :=
  ⟨⟨[some ⟨"\"tick\"\n", ⟨0, 0⟩,
        .chip ⟨"CLOCKED", [⟨"d", "D", true, some 8⟩], [], clockedPin, some ⟨5, [1], [], true⟩, .empty⟩,
        .ofList [("d", .bus (.ofNat 165 8))], .empty⟩,
      none,
      some ⟨"", ⟨7, -7⟩, .unknown, .ofList [("in", .bit false)], .empty⟩]⟩,
    [⟨⟨0, "out"⟩, ⟨9, "in"⟩⟩], 6⟩

/-- A file that leaves out what it may, with a clock, a component of a kind that is not known, and a member
that is passed over. -/
def terseFile : String :=
  "[[null, \x7b\"kind\": [\"CLOCK\"]\x7d, \x7b\"kind\": \x7b\"type\": \"FLUX\", \"at\": [1.5]\x7d\x7d]]"

/-- The board with a bit of everything is read back from both of its texts, and what is read from a file that
leaves out what it may has texts that are read back. -/
theorem motleyBoard_read_back :
    (motleyBoard.Storable ∧ motleyBoard.FrequenciesReadBack ∧ motleyBoard.toJson.nesting ≤ nestingLimit ∧
      ∃ read next, ofText? motleyBoard.fileText 7 = some (read, next) ∧ read.bare = motleyBoard.bare) ∧
      ∃ circuit next, ofText? terseFile 0 = some (circuit, next) ∧ circuit.FrequenciesReadBack ∧
        ∃ read after, ofText? circuit.fileText 3 = some (read, after) ∧ read.texts = circuit.texts := by
  have storable : motleyBoard.Storable := by decide +kernel
  have readsBack : motleyBoard.FrequenciesReadBack := by decide +kernel
  have nested : motleyBoard.toJson.nesting ≤ nestingLimit := by decide +kernel
  have accepted : (ofText? terseFile 0).isSome = true := by decide +kernel
  have frequencies : ∀ result ∈ ofText? terseFile 0, result.1.FrequenciesReadBack := by decide +kernel
  obtain ⟨⟨circuit, next⟩, reads⟩ := Option.isSome_iff_exists.mp accepted
  constructor
  · exact ⟨storable, readsBack, nested, files_read_back.1 motleyBoard 7 storable readsBack nested
      motleyBoard.fileText motleyBoard.fileText_mem_texts⟩
  · exact ⟨circuit, next, reads, frequencies _ reads, files_read_back.2 terseFile 0 next circuit reads
      (frequencies _ reads) circuit.fileText circuit.fileText_mem_texts 3⟩

end Circuit

end Breadboard
