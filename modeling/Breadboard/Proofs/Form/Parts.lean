import Breadboard.Form.Parts
import Breadboard.Proofs.Circuit.Bare
import Breadboard.Proofs.Json.Writing

/-!
# The file form of components is read back

A file has its numbers within machine words, and what is stored there is what fits them. Such signals,
ports and components are read back from their file form as they are, apart from what a chip has derived.
Their file form can be written out, too, and read back from the text, if the frequencies of oscillators
can.
-/

namespace Breadboard

namespace Json

/-- A list is read back if each item is. -/
theorem list?_map {α β : Type} {write : α → Json} {read : Json → Option β} {result : α → β} {items : List α}
    (each : ∀ item ∈ items, read (write item) = some (result item)) :
    list? read (.array (items.map write)) = some (items.map result) := by
  rw [list?]
  induction items with
  | nil => rfl
  | cons item items inductionHypothesis =>
    have others := inductionHypothesis fun other member => each other (List.mem_cons_of_mem _ member)
    simp [each item List.mem_cons_self, others]

/-- A required field that is given is read. -/
@[simp] theorem required_some {α : Type} (read : Json → Option α) (value : Json) :
    required read (some value) = read value :=
  rfl

/-- A field with a default that is given is read. -/
@[simp] theorem optional_some {α : Type} (default : α) (read : Json → Option α) (value : Json) :
    optional default read (some value) = read value :=
  rfl

/-- A number below the limit is read back. -/
theorem natBelow?_nat {limit n : Nat} (below : n < limit) : natBelow? limit (.nat n) = some n := by
  rw [nat, natBelow?, if_pos (by omega), Int.toNat_natCast]

/-- A natural number below the limit of words can be read back from a text. -/
theorem Legible.nat {n : Nat} (below : n < wordLimit) : Legible (.nat n) :=
  .integer (by simp only [signedLimit]; omega) (by omega)

end Json

/-- A bus is read from its fields. -/
theorem Bus.ofJson?_of_fields {json : Json} (width data : Option Json)
    (fields : json.fields? ["width", "data"] = some [width, data]) :
    Bus.ofJson? json =
      (Json.required (Json.natBelow? handleLimit) width).bind fun width =>
        (Json.required (Json.natBelow? wordLimit) data).bind fun data => some (Bus.ofNat data width) := by
  rw [Bus.ofJson?, fields]
  rfl

/-- Of a bus the width and the bits fit machine words. -/
theorem Bus.fits (bus : Bus) : bus.width < handleLimit ∧ bus.word < wordLimit := by
  have most : bus.width ≤ 64 := bus.width_le
  have fits : bitWeight bus.width ≤ wordLimit := Nat.pow_le_pow_right (by decide) most
  refine ⟨?_, Nat.lt_of_lt_of_le bus.word_lt fits⟩
  rw [handleLimit]
  omega

/-- A bus is the one of its bits and its width. -/
theorem Bus.ofNat_word (bus : Bus) : Bus.ofNat bus.word bus.width = bus := by
  obtain ⟨width, word, width_pos, width_le, word_lt⟩ := bus
  have clamped : clampWidth width = width := by
    simp only [clampWidth, maxBusWidth] at *
    omega
  simp only [Bus.ofNat, clamped, Nat.mod_eq_of_lt word_lt]

/-- A bus is read back. -/
theorem Bus.ofJson?_toJson (bus : Bus) : Bus.ofJson? bus.toJson = some bus := by
  obtain ⟨widthFits, wordFits⟩ := bus.fits
  rw [Bus.ofJson?_of_fields (some (.nat bus.width)) (some (.nat bus.word)) rfl,
    Json.required_some, Json.natBelow?_nat widthFits, Option.bind_some, Json.required_some,
    Json.natBelow?_nat wordFits, Option.bind_some, bus.ofNat_word]

/-- The file form of a bus can be read back from a text. -/
theorem Bus.legible_toJson (bus : Bus) : Json.Legible bus.toJson := by
  obtain ⟨widthFits, wordFits⟩ := bus.fits
  have widthFitsWord : bus.width < wordLimit := Nat.lt_trans widthFits (by decide)
  exact .object (List.forall_mem_cons.mpr
    ⟨.nat widthFitsWord, List.forall_mem_singleton.mpr (.nat wordFits)⟩)

/-- A signal is read back. -/
theorem Signal.ofJson?_toJson (signal : Signal) : Signal.ofJson? signal.toJson = some signal := by
  cases signal with
  | bit value => rfl
  | bus value =>
    have reads : Signal.ofJson? (Signal.bus value).toJson = (Bus.ofJson? value.toJson).map .bus := rfl
    rw [reads, value.ofJson?_toJson]
    rfl

/-- The file form of a signal can be read back from a text. -/
theorem Signal.legible_toJson (signal : Signal) : Json.Legible signal.toJson := by
  cases signal with
  | bit value => exact .bool value
  | bus value => exact value.legible_toJson

namespace PortMap

/-- An entry behind all others is put at the end.

Proof: by induction on the entries. -/
theorem put_last {name : String} {signal : Signal} {entries : List (String × Signal)}
    (last : ∀ entry ∈ entries, entry.1 < name) : put name signal entries = entries ++ [(name, signal)] := by
  induction entries with
  | nil => rfl
  | cons entry rest inductionHypothesis =>
    obtain ⟨key, present⟩ := entry
    have before : key < name := last (key, present) List.mem_cons_self
    rw [put, if_neg (String.lt_asymm before), if_neg (Ne.symm (String.ne_of_lt before)),
      inductionHypothesis fun entry member => last entry (List.mem_cons_of_mem _ member)]
    rfl

/-- A map is the map of its entries.

Proof: by induction on the entries, from the last one on. -/
theorem ofList_entries (ports : PortMap) : ofList ports.entries = ports := by
  have same {entries : List (String × Signal)}
      (sorted : entries.Pairwise fun first second => first.1 < second.1) :
      (ofList entries).entries = entries := by
    induction entries using List.reverseRecOn with
    | nil => rfl
    | append_singleton entries last inductionHypothesis =>
      obtain ⟨frontSorted, _, below⟩ := List.pairwise_append.mp sorted
      have step : ofList (entries ++ [last]) = (ofList entries).insert last.1 last.2 := by
        rw [ofList, List.foldl_append]
        rfl
      have entered : ((ofList entries).insert last.1 last.2).entries =
          put last.1 last.2 (ofList entries).entries := rfl
      rw [step, entered, inductionHypothesis frontSorted]
      exact put_last fun entry member => below entry member last (List.mem_singleton.mpr rfl)
  have entries := same ports.sorted
  revert entries
  cases ofList ports.entries
  rintro rfl
  rfl

/-- The signals of a node are read back. -/
theorem ofJson?_toJson (ports : PortMap) : PortMap.ofJson? ports.toJson = some ports := by
  have each : (ports.entries.map fun entry => (entry.1, entry.2.toJson)).mapM
      (fun member => (Signal.ofJson? member.2).map (Prod.mk member.1)) = some ports.entries := by
    induction ports.entries with
    | nil => rfl
    | cons entry rest inductionHypothesis => simp [entry.2.ofJson?_toJson, inductionHypothesis]
  rw [toJson, ofJson?, each, Option.map_some, ofList_entries]

/-- The file form of the signals of a node can be read back from a text. -/
theorem legible_toJson (ports : PortMap) : Json.Legible ports.toJson := by
  refine .object fun member isMember => ?_
  obtain ⟨entry, _, rfl⟩ := List.mem_map.mp isMember
  exact entry.2.legible_toJson

end PortMap

/-- The width of the port, if it is stated, is a 32-bit number. -/
def PortDecl.Storable (decl : PortDecl) : Prop :=
  ∀ width ∈ decl.width, width < handleLimit

instance (decl : PortDecl) : Decidable decl.Storable :=
  inferInstanceAs (Decidable (∀ width ∈ decl.width, width < handleLimit))

/-- A declared port is read from its fields. -/
theorem PortDecl.ofJson?_of_fields {json : Json} (id label bus width : Option Json)
    (fields : json.fields? ["id", "label", "bus", "width"] = some [id, label, bus, width]) :
    PortDecl.ofJson? json =
      (Json.required Json.string? id).bind fun id =>
        (Json.optional "" Json.string? label).bind fun label =>
          (Json.optional false Json.bool? bus).bind fun bus =>
            (Json.optional none (Json.orNull? (Json.natBelow? handleLimit)) width).bind fun width =>
              some ⟨id, label, bus, width⟩ := by
  rw [PortDecl.ofJson?, fields]
  rfl

/-- A declared port is read back. -/
theorem PortDecl.ofJson?_toJson {decl : PortDecl} (storable : decl.Storable) :
    PortDecl.ofJson? decl.toJson = some decl := by
  obtain ⟨id, label, bus, width⟩ := decl
  cases width with
  | none => rfl
  | some width =>
    have present : Json.orNull? (Json.natBelow? handleLimit) (.nat width) =
        (Json.natBelow? handleLimit (.nat width)).map some := by
      rw [Json.nat, Json.orNull?]
      exact fun isNull => by cases isNull
    rw [PortDecl.ofJson?_of_fields (some (.string id)) (some (.string label)) (some (.bool bus))
        (some (.nat width)) rfl,
      Json.optional_some none, present, Json.natBelow?_nat (storable width rfl)]
    rfl

/-- The file form of a declared port can be read back from a text. -/
theorem PortDecl.legible_toJson {decl : PortDecl} (storable : decl.Storable) :
    Json.Legible decl.toJson := by
  refine .object (List.forall_mem_append.mpr ⟨?_, ?_⟩)
  · exact List.forall_mem_cons.mpr ⟨.string _, List.forall_mem_cons.mpr
      ⟨.string _, List.forall_mem_singleton.mpr (.bool _)⟩⟩
  · intro member isMember
    obtain ⟨width, isWidth, rfl⟩ := Option.map_eq_some_iff.mp (Option.mem_toList.mp isMember)
    exact .nat (Nat.lt_trans (storable width isWidth) (by decide))

/-- The lit segments are read back. -/
theorem Segments.ofJson?_toJson (segments : Segments) :
    Segments.ofJson? segments.toJson = some segments :=
  rfl

/-- The file form of the lit segments can be read back from a text. -/
theorem Segments.legible_toJson (segments : Segments) : Json.Legible segments.toJson := by
  refine .object fun member isMember => ?_
  obtain ⟨entry, _, rfl⟩ := List.mem_map.mp isMember
  exact .bool entry.2

/-- The count of the oscillator is a 64-bit number. -/
def Oscillator.Storable (oscillator : Oscillator) : Prop :=
  oscillator.tick < wordLimit

instance (oscillator : Oscillator) : Decidable oscillator.Storable :=
  inferInstanceAs (Decidable (oscillator.tick < wordLimit))

/-- An oscillator is read from its fields. -/
theorem Oscillator.ofJson?_of_fields {json : Json} (frequency running state tick : Option Json)
    (fields : json.fields? ["frequency", "running", "state", "tick"] =
      some [frequency, running, state, tick]) :
    Oscillator.ofJson? json =
      (Json.optional initial.frequency.hertz Json.float? frequency).bind fun hertz =>
        (Json.optional initial.running Json.bool? running).bind fun running =>
          (Json.optional initial.state Json.bool? state).bind fun state =>
            (Json.optional initial.tick (Json.natBelow? wordLimit) tick).bind fun tick =>
              some ⟨⟨hertz⟩, running, state, tick⟩ := by
  rw [Oscillator.ofJson?, fields]
  rfl

/-- An oscillator is read back. -/
theorem Oscillator.ofJson?_members {oscillator : Oscillator} (storable : oscillator.Storable) :
    Oscillator.ofJson? (.object oscillator.members) = some oscillator := by
  obtain ⟨frequency, running, state, tick⟩ := oscillator
  rw [Oscillator.ofJson?_of_fields (some (.real frequency.hertz)) (some (.bool running))
      (some (.bool state)) (some (.nat tick)) rfl,
    Json.optional_some initial.tick, Json.natBelow?_nat storable]
  rfl

/-- The fields of an oscillator can be read back from a text if its frequency can. -/
theorem Oscillator.legible_members {oscillator : Oscillator} (storable : oscillator.Storable)
    (readsBack : Json.ReadsBack oscillator.frequency.hertz) :
    ∀ member ∈ oscillator.members, Json.Legible member.2 :=
  List.forall_mem_cons.mpr ⟨.real readsBack, List.forall_mem_cons.mpr ⟨.bool _,
    List.forall_mem_cons.mpr ⟨.bool _, List.forall_mem_singleton.mpr (.nat storable)⟩⟩⟩

/-- The declared ports of the chip have widths that are 32-bit numbers. -/
def Chip.Storable {Inner : Type} (chip : Chip Inner) : Prop :=
  (∀ decl ∈ chip.inputs, decl.Storable) ∧ ∀ decl ∈ chip.outputs, decl.Storable

instance {Inner : Type} (chip : Chip Inner) : Decidable chip.Storable :=
  inferInstanceAs (Decidable ((∀ decl ∈ chip.inputs, decl.Storable) ∧ ∀ decl ∈ chip.outputs, decl.Storable))

section

variable {Inner : Type} {read : Json → Option Inner}

/-- A chip is read from its fields. -/
theorem Chip.ofJson?_of_fields {json : Json} (name inputs outputs circuit : Option Json)
    (fields : json.fields? ["name", "inputs", "outputs", "circuit"] =
      some [name, inputs, outputs, circuit]) :
    Chip.ofJson? read json =
      (Json.required Json.string? name).bind fun name =>
        (Json.required (Json.list? PortDecl.ofJson?) inputs).bind fun inputs =>
          (Json.required (Json.list? PortDecl.ofJson?) outputs).bind fun outputs =>
            (Json.required read circuit).bind fun circuit =>
              some ⟨name, inputs, outputs, circuit, none, .empty⟩ := by
  rw [Chip.ofJson?, fields]
  rfl

/-- Declared ports are read back. -/
theorem PortDecl.list?_toJson {decls : List PortDecl} (storable : ∀ decl ∈ decls, decl.Storable) :
    Json.list? PortDecl.ofJson? (.array (decls.map PortDecl.toJson)) = some decls := by
  have each : ∀ decl ∈ decls, PortDecl.ofJson? decl.toJson = some ((fun decl => decl) decl) :=
    fun decl member => PortDecl.ofJson?_toJson (storable decl member)
  rw [Json.list?_map each, List.map_id']

/-- The file form of declared ports can be read back from a text. -/
theorem PortDecl.legible_list {decls : List PortDecl} (storable : ∀ decl ∈ decls, decl.Storable) :
    Json.Legible (.array (decls.map PortDecl.toJson)) := by
  refine .array fun item isItem => ?_
  obtain ⟨decl, member, rfl⟩ := List.mem_map.mp isItem
  exact PortDecl.legible_toJson (storable decl member)

/-- A chip is read back around the circuit that is read back, without anything derived. -/
theorem Chip.ofJson?_members {chip : Chip Json} (storable : chip.Storable) {circuit : Inner}
    (inner : read chip.circuit = some circuit) :
    Chip.ofJson? read (.object chip.members) =
      some ⟨chip.name, chip.inputs, chip.outputs, circuit, none, .empty⟩ := by
  rw [Chip.ofJson?_of_fields (some (.string chip.name))
      (some (.array (chip.inputs.map PortDecl.toJson)))
      (some (.array (chip.outputs.map PortDecl.toJson))) (some chip.circuit) rfl,
    Json.required_some, Json.required_some, Json.required_some, Json.required_some,
    PortDecl.list?_toJson storable.1, PortDecl.list?_toJson storable.2, inner]
  rfl

/-- The fields of a chip can be read back from a text if its circuit can. -/
theorem Chip.legible_members {chip : Chip Json} (storable : chip.Storable)
    (inner : Json.Legible chip.circuit) : ∀ member ∈ chip.members, Json.Legible member.2 :=
  List.forall_mem_cons.mpr ⟨.string _, List.forall_mem_cons.mpr
    ⟨PortDecl.legible_list storable.1, List.forall_mem_cons.mpr
      ⟨PortDecl.legible_list storable.2, List.forall_mem_singleton.mpr inner⟩⟩⟩

/-- The width of a pin is read back. -/
theorem PinWidth.ofJson?_nat (width : PinWidth) : PinWidth.ofJson? (.nat width.bits) = some width := by
  cases width <;> rfl

namespace Part

/-- The numbers of the component fit machine words. -/
def Storable : Part Inner → Prop
  | .clock oscillator => oscillator.Storable
  | .chip body => body.Storable
  | _ => True

/-- The frequency of the component, if it is an oscillator, is read as it is written. -/
def FrequencyReadsBack : Part Inner → Prop
  | .clock oscillator => Json.ReadsBack oscillator.frequency.hertz
  | _ => True

instance (part : Part Inner) : Decidable part.Storable :=
  match part with
  | .clock oscillator => inferInstanceAs (Decidable oscillator.Storable)
  | .chip body => inferInstanceAs (Decidable body.Storable)
  | .inputPin .. | .switch .. | .outputPin .. | .light .. | .gate .. | .triBuffer | .merge .. | .split ..
  | .resize .. | .sevenSegment .. | .joint | .comment | .unknown => isTrue trivial

instance (part : Part Inner) : Decidable part.FrequencyReadsBack :=
  match part with
  | .clock oscillator => inferInstanceAs (Decidable (Json.ReadsBack oscillator.frequency.hertz))
  | .inputPin .. | .switch .. | .outputPin .. | .light .. | .gate .. | .triBuffer | .merge .. | .split ..
  | .resize .. | .sevenSegment .. | .joint | .comment | .chip .. | .unknown => isTrue trivial

/-- The component with the tag in front is read from its fields. -/
theorem ofJson?_tagged {nested : Bool} {tag : String} {members : List (String × Json)}
    (noTag : ∀ member ∈ members, member.1 ≠ "type") :
    Part.ofJson? nested read (.tagged tag members) = ofFields? read tag (.object members) := by
  have none : members.filter (·.1 == "type") = [] :=
    List.filter_eq_nil_iff.mpr fun member isMember => by simpa using noTag member isMember
  have all : members.filter (·.1 != "type") = members :=
    List.filter_eq_self.mpr fun member isMember => by simpa using noTag member isMember
  have split : (Json.tagged tag members).tagged? = some (.string tag, .object members) := by
    simp [Json.tagged, Json.tagged?, Json.field?, none, all]
  rw [Part.ofJson?, split]
  rfl

/-- A component is read back around the circuit that is read back, without anything derived.

Proof: kind by kind. The fields of each are found under their names. -/
theorem ofJson?_toJson {part : Part Circuit} (storable : part.Storable) {write : Circuit → Json}
    {nested : Bool} {read : Json → Option Circuit}
    (inner : ∀ body, part = .chip body → read (write body.circuit) = some body.circuit.bare) :
    Part.ofJson? nested read (part.map write).toJson = some (part.map Circuit.bare).bare := by
  cases part with
  | inputPin width state =>
    have fields (width state : Json) :
        ofFields? read "INPUT_PIN" (.object [("width", width), ("state", state)]) =
          (PinWidth.ofJson? width).bind fun width => (Signal.ofJson? state).bind fun state =>
            some (.inputPin width state) := rfl
    rw [Part.map, Part.toJson, ofJson?_tagged (by simp), fields, width.ofJson?_nat, state.ofJson?_toJson]
    rfl
  | outputPin width shown =>
    have fields (width shown : Json) :
        ofFields? read "OUTPUT_PIN" (.object [("width", width), ("display", shown)]) =
          (PinWidth.ofJson? width).bind fun width => (Signal.ofJson? shown).bind fun shown =>
            some (.outputPin width shown) := rfl
    rw [Part.map, Part.toJson, ofJson?_tagged (by simp), fields, width.ofJson?_nat, shown.ofJson?_toJson]
    rfl
  | gate function => cases function <;> rfl
  | merge lanes => cases lanes <;> rfl
  | split lanes => cases lanes <;> rfl
  | resize direction => cases direction <;> rfl
  | clock oscillator =>
    have fields (rest : Json) : ofFields? read "CLOCK" rest = (Oscillator.ofJson? rest).map .clock := rfl
    rw [Part.map, Part.toJson, ofJson?_tagged (by simp [Oscillator.members]), fields,
      Oscillator.ofJson?_members storable]
    rfl
  | chip body =>
    have fields (rest : Json) : ofFields? read "CUSTOM" rest = (Chip.ofJson? read rest).map .chip := rfl
    have storableWritten : (body.map write).Storable := storable
    rw [Part.map, Part.toJson, ofJson?_tagged (by simp [Chip.members]), fields,
      Chip.ofJson?_members storableWritten (inner body rfl)]
    rfl
  | sevenSegment segments =>
    have fields (segments : Json) : ofFields? read "7SEG" (.object [("segments", segments)]) =
        (Segments.ofJson? segments).bind fun segments => some (.sevenSegment segments) := rfl
    rw [Part.map, Part.toJson, ofJson?_tagged (by simp), fields, segments.ofJson?_toJson]
    rfl
  | _ => rfl

/-- The file form of a component can be read back from a text if the circuit of a chip and the frequency of
an oscillator can. -/
theorem legible_toJson {part : Part Inner} (storable : part.Storable) {write : Inner → Json}
    (frequency : part.FrequencyReadsBack)
    (inner : ∀ body, part = .chip body → Json.Legible (write body.circuit)) :
    Json.Legible (part.map write).toJson := by
  have tagged {tag : String} {members : List (String × Json)}
      (each : ∀ member ∈ members, Json.Legible member.2) : Json.Legible (.tagged tag members) :=
    .object (List.forall_mem_cons.mpr ⟨.string tag, each⟩)
  have none : ∀ member ∈ ([] : List (String × Json)), Json.Legible member.2 :=
    fun member isMember => by cases isMember
  have one {name : String} {value : Json} (legible : Json.Legible value) :
      ∀ member ∈ [(name, value)], Json.Legible member.2 :=
    List.forall_mem_singleton.mpr legible
  have width (width : PinWidth) : Json.Legible (.nat width.bits) := .nat (by cases width <;> decide)
  have lanes (lanes : LaneCount) : Json.Legible (.nat lanes.lanes) := .nat (by cases lanes <;> decide)
  cases part with
  | inputPin bits state => exact tagged (List.forall_mem_cons.mpr ⟨width bits, one state.legible_toJson⟩)
  | switch on => exact tagged (one (.bool on))
  | outputPin bits shown => exact tagged (List.forall_mem_cons.mpr ⟨width bits, one shown.legible_toJson⟩)
  | light lit => exact tagged (one (.bool lit))
  | gate function => exact tagged (one (.string function.name))
  | triBuffer => exact tagged none
  | merge count => exact tagged (one (lanes count))
  | split count => exact tagged (one (lanes count))
  | resize direction => exact tagged (one (.string direction.name))
  | sevenSegment segments => exact tagged (one segments.legible_toJson)
  | clock oscillator => exact tagged (oscillator.legible_members storable frequency)
  | joint => exact tagged none
  | comment => exact tagged none
  | chip body =>
    have storableWritten : (body.map write).Storable := storable
    exact tagged (Chip.legible_members storableWritten (inner body rfl))
  | unknown => exact tagged none

end Part

end

end Breadboard
