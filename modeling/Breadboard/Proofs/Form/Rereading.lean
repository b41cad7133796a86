import Breadboard.Proofs.Form.RoundTrip

/-!
# What a file makes of a circuit

Doubles are not always read as they are written, and those that are no numbers are not read at all. What is
written of a circuit is read, if it is read, as the circuit in every slot, wire and field, but for stamps,
for what chips have derived, and for the frequencies of oscillators, each of which becomes the one that is
read where it is written.
-/

namespace Breadboard

namespace Json

/-- The double that is read where a double is written, if one is. -/
def reread (x : Float) : Float :=
  ((Json.parse? (Json.real x).compact).bind Json.float?).getD x

variable {x : Float}

/-- What is written of a double spells the double that is read. -/
theorem reread_eq {value : Json} (spelled : Spells value (writeReal x)) {read : Float}
    (reads : Json.float? value = some read) : reread x = read := by
  rw [reread, parse?_real spelled, Option.bind_some, reads, Option.getD_some]

end Json

/-- The part with the frequency that is read where its own is written, and without what its chip has
derived. -/
def Part.filed : Part Circuit → Part Circuit
  | .clock oscillator => .clock { oscillator with frequency := ⟨Json.reread oscillator.frequency.hertz⟩ }
  | .chip body => .chip { body with bindings := none, lastInputs := .empty }
  | other => other

/-- The circuit that is read where a circuit is written, but for stamps, at every depth. -/
def Circuit.filed : Circuit → Circuit :=
  Circuit.viewed (fun _ => 0) fun node => { node with part := node.part.filed }

/-- The node that is read where a node is written, but for stamps, at every depth. -/
def Node.filed : Node Circuit → Node Circuit :=
  Node.viewed (fun _ => 0) fun node => { node with part := node.part.filed }

/-- A plain component holds no frequency and no circuit. -/
theorem Part.filed_of_plain {part : Part Circuit} (plain : part.IsPlain) (view : Circuit → Circuit) :
    (part.map view).filed = part ∧ (part.map view).bare = part ∧ part.Storable ∧
      part.FrequencyReadsBack := by
  cases part with
  | clock oscillator => exact absurd rfl (plain.1 oscillator)
  | chip body => exact absurd rfl (plain.2 body)
  | _ => exact ⟨rfl, rfl, trivial, trivial⟩

/-- What is read where the circuit is written is read, if it is read, as the circuit in a file. -/
def Circuit.Rereads (circuit : Circuit) : Prop :=
  ∃ value, Json.ReadAs circuit.toJson value ∧
    ∀ nested depth read, ofNested? nested depth value = some read → read = circuit.filed

namespace Part

open Circuit (ofNested?)

/-- What is read where the component is written is read, if it is read, as the component in a file. -/
def Rereads (part : Part Circuit) : Prop :=
  ∃ value, Json.ReadAs (part.map Circuit.toJson).toJson value ∧ ∀ nested depth read,
    Part.ofJson? nested (ofNested? true depth) value = some read → read = (part.map Circuit.filed).filed

/-- Components that are no oscillators and no chips are read as they are written. -/
theorem rereads_of_plain {part : Part Circuit} (plain : part.IsPlain) : part.Rereads := by
  obtain ⟨_, bare, storable, frequency⟩ := filed_of_plain plain Circuit.bare
  have legible : Json.Legible (part.map Circuit.toJson).toJson :=
    legible_toJson storable frequency fun body isChip => absurd isChip (plain.2 body)
  refine ⟨_, legible.readAs, fun nested depth read reads => ?_⟩
  rw [ofJson?_toJson storable fun body isChip => absurd isChip (plain.2 body)] at reads
  rw [(filed_of_plain plain Circuit.filed).1, ← Option.some.inj reads, bare]

/-- An oscillator is read with the frequency that is read where its own is written. -/
theorem rereads_clock {oscillator : Oscillator} (storable : oscillator.tick < wordLimit) :
    Rereads (.clock oscillator) := by
  obtain ⟨frequency, running, state, tick⟩ := oscillator
  obtain ⟨value, spelled⟩ := Json.exists_spells_real frequency.hertz
  refine ⟨.tagged "CLOCK" [("frequency", value), ("running", .bool running), ("state", .bool state),
    ("tick", .nat tick)], ?_, fun nested depth read reads => ?_⟩
  · exact .object ([("type", .string "CLOCK", .string "CLOCK"),
        ("frequency", .real frequency.hertz, value), ("running", .bool running, .bool running),
        ("state", .bool state, .bool state), ("tick", .nat tick, .nat tick)])
      (List.forall_mem_cons.mpr ⟨.string _, List.forall_mem_cons.mpr ⟨.real spelled,
        List.forall_mem_cons.mpr ⟨.bool _, List.forall_mem_cons.mpr ⟨.bool _,
          List.forall_mem_singleton.mpr (Json.Legible.nat storable).readAs⟩⟩⟩⟩)
  · have fields (rest : Json) : ofFields? (ofNested? true depth) "CLOCK" rest =
        (Oscillator.ofJson? rest).map .clock := rfl
    rw [ofJson?_tagged (by simp), fields, Oscillator.ofJson?_of_fields (some value)
      (some (.bool running)) (some (.bool state)) (some (.nat tick)) rfl, Json.optional_some] at reads
    obtain ⟨_, isRead, rfl⟩ := Option.map_eq_some_iff.mp reads
    obtain ⟨hertz, isHertz, others⟩ := Option.bind_eq_some_iff.mp isRead
    rw [Json.optional_some Oscillator.initial.tick, Json.natBelow?_nat storable] at others
    rw [← Option.some.inj others, Part.map, filed]
    simp only [Json.reread_eq spelled isHertz]

/-- A chip is read with its own ports and with what its circuit is read as. -/
theorem rereads_chip {body : Chip Circuit} (storable : body.Storable) (inner : body.circuit.Rereads) :
    Rereads (.chip body) := by
  obtain ⟨value, readAs, inner⟩ := inner
  obtain ⟨inputs, outputs⟩ := storable
  refine ⟨.tagged "CUSTOM" [("name", .string body.name),
    ("inputs", .array (body.inputs.map PortDecl.toJson)),
    ("outputs", .array (body.outputs.map PortDecl.toJson)), ("circuit", value)], ?_,
      fun nested depth read reads => ?_⟩
  · exact .object ([("type", .string "CUSTOM", .string "CUSTOM"),
        ("name", .string body.name, .string body.name),
        ("inputs", .array (body.inputs.map PortDecl.toJson), .array (body.inputs.map PortDecl.toJson)),
        ("outputs", .array (body.outputs.map PortDecl.toJson),
          .array (body.outputs.map PortDecl.toJson)),
        ("circuit", body.circuit.toJson, value)])
      (List.forall_mem_cons.mpr ⟨.string _, List.forall_mem_cons.mpr ⟨.string _,
        List.forall_mem_cons.mpr ⟨(PortDecl.legible_list inputs).readAs, List.forall_mem_cons.mpr
          ⟨(PortDecl.legible_list outputs).readAs, List.forall_mem_singleton.mpr readAs⟩⟩⟩⟩)
  · have fields (rest : Json) : ofFields? (ofNested? true depth) "CUSTOM" rest =
        (Chip.ofJson? (ofNested? true depth) rest).map .chip := rfl
    rw [ofJson?_tagged (by simp), fields, Chip.ofJson?_of_fields (some (.string body.name))
      (some (.array (body.inputs.map PortDecl.toJson)))
      (some (.array (body.outputs.map PortDecl.toJson))) (some value) rfl,
      Json.required_some, Json.required_some, Json.required_some, Json.required_some,
      PortDecl.list?_toJson inputs, PortDecl.list?_toJson outputs] at reads
    obtain ⟨_, isRead, rfl⟩ := Option.map_eq_some_iff.mp reads
    simp only [Json.string?, Option.bind_some] at isRead
    obtain ⟨circuit, isCircuit, same⟩ := Option.bind_eq_some_iff.mp isRead
    rw [← Option.some.inj same, inner _ _ _ isCircuit]
    rfl

/-- A component is read as it is in a file, if its circuit is. -/
theorem rereads {part : Part Circuit} (storable : part.Storable)
    (inner : ∀ body, part = .chip body → body.circuit.Rereads) : part.Rereads := by
  cases part with
  | clock oscillator => exact rereads_clock storable
  | chip body => exact rereads_chip storable (inner body rfl)
  | _ => exact rereads_of_plain ⟨by simp, by simp⟩

end Part

namespace Json

/-- What stands in a slot is read, unless it is `null`. -/
theorem orNull?_of_ne_null {α : Type} (read : Json → Option α) {value : Json} (present : value ≠ .null) :
    orNull? read value = (read value).map some := by
  rw [orNull?]
  exact present

end Json

section

variable {α β : Type} {arena : Arena α} {write : α → Json} {reader : (Json → Option β) → Prop} {become : α → β}

/-- What is read where slots are written is read, if it is read, slot by slot as what each item is read as.

Proof: by induction on the slots. -/
theorem Arena.exists_slots_readAs (slots : List (Option α))
    (each : ∀ item, some item ∈ slots → ∃ value, Json.ReadAs (write item) value ∧ value ≠ .null ∧
      ∀ read, reader read → ∀ result, read value = some result → result = become item) :
    ∃ pairs : List (Json × Json), pairs.map Prod.fst = slots.map (fun slot => (slot.map write).getD .null) ∧
      (∀ pair ∈ pairs, Json.ReadAs pair.1 pair.2) ∧
      ∀ read, reader read → ∀ result, (pairs.map Prod.snd).mapM (Json.orNull? read) = some result →
        result = slots.map (Option.map become) := by
  induction slots with
  | nil => exact ⟨[], rfl, nofun, fun read _ result reads => (Option.some.inj reads).symm⟩
  | cons slot rest inductionHypothesis =>
    obtain ⟨pairs, written, readAs, reads⟩ :=
      inductionHypothesis fun item member => each item (List.mem_cons_of_mem _ member)
    obtain ⟨value, valueReadAs, valueReads⟩ :
        ∃ value, Json.ReadAs ((slot.map write).getD .null) value ∧ ∀ read, reader read → ∀ result,
          Json.orNull? read value = some result → result = slot.map become := by
      cases slot with
      | none => exact ⟨.null, .null, fun read _ result reads => (Option.some.inj reads).symm⟩
      | some item =>
        obtain ⟨value, valueReadAs, present, valueReads⟩ := each item List.mem_cons_self
        refine ⟨value, valueReadAs, fun read isReader result reads => ?_⟩
        rw [Json.orNull?_of_ne_null read present] at reads
        obtain ⟨result, isRead, rfl⟩ := Option.map_eq_some_iff.mp reads
        rw [valueReads read isReader result isRead, Option.map_some]
    refine ⟨((slot.map write).getD .null, value) :: pairs, by simp [written],
      List.forall_mem_cons.mpr ⟨valueReadAs, readAs⟩, fun read isReader result both => ?_⟩
    simp only [List.map_cons, List.mapM_cons, Option.bind_eq_bind, Option.bind_eq_some_iff,
      Option.pure_def, Option.some.injEq] at both
    obtain ⟨first, isFirst, others, areOthers, rfl⟩ := both
    rw [valueReads read isReader first isFirst, reads read isReader others areOthers, List.map_cons]

/-- What is read where an arena is written is read, if it is read, slot by slot as what each item is read
as. -/
theorem Arena.exists_readAs
    (each : ∀ id item, arena.get? id = some item → ∃ value, Json.ReadAs (write item) value ∧
      value ≠ .null ∧ ∀ read, reader read → ∀ result, read value = some result → result = become item) :
    ∃ value, Json.ReadAs (arena.toJson write) value ∧ ∀ read, reader read → ∀ result,
      Arena.ofJson? read value = some result → result = arena.map become := by
  obtain ⟨pairs, written, readAs, reads⟩ := exists_slots_readAs arena.slots fun item member =>
    (exists_get?_of_mem_slots member).elim fun id found => each id item found
  refine ⟨.array (pairs.map Prod.snd), ?_, fun read isReader result isRead => ?_⟩
  · rw [Arena.toJson, ← written]
    exact .array pairs readAs
  · obtain ⟨slots, areSlots, rfl⟩ := Option.map_eq_some_iff.mp isRead
    rw [reads read isReader slots areSlots, Arena.map]

end

/-- A member is left out, or it is read as signals are. -/
theorem PortMap.readAs_member (name : String) (ports : PortMap) :
    ∀ member ∈ (ports.member name).map fun member => (member.1, member.2, member.2),
      Json.ReadAs member.2.1 member.2.2 := by
  intro member isMember
  obtain ⟨original, isOriginal, rfl⟩ := List.mem_map.mp isMember
  rw [PortMap.member] at isOriginal
  split at isOriginal
  · cases isOriginal
  · rw [List.mem_singleton.mp isOriginal]
    exact ports.legible_toJson.readAs

/-- What is read where a node is written is read, if it is read, as the node in a file, provided that so is
what its chip holds. -/
theorem Node.exists_readAs {node : Node Circuit} (storable : node.Storable)
    (inner : ∀ body, node.part = .chip body → body.circuit.Rereads) :
    ∃ value, Json.ReadAs (node.map Circuit.toJson).toJson value ∧ value ≠ .null ∧
      ∀ nested depth result, Node.ofJson? 3 nested (Circuit.ofNested? true depth) value = some result →
        result = node.filed := by
  obtain ⟨part, partReadAs, partReads⟩ := Part.rereads storable.2 inner
  obtain ⟨label, position, written, inputs, outputs⟩ := node
  refine ⟨.object ([("label", .string label), ("position", position.toJson), ("kind", part)]
    ++ inputs.member "inputs" ++ outputs.member "outputs"), ?_, by simp, fun nested depth result reads => ?_⟩
  · have readAs := Json.ReadAs.object ([("label", .string label, .string label),
        ("position", position.toJson, position.toJson), ("kind", (written.map Circuit.toJson).toJson, part)]
      ++ (inputs.member "inputs").map (fun member => (member.1, member.2, member.2))
      ++ (outputs.member "outputs").map fun member => (member.1, member.2, member.2))
      (List.forall_mem_append.mpr ⟨List.forall_mem_append.mpr ⟨List.forall_mem_cons.mpr ⟨.string _,
        List.forall_mem_cons.mpr ⟨(Position.legible_toJson storable.1).readAs,
          List.forall_mem_singleton.mpr partReadAs⟩⟩, inputs.readAs_member _⟩, outputs.readAs_member _⟩)
    simpa [Function.comp_def, Node.map, Node.toJson] using readAs
  · have signals (ports : PortMap) :
        Json.optional .empty (Json.soundly? 3 PortMap.ofJson?) (signalsField ports) = some ports :=
      optional_signalsField (Json.soundWithin_mono (soundWithin_signals ports) (by decide))
    rw [Node.ofJson?_of_fields (fields?_around label position.toJson part inputs outputs), signals, signals,
      Json.optional_some, Json.optional_some, Json.required_some, Position.ofJson?_toJson storable.1]
      at reads
    simp only [Json.string?, Option.bind_some] at reads
    obtain ⟨read, isRead, others⟩ := Option.bind_eq_some_iff.mp reads
    rw [Json.soundly?] at isRead
    split at isRead
    · rw [← Option.some.inj others, partReads nested depth read isRead]
      rfl
    · cases isRead

namespace Circuit

/-- What is read where a circuit is written is read, if it is read, as the circuit in a file.

Proof: by induction over the nesting. -/
theorem rereads {circuit : Circuit} (storable : circuit.Storable) : circuit.Rereads := by
  induction circuit using nesting_induction with
  | step circuit inductionHypothesis =>
    obtain ⟨storableNodes, storableWires⟩ := storable circuit (.refl circuit)
    let isReader (read : Json → Option (Node Circuit)) : Prop :=
      ∃ nested depth, read = Node.ofJson? 3 nested (ofNested? true depth)
    have each (id : NodeId) (node : Node Circuit) (found : circuit.nodes.get? id = some node) :
        ∃ value, Json.ReadAs (node.map toJson).toJson value ∧ value ≠ .null ∧
          ∀ read, isReader read → ∀ result, read value = some result → result = node.filed := by
      obtain ⟨value, readAs, present, reads⟩ := Node.exists_readAs (storableNodes id node found)
        fun body isChip => inductionHypothesis id node body found isChip (storable.inside found isChip)
      refine ⟨value, readAs, present, ?_⟩
      rintro _ ⟨nested, depth, rfl⟩ result isRead
      exact reads nested depth result isRead
    obtain ⟨nodes, nodesReadAs, nodesRead⟩ := Arena.exists_readAs each
    have wires : Json.Legible (.array (circuit.wires.map Wire.toJson)) := by
      refine .array fun item isItem => ?_
      obtain ⟨wire, member, rfl⟩ := List.mem_map.mp isItem
      exact Wire.legible_toJson (storableWires wire member)
    refine ⟨.object [("nodes", nodes), ("wires", .array (circuit.wires.map Wire.toJson))], ?_,
      fun nested depth read reads => ?_⟩
    · rw [toJson_eq]
      exact .object ([("nodes", circuit.nodes.toJson fun node => (node.map toJson).toJson, nodes),
          ("wires", .array (circuit.wires.map Wire.toJson), .array (circuit.wires.map Wire.toJson))])
        (List.forall_mem_cons.mpr ⟨nodesReadAs, List.forall_mem_singleton.mpr wires.readAs⟩)
    · cases depth with
      | zero => cases reads
      | succ depth =>
        rw [ofNested?_of_fields (some nodes) (some (.array (circuit.wires.map Wire.toJson))) rfl,
          Json.required_some, Json.optional_some,
          Json.list?_map fun wire member => Wire.ofJson?_toJson (storableWires wire member),
          List.map_id'] at reads
        obtain ⟨arena, isArena, same⟩ := Option.bind_eq_some_iff.mp reads
        rw [← Option.some.inj same, nodesRead _ ⟨nested, depth, rfl⟩ arena isArena, filed, viewed_eq]
        rfl

/-- What a file makes of a circuit is bare. -/
theorem bare_filed (circuit : Circuit) : circuit.filed.bare = circuit.filed := by
  have natural (inner : Circuit → Circuit) (node : Node Circuit) :
      ({ node with part := node.part.filed } : Node Circuit).map inner =
        { node.map inner with part := (node.map inner).part.filed } := by
    obtain ⟨label, position, part, inputs, outputs⟩ := node
    cases part <;> rfl
  have same : ((fun node => { node with part := node.part.bare }) ∘
      fun node : Node Circuit => { node with part := node.part.filed }) =
        fun node => { node with part := node.part.filed } := by
    funext ⟨label, position, part, inputs, outputs⟩
    cases part <;> rfl
  rw [bare, filed, viewed_viewed natural, same]
  rfl

/-- A text of a circuit is read, if it is read, as the circuit that a file makes of it, but for stamps. -/
theorem bare_of_text {circuit : Circuit} (storable : circuit.Storable) {text : String}
    (member : text ∈ circuit.texts) {fresh next : Revision} {read : Circuit}
    (reads : ofText? text fresh = some (read, next)) : read.bare = circuit.filed := by
  obtain ⟨value, readAs, inner⟩ := rereads storable
  have parsed : Json.parse? text = some value := by
    obtain ⟨compact, spread⟩ := readAs.parse?_written
    rcases List.mem_pair.mp member with rfl | rfl
    · exact compact
    · exact spread
  rw [ofText?, parsed, Option.bind_some, ofJson?] at reads
  obtain ⟨origin, isOrigin, renewed⟩ := Option.map_eq_some_iff.mp reads
  have isRenewed : (origin.renew fresh).1 = read := congrArg Prod.fst renewed
  rw [← isRenewed, bare_renew, inner _ _ _ isOrigin, bare_filed]

end Circuit

end Breadboard
