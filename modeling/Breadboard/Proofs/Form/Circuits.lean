import Breadboard.Form.Circuits
import Breadboard.Proofs.Circuit.Bare
import Breadboard.Proofs.Circuit.Levels
import Breadboard.Proofs.Form.Parts
import Breadboard.Proofs.Json.Nesting

/-!
# The file form of circuits is read back

A circuit whose numbers fit machine words on every level, and whose file form nests within the limit, is
read back from its file form, but for stamps and what is derived: as the bare circuit. Its file form can
be written out and read back from the text, if the frequencies of its oscillators can.
-/

namespace Breadboard

/-- The coordinates are signed 32-bit numbers. -/
def Position.Storable (position : Position) : Prop :=
  (-0x80000000 ≤ position.x ∧ position.x < 0x80000000) ∧ -0x80000000 ≤ position.y ∧ position.y < 0x80000000

instance (position : Position) : Decidable position.Storable :=
  inferInstanceAs (Decidable (_ ∧ _ ∧ _))

/-- A coordinate is read back. -/
theorem Json.coordinate?_integer {value : Int} (fits : -0x80000000 ≤ value ∧ value < 0x80000000) :
    Json.coordinate? (.integer value) = some value := by
  rw [Json.coordinate?, if_pos fits]

/-- A position is read from its fields. -/
theorem Position.ofJson?_of_fields {json : Json} (x y : Option Json)
    (fields : json.fields? ["x", "y"] = some [x, y]) :
    Position.ofJson? json =
      (Json.required Json.coordinate? x).bind fun x => (Json.required Json.coordinate? y).bind fun y =>
        some ⟨x, y⟩ := by
  rw [Position.ofJson?, fields]
  rfl

/-- A position is read back. -/
theorem Position.ofJson?_toJson {position : Position} (storable : position.Storable) :
    Position.ofJson? position.toJson = some position := by
  rw [Position.ofJson?_of_fields (some (.integer position.x)) (some (.integer position.y)) rfl,
    Json.required_some, Json.coordinate?_integer storable.1, Option.bind_some, Json.required_some,
    Json.coordinate?_integer storable.2, Option.bind_some]

/-- The file form of a position can be read back from a text. -/
theorem Position.legible_toJson {position : Position} (storable : position.Storable) :
    Json.Legible position.toJson := by
  have each {value : Int} (fits : -0x80000000 ≤ value ∧ value < 0x80000000) :
      Json.Legible (.integer value) := by
    refine .integer ?_ ?_
    · rw [signedLimit]
      omega
    · rw [wordLimit]
      omega
  exact .object (List.forall_mem_cons.mpr ⟨each storable.1, List.forall_mem_singleton.mpr (each storable.2)⟩)

/-- The handle is a 32-bit number. -/
def Terminal.Storable (terminal : Terminal) : Prop :=
  terminal.node < handleLimit

instance (terminal : Terminal) : Decidable terminal.Storable :=
  inferInstanceAs (Decidable (terminal.node < handleLimit))

/-- The port at an end of a wire is read from its fields. -/
theorem Terminal.ofJson?_of_fields {json : Json} (node port : Option Json)
    (fields : json.fields? ["node", "port"] = some [node, port]) :
    Terminal.ofJson? json =
      (Json.required (Json.natBelow? handleLimit) node).bind fun node =>
        (Json.required Json.string? port).bind fun port => some ⟨node, port⟩ := by
  rw [Terminal.ofJson?, fields]
  rfl

/-- The port at an end of a wire is read back. -/
theorem Terminal.ofJson?_toJson {terminal : Terminal} (storable : terminal.Storable) :
    Terminal.ofJson? terminal.toJson = some terminal := by
  rw [Terminal.ofJson?_of_fields (some (.nat terminal.node)) (some (.string terminal.port)) rfl,
    Json.required_some, Json.natBelow?_nat storable, Option.bind_some, Json.required_some]
  rfl

/-- The file form of the port at an end of a wire can be read back from a text. -/
theorem Terminal.legible_toJson {terminal : Terminal} (storable : terminal.Storable) :
    Json.Legible terminal.toJson :=
  .object (List.forall_mem_cons.mpr
    ⟨.nat (Nat.lt_trans storable (by decide)), List.forall_mem_singleton.mpr (.string _)⟩)

/-- The handles at both ends are 32-bit numbers. -/
def Wire.Storable (wire : Wire) : Prop :=
  wire.first.Storable ∧ wire.second.Storable

instance (wire : Wire) : Decidable wire.Storable :=
  inferInstanceAs (Decidable (wire.first.Storable ∧ wire.second.Storable))

/-- A wire is read from its fields. -/
theorem Wire.ofJson?_of_fields {json : Json} (first second : Option Json)
    (fields : json.fields? ["from", "to"] = some [first, second]) :
    Wire.ofJson? json =
      (Json.required Terminal.ofJson? first).bind fun first =>
        (Json.required Terminal.ofJson? second).bind fun second => some ⟨first, second⟩ := by
  rw [Wire.ofJson?, fields]
  rfl

/-- A wire is read back. -/
theorem Wire.ofJson?_toJson {wire : Wire} (storable : wire.Storable) :
    Wire.ofJson? wire.toJson = some wire := by
  rw [Wire.ofJson?_of_fields (some wire.first.toJson) (some wire.second.toJson) rfl,
    Json.required_some, Terminal.ofJson?_toJson storable.1, Option.bind_some, Json.required_some,
    Terminal.ofJson?_toJson storable.2, Option.bind_some]

/-- The file form of a wire can be read back from a text. -/
theorem Wire.legible_toJson {wire : Wire} (storable : wire.Storable) : Json.Legible wire.toJson :=
  .object (List.forall_mem_cons.mpr ⟨Terminal.legible_toJson storable.1,
    List.forall_mem_singleton.mpr (Terminal.legible_toJson storable.2)⟩)

namespace Node

/-- The numbers of the node fit machine words. -/
def Storable {Inner : Type} (node : Node Inner) : Prop :=
  node.position.Storable ∧ node.part.Storable

instance {Inner : Type} (node : Node Inner) : Decidable node.Storable :=
  inferInstanceAs (Decidable (node.position.Storable ∧ node.part.Storable))

/-- The member for signals, if there is one. -/
def signalsField (ports : PortMap) : Option Json :=
  if ports.isEmpty then none else some ports.toJson

/-- The fields of a node around whatever is written of its component. -/
theorem fields?_around (label : String) (position part : Json) (inputs outputs : PortMap) :
    (Json.object ([("label", .string label), ("position", position), ("kind", part)]
      ++ inputs.member "inputs" ++ outputs.member "outputs")).fields?
        ["label", "position", "kind", "inputs", "outputs"] =
      some [some (.string label), some position, some part, signalsField inputs, signalsField outputs] := by
  simp only [PortMap.member, signalsField]
  cases inputs.isEmpty <;> cases outputs.isEmpty <;> rfl

/-- The fields of a node. -/
theorem fields?_toJson (node : Node Json) :
    node.toJson.fields? ["label", "position", "kind", "inputs", "outputs"] =
      some [some (.string node.label), some node.position.toJson, some node.part.toJson,
        signalsField node.inputs, signalsField node.outputs] :=
  fields?_around ..

/-- A node is read from its fields. -/
theorem ofJson?_of_fields {Inner : Type} {around : Nat} {nested : Bool} {read : Json → Option Inner}
    {json : Json} {label position part inputs outputs : Option Json}
    (fields : json.fields? ["label", "position", "kind", "inputs", "outputs"] =
      some [label, position, part, inputs, outputs]) :
    Node.ofJson? around nested read json =
      (Json.optional "" Json.string? label).bind fun label =>
        (Json.optional ⟨0, 0⟩ Position.ofJson? position).bind fun position =>
          (Json.required (Json.soundly? around (Part.ofJson? nested read)) part).bind fun part =>
            (Json.optional .empty (Json.soundly? around PortMap.ofJson?) inputs).bind fun inputs =>
              (Json.optional .empty (Json.soundly? around PortMap.ofJson?) outputs).bind fun outputs =>
                some ⟨label, position, part, inputs, outputs⟩ := by
  rw [Node.ofJson?, fields]
  rfl

/-- Signals are read back from their member, or as none if there is no member. -/
theorem optional_signalsField {around : Nat} {ports : PortMap}
    (sound : ports.toJson.soundWithin (nestingLimit - around) = true) :
    Json.optional .empty (Json.soundly? around PortMap.ofJson?) (signalsField ports) = some ports := by
  rw [signalsField]
  split
  · next isEmpty =>
    obtain ⟨entries, sorted⟩ := ports
    obtain rfl : entries = [] := List.isEmpty_iff.mp isEmpty
    rfl
  · rw [Json.optional_some, Json.soundly?, if_pos sound, ports.ofJson?_toJson]

/-- Containers of signals nest two levels deep at most. -/
theorem soundWithin_signals (ports : PortMap) : ports.toJson.soundWithin 2 = true := by
  simp only [PortMap.toJson, Json.soundWithin, List.all_eq_true]
  intro member isMember
  obtain ⟨entry, _, rfl⟩ := List.mem_map.mp isMember
  cases entry.2 with
  | bit value => rfl
  | bus value => rfl

/-- A node is read back around the circuit that is read back, but for what its chip has derived. -/
theorem ofJson?_toJson {node : Node Circuit} (storable : node.Storable) {write : Circuit → Json}
    {around : Nat} {nested : Bool} {read : Json → Option Circuit}
    (sound : (node.part.map write).toJson.soundWithin (nestingLimit - around) = true)
    (room : around + 2 ≤ nestingLimit)
    (inner : ∀ body, node.part = .chip body → read (write body.circuit) = some body.circuit.bare) :
    Node.ofJson? around nested read (node.map write).toJson = some node.bare := by
  have signals (ports : PortMap) : ports.toJson.soundWithin (nestingLimit - around) = true :=
    Json.soundWithin_mono (soundWithin_signals ports) (by omega)
  have part : Json.soundly? around (Part.ofJson? nested read) (node.part.map write).toJson =
      some (node.part.map Circuit.bare).bare := by
    rw [Json.soundly?, if_pos sound, Part.ofJson?_toJson storable.2 inner]
  rw [ofJson?_of_fields (fields?_toJson _), optional_signalsField (signals (node.map write).inputs),
    optional_signalsField (signals (node.map write).outputs), Json.optional_some, Json.optional_some,
    Json.required_some]
  simp only [Node.map, Position.ofJson?_toJson storable.1, part, Json.string?, Option.bind_some]
  rfl

/-- The file form of a node can be read back from a text if the circuit of a chip and the frequency of an
oscillator can. -/
theorem legible_toJson {Inner : Type} {node : Node Inner} (storable : node.Storable)
    {write : Inner → Json}
    (frequency : node.part.FrequencyReadsBack)
    (inner : ∀ body, node.part = .chip body → Json.Legible (write body.circuit)) :
    Json.Legible (node.map write).toJson := by
  have signals (name : String) (ports : PortMap) :
      ∀ member ∈ ports.member name, Json.Legible member.2 := by
    intro member isMember
    rw [PortMap.member] at isMember
    split at isMember
    · cases isMember
    · obtain rfl := List.mem_singleton.mp isMember
      exact ports.legible_toJson
  have part := Part.legible_toJson storable.2 frequency inner
  refine .object (List.forall_mem_append.mpr ⟨List.forall_mem_append.mpr ⟨?_, signals _ _⟩, signals _ _⟩)
  exact List.forall_mem_cons.mpr ⟨.string _, List.forall_mem_cons.mpr
    ⟨Position.legible_toJson storable.1, List.forall_mem_singleton.mpr part⟩⟩

end Node

namespace Arena

variable {α β : Type} {arena : Arena α} {write : α → Json}

/-- What has a handle stands in a slot. -/
theorem mem_slots_of_get? {id : Nat} {item : α} (found : arena.get? id = some item) :
    some item ∈ arena.slots :=
  List.mem_of_getElem? (Option.join_eq_some_iff.mp found)

/-- What stands in a slot has a handle. -/
theorem exists_get?_of_mem_slots {item : α} (member : some item ∈ arena.slots) :
    ∃ id, arena.get? id = some item := by
  obtain ⟨id, here⟩ := List.mem_iff_getElem?.mp member
  exact ⟨id, by rw [get?, here, Option.join_some]⟩

/-- An arena is read back slot by slot. -/
theorem ofJson?_toJson {read : Json → Option β} {result : α → β}
    (each : ∀ id item, arena.get? id = some item → write item ≠ .null ∧
      read (write item) = some (result item)) :
    Arena.ofJson? read (arena.toJson write) = some (arena.map result) := by
  have slots : ∀ slot ∈ arena.slots,
      Json.orNull? read ((slot.map write).getD .null) = some (slot.map result) := by
    rintro (_ | item) member
    · rfl
    · obtain ⟨id, found⟩ := exists_get?_of_mem_slots member
      obtain ⟨notNull, reads⟩ := each id item found
      have present : Json.orNull? read (write item) = (read (write item)).map some := by
        rw [Json.orNull?]
        exact notNull
      rw [Option.map_some, Option.getD_some, present, reads]
      rfl
  rw [Arena.ofJson?, Arena.toJson, Json.list?_map slots]
  rfl

/-- The file form of an arena can be read back from a text if the one of each item can. -/
theorem legible_toJson (each : ∀ id item, arena.get? id = some item → Json.Legible (write item)) :
    Json.Legible (arena.toJson write) := by
  refine .array fun item isItem => ?_
  obtain ⟨slot, member, rfl⟩ := List.mem_map.mp isItem
  cases slot with
  | none => exact .null
  | some item =>
    obtain ⟨id, found⟩ := exists_get?_of_mem_slots member
    exact each id item found

end Arena

namespace Circuit

variable {circuit : Circuit}

/-- The numbers of the circuit fit machine words, on every level. -/
def Storable : Circuit → Prop :=
  Throughout fun inner =>
    (∀ id node, inner.node? id = some node → node.Storable) ∧ ∀ wire ∈ inner.wires, wire.Storable

/-- The frequencies of the oscillators of the circuit are read as they are written, on every level. -/
def FrequenciesReadBack : Circuit → Prop :=
  Throughout fun inner => ∀ id node, inner.node? id = some node → node.part.FrequencyReadsBack

instance (circuit : Circuit) : Decidable circuit.Storable :=
  inferInstanceAs (Decidable (circuit.Throughout fun inner =>
    (∀ id node, inner.node? id = some node → node.Storable) ∧ ∀ wire ∈ inner.wires, wire.Storable))

instance (circuit : Circuit) : Decidable circuit.FrequenciesReadBack :=
  inferInstanceAs (Decidable (circuit.Throughout fun inner =>
    ∀ id node, inner.node? id = some node → node.part.FrequencyReadsBack))

/-- A circuit is written slot by slot and wire by wire. -/
theorem toJson_eq (circuit : Circuit) :
    circuit.toJson = .object [("nodes", circuit.nodes.toJson fun node => (node.map toJson).toJson),
      ("wires", .array (circuit.wires.map Wire.toJson))] := by
  have nodes : (circuit.nodes.map (Node.map toJson)).toJson Node.toJson =
      circuit.nodes.toJson fun node => (node.map toJson).toJson := by
    simp only [Arena.toJson, Arena.map, List.map_map]
    congr 2
    funext slot
    cases slot <;> rfl
  rw [← nodes]
  exact fold_eq _ circuit

/-- A circuit is read from its fields. -/
theorem ofNested?_of_fields {nested : Bool} {depth : Nat} {json : Json} (nodes wires : Option Json)
    (fields : json.fields? ["nodes", "wires"] = some [nodes, wires]) :
    ofNested? nested (depth + 1) json =
      (Json.required (Arena.ofJson? (Node.ofJson? 3 nested (ofNested? true depth))) nodes).bind fun nodes =>
        (Json.optional [] (Json.list? Wire.ofJson?) wires).bind fun wires => some ⟨nodes, wires, 0⟩ := by
  rw [ofNested?, fields]
  rfl

/-- Around the fields of a node are three containers: the node, the slots and the circuit. -/
theorem soundWithin_part {limit : Nat} (sound : circuit.toJson.soundWithin limit = true) {id : NodeId}
    {node : Node Circuit} (found : circuit.node? id = some node) :
    ∃ less, limit = less + 3 ∧ (node.part.map toJson).toJson.soundWithin less = true := by
  have written : (node.map toJson).toJson ∈
      circuit.nodes.slots.map fun slot => (slot.map fun node => (node.map toJson).toJson).getD .null :=
    List.mem_map.mpr ⟨some node, Arena.mem_slots_of_get? found, rfl⟩
  rw [toJson_eq] at sound
  rcases limit with _ | _ | limit
  · cases sound
  · simp [Arena.toJson, Json.soundWithin] at sound
  · simp only [Json.soundWithin, Arena.toJson, List.all_cons, Bool.and_eq_true, List.all_eq_true] at sound
    have within := sound.1 _ written
    cases limit with
    | zero => cases within
    | succ less =>
      simp only [Node.toJson, Json.soundWithin, List.all_append, List.all_cons, Bool.and_eq_true] at within
      exact ⟨less, rfl, within.1.1.2.2.1⟩

/-- Around the circuit inside a chip are four containers. -/
theorem soundWithin_inner {limit : Nat} (sound : circuit.toJson.soundWithin limit = true) {id : NodeId}
    {node : Node Circuit} {body : Chip Circuit} (found : circuit.node? id = some node)
    (isChip : node.part = .chip body) :
    ∃ less, limit = less + 4 ∧ body.circuit.toJson.soundWithin less = true := by
  obtain ⟨less, rfl, within⟩ := soundWithin_part sound found
  rw [isChip] at within
  cases less with
  | zero => cases within
  | succ less =>
    simp only [Part.map, Part.toJson, Json.tagged, Chip.members, Json.soundWithin, List.all_cons,
      Bool.and_eq_true] at within
    exact ⟨less, rfl, within.2.2.2.2.1⟩

/-- A circuit whose numbers fit machine words and whose file form nests within the limit is read back, but for
stamps and what is derived.

Proof: by induction over the nesting. -/
theorem ofNested?_toJson (storable : circuit.Storable) {limit depth : Nat} {nested : Bool}
    (sound : circuit.toJson.soundWithin limit = true) (least : limit ≤ nestingLimit)
    (enough : limit ≤ depth) : ofNested? nested depth circuit.toJson = some circuit.bare := by
  induction circuit using nesting_induction generalizing limit depth nested with
  | step circuit inductionHypothesis =>
    obtain ⟨storableNodes, storableWires⟩ := storable circuit (.refl circuit)
    cases depth with
    | zero =>
      obtain rfl : limit = 0 := by omega
      rw [toJson_eq] at sound
      cases sound
    | succ depth =>
      have nodes : Arena.ofJson? (Node.ofJson? 3 nested (ofNested? true depth))
          (circuit.nodes.toJson fun node => (node.map toJson).toJson) =
            some (circuit.nodes.map Node.bare) := by
        refine Arena.ofJson?_toJson fun id node found => ⟨nofun, ?_⟩
        obtain ⟨less, rfl, within⟩ := soundWithin_part sound found
        refine Node.ofJson?_toJson (storableNodes id node found)
          (Json.soundWithin_mono within (by omega)) (by decide) fun body isChip => ?_
        obtain ⟨deeper, same, withinInner⟩ := soundWithin_inner sound found isChip
        exact inductionHypothesis id node body found isChip (storable.inside found isChip)
          withinInner (by omega) (by omega)
      have wires : Json.list? Wire.ofJson? (.array (circuit.wires.map Wire.toJson)) =
          some circuit.wires := by
        rw [Json.list?_map fun wire member => Wire.ofJson?_toJson (storableWires wire member), List.map_id']
      rw [toJson_eq, ofNested?_of_fields (some (circuit.nodes.toJson fun node => (node.map toJson).toJson))
          (some (.array (circuit.wires.map Wire.toJson))) rfl,
        Json.required_some, nodes, Option.bind_some, Json.optional_some, wires, Option.bind_some,
        bare_eq]

/-- The file form of a circuit can be read back from a text if the frequencies of its oscillators can.

Proof: by induction over the nesting. -/
theorem legible_toJson (storable : circuit.Storable) (frequencies : circuit.FrequenciesReadBack) :
    Json.Legible circuit.toJson := by
  induction circuit using nesting_induction with
  | step circuit inductionHypothesis =>
    obtain ⟨storableNodes, storableWires⟩ := storable circuit (.refl circuit)
    have nodes : Json.Legible (circuit.nodes.toJson fun node => (node.map toJson).toJson) := by
      refine Arena.legible_toJson fun id node found => ?_
      have frequency := frequencies circuit (.refl circuit) id node found
      refine Node.legible_toJson (storableNodes id node found) frequency fun body isChip => ?_
      exact inductionHypothesis id node body found isChip (storable.inside found isChip)
        (frequencies.inside found isChip)
    have wires : Json.Legible (.array (circuit.wires.map Wire.toJson)) := by
      refine .array fun item isItem => ?_
      obtain ⟨wire, member, rfl⟩ := List.mem_map.mp isItem
      exact Wire.legible_toJson (storableWires wire member)
    rw [toJson_eq]
    exact .object (List.forall_mem_cons.mpr ⟨nodes, List.forall_mem_singleton.mpr wires⟩)

end Circuit

end Breadboard
