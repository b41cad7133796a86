import Breadboard.Proofs.Form.Circuits

/-!
# What is read can be written

Reading a circuit checks its numbers and how deep its components nest. So the numbers of a circuit that is
read fit machine words, on every level. Its file form nests within the limit too, although it may have
members that the file left out, a signal that is low or segments that are dark: the components of a circuit
stand four containers below those around it, and what a component holds besides a circuit nests less deep
than that.
-/

namespace Breadboard

namespace Json

/-- Each of the results for the items of a list is the result for one of them.

Proof: by induction on the items. -/
theorem exists_of_mem_mapM {α β : Type} {read : α → Option β} {items : List α} {results : List β}
    (reads : items.mapM read = some results) :
    ∀ result ∈ results, ∃ item ∈ items, read item = some result := by
  induction items generalizing results with
  | nil =>
    obtain rfl : [] = results := Option.some.inj reads
    exact fun result member => by cases member
  | cons item items inductionHypothesis =>
    simp only [List.mapM_cons, Option.pure_def, Option.bind_eq_bind, Option.bind_eq_some_iff] at reads
    obtain ⟨first, isFirst, others, areOthers, same⟩ := reads
    obtain rfl : first :: others = results := Option.some.inj same
    refine List.forall_mem_cons.mpr ⟨⟨item, List.mem_cons_self, isFirst⟩, fun result member => ?_⟩
    obtain ⟨source, isItem, isResult⟩ := inductionHypothesis areOthers result member
    exact ⟨source, List.mem_cons_of_mem _ isItem, isResult⟩

section

variable {α : Type} {read : Json → Option α} {json : Json}

/-- A required field that is read is given. -/
theorem required_eq_some_iff {field : Option Json} {result : α} :
    required read field = some result ↔ ∃ value, field = some value ∧ read value = some result :=
  Option.bind_eq_some_iff

/-- A field with a default that is read is given, or what is read is the default. -/
theorem optional_eq_some {default : α} {field : Option Json} {result : α}
    (reads : optional default read field = some result) :
    result = default ∨ ∃ value, field = some value ∧ read value = some result := by
  cases field with
  | none => exact .inl (Option.some.inj reads).symm
  | some value => exact .inr ⟨value, rfl, reads⟩

/-- What is read of a list is read item by item. -/
theorem exists_of_mem_list? {results : List α} (reads : list? read json = some results) :
    ∃ items, json = .array items ∧ ∀ result ∈ results, ∃ item ∈ items, read item = some result := by
  cases json with
  | array items => exact ⟨items, rfl, exists_of_mem_mapM reads⟩
  | _ => cases reads

/-- What may be `null` and is not is read. -/
theorem orNull?_eq_some_some {result : α} (reads : orNull? read json = some (some result)) :
    read json = some result := by
  cases json with
  | null => cases reads
  | _ =>
    obtain ⟨_, isResult, same⟩ := Option.map_eq_some_iff.mp reads
    rw [isResult, same]

end

/-- A number that is read lies below the limit. -/
theorem lt_of_natBelow? {limit n : Nat} {json : Json} (reads : natBelow? limit json = some n) :
    n < limit := by
  cases json with
  | integer value =>
    rw [natBelow?] at reads
    split at reads
    · obtain rfl := Option.some.inj reads
      omega
    · cases reads
  | _ => cases reads

/-- A coordinate that is read is a signed 32-bit number. -/
theorem fits_of_coordinate? {json : Json} {value : Int} (reads : coordinate? json = some value) :
    -0x80000000 ≤ value ∧ value < 0x80000000 := by
  cases json with
  | integer given =>
    rw [coordinate?] at reads
    split at reads
    · next fits => exact Option.some.inj reads ▸ fits
    · cases reads
  | _ => cases reads

section

variable {json : Json} {limit : Nat}

/-- The value stands so many containers inside the other one: within what depth that one is sound, the value
is sound within so much less. -/
def Inside (levels : Nat) (value json : Json) : Prop :=
  ∀ limit, json.soundWithin limit = true → ∃ less, limit = less + levels ∧ value.soundWithin less = true

/-- What is inside of what is inside is inside. -/
theorem Inside.trans {inner value : Json} {levels outer : Nat} (inside : inner.Inside levels value)
    (outside : value.Inside outer json) : inner.Inside (levels + outer) json := by
  intro limit sound
  obtain ⟨less, rfl, within⟩ := outside limit sound
  obtain ⟨least, rfl, withinInner⟩ := inside less within
  exact ⟨least, Nat.add_assoc .., withinInner⟩

/-- The members of an object that is sound are sound one level less deep. -/
theorem soundWithin_of_field? {members : List (String × Json)} {name : String} {value : Json}
    (given : field? members name = some (some value))
    (sound : (object members).soundWithin (limit + 1) = true) : value.soundWithin limit = true := by
  rw [soundWithin, List.all_eq_true] at sound
  rw [field?] at given
  split at given
  · cases given
  · next member only =>
    have isMember : member ∈ members.filter (·.1 == name) := only ▸ List.mem_singleton.mpr rfl
    obtain rfl : member.2 = value := Option.some.inj (Option.some.inj given)
    exact sound member (List.mem_of_mem_filter isMember)
  · cases given

/-- A record is a container. -/
theorem pos_of_fields? {names : List String} {fields : List (Option Json)}
    (given : json.fields? names = some fields) (sound : json.soundWithin limit = true) : 0 < limit := by
  cases limit with
  | zero => cases json <;> first | cases given | cases sound
  | succ less => exact Nat.succ_pos less

/-- The fields of a record stand inside of it. -/
theorem inside_of_fields? {names : List String} {fields : List (Option Json)}
    (given : json.fields? names = some fields) {value : Json} (member : some value ∈ fields) :
    value.Inside 1 json := by
  intro limit sound
  obtain ⟨less, rfl⟩ := Nat.exists_eq_add_one.mpr (pos_of_fields? given sound)
  refine ⟨less, rfl, ?_⟩
  cases json with
  | object members =>
    obtain ⟨name, _, isField⟩ := exists_of_mem_mapM given (some value) member
    exact soundWithin_of_field? isField sound
  | array items =>
    rw [fields?] at given
    split at given
    · obtain rfl := Option.some.inj given
      rcases List.mem_append.mp member with isItem | isVacant
      · obtain ⟨item, itemMember, same⟩ := List.mem_map.mp isItem
        rw [soundWithin, List.all_eq_true] at sound
        exact Option.some.inj same ▸ sound item itemMember
      · cases List.eq_of_mem_replicate isVacant
    · cases given
  | _ => cases given

/-- The items of an array stand inside of it. -/
theorem inside_of_item {items : List Json} {item : Json} (member : item ∈ items) :
    item.Inside 1 (.array items) := by
  intro limit sound
  cases limit with
  | zero => cases sound
  | succ less =>
    rw [soundWithin, List.all_eq_true] at sound
    exact ⟨less, rfl, sound item member⟩

/-- The record behind a tag is sound where the tagged record is. -/
theorem inside_of_tagged? {tag rest : Json} (split : json.tagged? = some (tag, rest)) :
    rest.Inside 0 json := by
  intro limit sound
  refine ⟨limit, rfl, ?_⟩
  cases limit with
  | zero => cases json <;> first | cases split | cases sound
  | succ less =>
    cases json with
    | object members =>
      rw [tagged?] at split
      split at split
      · obtain rfl := (Prod.mk.inj (Option.some.inj split)).2
        rw [soundWithin, List.all_eq_true] at sound ⊢
        exact fun member isMember => sound member (List.mem_of_mem_filter isMember)
      · cases split
    | array items =>
      cases items with
      | nil => cases split
      | cons first others =>
        obtain rfl := (Prod.mk.inj (Option.some.inj split)).2
        rw [soundWithin, List.all_cons, Bool.and_eq_true] at sound
        exact sound.2
    | _ => cases split

end

end Json

/-- The coordinates of a position that is read are signed 32-bit numbers. -/
theorem Position.storable_of_ofJson? {json : Json} {position : Position}
    (reads : Position.ofJson? json = some position) : position.Storable := by
  obtain ⟨fields, _, reads⟩ := Option.bind_eq_some_iff.mp reads
  split at reads
  · obtain ⟨x, isX, reads⟩ := Option.bind_eq_some_iff.mp reads
    obtain ⟨y, isY, same⟩ := Option.bind_eq_some_iff.mp reads
    obtain rfl := Option.some.inj same
    obtain ⟨_, _, readsX⟩ := Json.required_eq_some_iff.mp isX
    obtain ⟨_, _, readsY⟩ := Json.required_eq_some_iff.mp isY
    exact ⟨Json.fits_of_coordinate? readsX, Json.fits_of_coordinate? readsY⟩
  · cases reads

/-- The handle of the port at an end of a wire that is read is a 32-bit number. -/
theorem Terminal.storable_of_ofJson? {json : Json} {terminal : Terminal}
    (reads : Terminal.ofJson? json = some terminal) : terminal.Storable := by
  obtain ⟨fields, _, reads⟩ := Option.bind_eq_some_iff.mp reads
  split at reads
  · obtain ⟨node, isNode, reads⟩ := Option.bind_eq_some_iff.mp reads
    obtain ⟨port, _, same⟩ := Option.bind_eq_some_iff.mp reads
    obtain rfl := Option.some.inj same
    obtain ⟨_, _, readsNode⟩ := Json.required_eq_some_iff.mp isNode
    exact Json.lt_of_natBelow? readsNode
  · cases reads

/-- Both ends of a wire that is read are given. -/
theorem Wire.cases_of_ofJson? {json : Json} {wire : Wire} (reads : Wire.ofJson? json = some wire) :
    ∃ first second, json.fields? ["from", "to"] = some [some first, some second] ∧
      Terminal.ofJson? first = some wire.first ∧ Terminal.ofJson? second = some wire.second := by
  obtain ⟨fields, given, reads⟩ := Option.bind_eq_some_iff.mp reads
  split at reads
  · obtain ⟨first, isFirst, reads⟩ := Option.bind_eq_some_iff.mp reads
    obtain ⟨second, isSecond, same⟩ := Option.bind_eq_some_iff.mp reads
    obtain rfl := Option.some.inj same
    obtain ⟨one, rfl, readsFirst⟩ := Json.required_eq_some_iff.mp isFirst
    obtain ⟨other, rfl, readsSecond⟩ := Json.required_eq_some_iff.mp isSecond
    exact ⟨one, other, given, readsFirst, readsSecond⟩
  · cases reads

/-- The handles at the ends of a wire that is read are 32-bit numbers. -/
theorem Wire.storable_of_ofJson? {json : Json} {wire : Wire} (reads : Wire.ofJson? json = some wire) :
    wire.Storable := by
  obtain ⟨first, second, _, readsFirst, readsSecond⟩ := Wire.cases_of_ofJson? reads
  exact ⟨Terminal.storable_of_ofJson? readsFirst, Terminal.storable_of_ofJson? readsSecond⟩

/-- A wire is a container with containers in it. -/
theorem Wire.room_of_ofJson? {json : Json} {wire : Wire} (reads : Wire.ofJson? json = some wire) {limit : Nat}
    (sound : json.soundWithin limit = true) : 2 ≤ limit := by
  obtain ⟨first, second, given, readsFirst, _⟩ := Wire.cases_of_ofJson? reads
  obtain ⟨less, rfl, within⟩ := Json.inside_of_fields? given List.mem_cons_self limit sound
  obtain ⟨_, givenFirst, _⟩ := Option.bind_eq_some_iff.mp readsFirst
  exact Nat.succ_le_succ (Json.pos_of_fields? givenFirst within)

/-- The width of a declared port that is read is a 32-bit number. -/
theorem PortDecl.storable_of_ofJson? {json : Json} {decl : PortDecl}
    (reads : PortDecl.ofJson? json = some decl) : decl.Storable := by
  obtain ⟨fields, _, reads⟩ := Option.bind_eq_some_iff.mp reads
  split at reads
  · obtain ⟨id, _, reads⟩ := Option.bind_eq_some_iff.mp reads
    obtain ⟨label, _, reads⟩ := Option.bind_eq_some_iff.mp reads
    obtain ⟨bus, _, reads⟩ := Option.bind_eq_some_iff.mp reads
    obtain ⟨width, isWidth, same⟩ := Option.bind_eq_some_iff.mp reads
    obtain rfl := Option.some.inj same
    rintro bits rfl
    rcases Json.optional_eq_some isWidth with absent | ⟨_, _, readsWidth⟩
    · cases absent
    · exact Json.lt_of_natBelow? (Json.orNull?_eq_some_some readsWidth)
  · cases reads

/-- The widths of declared ports that are read are 32-bit numbers. -/
theorem PortDecl.storable_of_list? {field : Option Json} {decls : List PortDecl}
    (reads : Json.required (Json.list? PortDecl.ofJson?) field = some decls) :
    ∀ decl ∈ decls, decl.Storable := by
  obtain ⟨_, _, readsList⟩ := Json.required_eq_some_iff.mp reads
  obtain ⟨_, _, each⟩ := Json.exists_of_mem_list? readsList
  intro decl member
  obtain ⟨_, _, readsDecl⟩ := each decl member
  exact PortDecl.storable_of_ofJson? readsDecl

/-- The count of an oscillator that is read is a 64-bit number. -/
theorem Oscillator.storable_of_ofJson? {json : Json} {oscillator : Oscillator}
    (reads : Oscillator.ofJson? json = some oscillator) : oscillator.Storable := by
  obtain ⟨fields, _, reads⟩ := Option.bind_eq_some_iff.mp reads
  split at reads
  · obtain ⟨hertz, _, reads⟩ := Option.bind_eq_some_iff.mp reads
    obtain ⟨running, _, reads⟩ := Option.bind_eq_some_iff.mp reads
    obtain ⟨state, _, reads⟩ := Option.bind_eq_some_iff.mp reads
    obtain ⟨tick, isTick, same⟩ := Option.bind_eq_some_iff.mp reads
    obtain rfl := Option.some.inj same
    rcases Json.optional_eq_some isTick with rfl | ⟨_, _, readsTick⟩
    · exact (by decide : Oscillator.initial.tick < wordLimit)
    · exact Json.lt_of_natBelow? readsTick
  · cases reads

section

variable {Inner : Type} {read : Json → Option Inner} {json : Json}

/-- Of a chip that is read the declared ports have widths that are 32-bit numbers, and its circuit is read
from inside the container of its fields. -/
theorem Chip.origin_of_ofJson? {body : Chip Inner} (reads : Chip.ofJson? read json = some body) :
    body.Storable ∧ ∃ value, read value = some body.circuit ∧ value.Inside 1 json := by
  obtain ⟨fields, given, reads⟩ := Option.bind_eq_some_iff.mp reads
  split at reads
  · obtain ⟨name, _, reads⟩ := Option.bind_eq_some_iff.mp reads
    obtain ⟨inputs, areInputs, reads⟩ := Option.bind_eq_some_iff.mp reads
    obtain ⟨outputs, areOutputs, reads⟩ := Option.bind_eq_some_iff.mp reads
    obtain ⟨circuit, isCircuit, same⟩ := Option.bind_eq_some_iff.mp reads
    obtain rfl := Option.some.inj same
    obtain ⟨value, rfl, readsCircuit⟩ := Json.required_eq_some_iff.mp isCircuit
    refine ⟨⟨PortDecl.storable_of_list? areInputs, PortDecl.storable_of_list? areOutputs⟩,
      value, readsCircuit, Json.inside_of_fields? given (by simp)⟩
  · cases reads

namespace Part

variable {part : Part Inner}

/-- The component is neither an oscillator nor a chip. -/
def IsPlain (part : Part Inner) : Prop :=
  (∀ oscillator, part ≠ .clock oscillator) ∧ ∀ body, part ≠ .chip body

/-- From its fields an oscillator is read, or a chip, or a plain component. -/
theorem ofFields?_cases {tag : String} (reads : ofFields? read tag json = some part) :
    (∃ oscillator, part = .clock oscillator ∧ Oscillator.ofJson? json = some oscillator) ∨
      (∃ body, part = .chip body ∧ Chip.ofJson? read json = some body) ∨ part.IsPlain := by
  unfold Part.ofFields? at reads
  split at reads
  case h_11 =>
    obtain ⟨oscillator, isRead, rfl⟩ := Option.map_eq_some_iff.mp reads
    exact .inl ⟨oscillator, rfl, isRead⟩
  case h_14 =>
    obtain ⟨body, isRead, rfl⟩ := Option.map_eq_some_iff.mp reads
    exact .inr (.inl ⟨body, rfl, isRead⟩)
  -- No other kind gives a clock or a chip.
  all_goals
    refine .inr (.inr ?_)
    constructor
    all_goals
      rintro other rfl
      simp [Option.bind_eq_some_iff, Part.bare?] at reads
  all_goals
    obtain ⟨fields, _, reads⟩ := reads
    split at reads
    all_goals simp [Option.bind_eq_some_iff] at reads

/-- The numbers of a component that is read fit machine words, and the circuit of a chip is read from inside
of it. -/
theorem origin_of_ofJson? {nested : Bool} (reads : Part.ofJson? nested read json = some part) :
    part.Storable ∧ ∀ body, part = .chip body →
      ∃ value, read value = some body.circuit ∧ value.Inside 1 json := by
  obtain ⟨⟨tag, rest⟩, split, reads⟩ := Option.bind_eq_some_iff.mp reads
  obtain ⟨name, _, reads⟩ := Option.bind_eq_some_iff.mp reads
  rcases ofFields?_cases reads with ⟨oscillator, rfl, isRead⟩ | ⟨body, rfl, isRead⟩ | plain
  · exact ⟨Oscillator.storable_of_ofJson? isRead, nofun⟩
  · obtain ⟨storable, value, readsCircuit, inside⟩ := Chip.origin_of_ofJson? isRead
    refine ⟨storable, ?_⟩
    rintro _ ⟨⟩
    exact ⟨value, readsCircuit, inside.trans (Json.inside_of_tagged? split)⟩
  · refine ⟨?_, fun body isChip => absurd isChip (plain.2 body)⟩
    cases part with
    | clock oscillator => exact absurd rfl (plain.1 oscillator)
    | chip body => exact absurd rfl (plain.2 body)
    | _ => trivial

/-- A component is a container. -/
theorem pos_of_ofJson? {nested : Bool} (reads : Part.ofJson? nested read json = some part) {limit : Nat}
    (sound : json.soundWithin limit = true) : 0 < limit := by
  obtain ⟨_, split, _⟩ := Option.bind_eq_some_iff.mp reads
  cases limit with
  | zero => cases json <;> first | cases split | cases sound
  | succ less => exact Nat.succ_pos less

/-- What is written of a component nests no deeper than the circuit of a chip, which is in one more container,
or than its declared ports, which are in three. -/
theorem soundWithin_toJson {write : Inner → Json} {limit : Nat} (room : 2 ≤ limit)
    (inner : ∀ body, part = .chip body → (write body.circuit).soundWithin limit = true) :
    (part.map write).toJson.soundWithin (limit + 1) = true := by
  have shallow {value : Json} (sound : value.soundWithin 2 = true) : value.soundWithin (limit + 1) = true :=
    Json.soundWithin_mono sound (by omega)
  cases part with
  | chip body =>
    have decls (decls : List PortDecl) :
        (Json.array (decls.map PortDecl.toJson)).soundWithin limit = true := by
      refine Json.soundWithin_mono ?_ room
      simp only [Json.soundWithin, List.all_map, List.all_eq_true]
      intro decl _
      obtain ⟨id, label, bus, width⟩ := decl
      cases width <;> rfl
    simp only [Part.map, Part.toJson, Json.tagged, Chip.members, Chip.map, Json.soundWithin, List.all_cons,
      decls, inner body rfl, List.all_nil, Bool.and_true]
  | inputPin width state => exact shallow (by cases state <;> rfl)
  | outputPin width shown => exact shallow (by cases shown <;> rfl)
  | _ => exact shallow rfl

end Part

namespace Node

variable {node : Node Inner} {around : Nat} {nested : Bool}

/-- The position of a node that is read fits machine words, and its component is read from inside of it and
from what is sound so many containers below the limit. -/
theorem origin_of_ofJson? (reads : Node.ofJson? around nested read json = some node) :
    node.position.Storable ∧ ∃ value, Part.ofJson? nested read value = some node.part ∧
      value.soundWithin (nestingLimit - around) = true ∧ value.Inside 1 json := by
  obtain ⟨fields, given, reads⟩ := Option.bind_eq_some_iff.mp reads
  split at reads
  · obtain ⟨label, _, reads⟩ := Option.bind_eq_some_iff.mp reads
    obtain ⟨position, isPosition, reads⟩ := Option.bind_eq_some_iff.mp reads
    obtain ⟨part, isPart, reads⟩ := Option.bind_eq_some_iff.mp reads
    obtain ⟨inputs, _, reads⟩ := Option.bind_eq_some_iff.mp reads
    obtain ⟨outputs, _, same⟩ := Option.bind_eq_some_iff.mp reads
    obtain rfl := Option.some.inj same
    obtain ⟨value, rfl, readsSoundly⟩ := Json.required_eq_some_iff.mp isPart
    rw [Json.soundly?] at readsSoundly
    split at readsSoundly
    · next sound =>
      refine ⟨?_, value, readsSoundly, sound, Json.inside_of_fields? given (by simp)⟩
      rcases Json.optional_eq_some isPosition with rfl | ⟨_, _, readsPosition⟩
      · exact (by decide : (-0x80000000 ≤ (0 : Int) ∧ (0 : Int) < 0x80000000) ∧
          -0x80000000 ≤ (0 : Int) ∧ (0 : Int) < 0x80000000)
      · exact Position.storable_of_ofJson? readsPosition
    · cases readsSoundly
  · cases reads

/-- What is written of a node nests no deeper than the circuit of a chip, which is in two more containers. -/
theorem soundWithin_toJson {write : Inner → Json} {limit : Nat} (room : 2 ≤ limit)
    (inner : ∀ body, node.part = .chip body → (write body.circuit).soundWithin limit = true) :
    (node.map write).toJson.soundWithin (limit + 2) = true := by
  have signals (name : String) (ports : PortMap) :
      ((ports.member name).all fun member => member.2.soundWithin (limit + 1)) = true := by
    rw [PortMap.member]
    split
    · rfl
    · rw [List.all_cons, Json.soundWithin_mono (soundWithin_signals ports) (by omega)]
      rfl
  have part := Part.soundWithin_toJson room inner
  simp only [Node.map, Node.toJson, Position.toJson, Json.soundWithin, List.all_append, List.all_cons,
    List.all_nil, signals, part, Bool.and_true]

end Node

end

namespace Circuit

variable {circuit : Circuit} {nested : Bool} {depth : Nat} {json : Json}

/-- The nodes and wires of a circuit that is read are read from inside of it, each slot and each wire in a
list. -/
theorem cases_of_ofNested? (reads : ofNested? nested (depth + 1) json = some circuit) :
    (∀ id node, circuit.node? id = some node → ∃ value,
      Node.ofJson? 3 nested (ofNested? true depth) value = some node ∧ value.Inside 2 json) ∧
    ∀ wire ∈ circuit.wires, ∃ value, Wire.ofJson? value = some wire ∧ value.Inside 2 json := by
  rw [ofNested?] at reads
  obtain ⟨fields, given, reads⟩ := Option.bind_eq_some_iff.mp reads
  split at reads
  · obtain ⟨nodes, areNodes, reads⟩ := Option.bind_eq_some_iff.mp reads
    obtain ⟨wires, areWires, same⟩ := Option.bind_eq_some_iff.mp reads
    obtain rfl := Option.some.inj same
    constructor
    · intro id node found
      obtain ⟨value, rfl, readsArena⟩ := Json.required_eq_some_iff.mp areNodes
      obtain ⟨slots, readsSlots, rfl⟩ := Option.map_eq_some_iff.mp readsArena
      obtain ⟨items, rfl, each⟩ := Json.exists_of_mem_list? readsSlots
      obtain ⟨item, isItem, readsItem⟩ := each _ (Arena.mem_slots_of_get? found)
      exact ⟨item, Json.orNull?_eq_some_some readsItem,
        (Json.inside_of_item isItem).trans (Json.inside_of_fields? given (by simp))⟩
    · intro wire member
      rcases Json.optional_eq_some areWires with rfl | ⟨value, rfl, readsWires⟩
      · cases member
      · obtain ⟨items, rfl, each⟩ := Json.exists_of_mem_list? readsWires
        obtain ⟨item, isItem, readsItem⟩ := each wire member
        exact ⟨item, readsItem,
          (Json.inside_of_item isItem).trans (Json.inside_of_fields? given (by simp))⟩
  · cases reads

/-- The numbers of a circuit that is read fit machine words, on every level.

Proof: by induction on how deep circuits may nest. -/
theorem storable_of_ofNested? (reads : ofNested? nested depth json = some circuit) : circuit.Storable := by
  induction depth generalizing nested json circuit with
  | zero => cases reads
  | succ depth inductionHypothesis =>
    obtain ⟨nodes, wires⟩ := cases_of_ofNested? reads
    refine throughout_iff.mpr ⟨⟨fun id node found => ?_, fun wire member => ?_⟩, ?_⟩
    · obtain ⟨value, readsNode, _⟩ := nodes id node found
      obtain ⟨position, part, readsPart, _⟩ := Node.origin_of_ofJson? readsNode
      exact ⟨position, (Part.origin_of_ofJson? readsPart).1⟩
    · obtain ⟨value, readsWire, _⟩ := wires wire member
      exact Wire.storable_of_ofJson? readsWire
    · intro id node body found isChip
      obtain ⟨value, readsNode, _⟩ := nodes id node found
      obtain ⟨_, part, readsPart, _⟩ := Node.origin_of_ofJson? readsNode
      obtain ⟨inner, readsInner, _⟩ := (Part.origin_of_ofJson? readsPart).2 body isChip
      exact inductionHypothesis readsInner

/-- What is written of a circuit nests no deeper than its nodes and its wires, which are in two more
containers. -/
theorem soundWithin_toJson {limit : Nat}
    (nodes : ∀ id node, circuit.node? id = some node → (node.map toJson).toJson.soundWithin limit = true)
    (wires : ∀ wire ∈ circuit.wires, 2 ≤ limit) : circuit.toJson.soundWithin (limit + 2) = true := by
  have slots :
      (circuit.nodes.toJson fun node => (node.map toJson).toJson).soundWithin (limit + 1) = true := by
    rw [Arena.toJson, Json.soundWithin, List.all_eq_true]
    intro item isItem
    obtain ⟨slot, member, rfl⟩ := List.mem_map.mp isItem
    cases slot with
    | none => cases limit <;> rfl
    | some node =>
      obtain ⟨id, found⟩ := Arena.exists_get?_of_mem_slots member
      exact nodes id node found
  have list : (Json.array (circuit.wires.map Wire.toJson)).soundWithin (limit + 1) = true := by
    rw [Json.soundWithin, List.all_eq_true]
    intro item isItem
    obtain ⟨wire, member, rfl⟩ := List.mem_map.mp isItem
    have within : wire.toJson.soundWithin 2 = true := rfl
    exact Json.soundWithin_mono within (wires wire member)
  rw [toJson_eq, Json.soundWithin, List.all_cons, List.all_cons, slots, list]
  rfl

/-- Where a circuit is read from what nests no deeper than so many chips around a circuit of vacant slots,
what is written of it nests no deeper.

Proof: by induction on how deep circuits may nest. A circuit without chips around it that is read has vacant
slots only, since a node takes two containers more. -/
theorem soundWithin_of_ofNested? (reads : ofNested? nested depth json = some circuit) {chips : Nat}
    (sound : json.soundWithin (4 * chips + 3) = true) :
    circuit.toJson.soundWithin (4 * chips + 3) = true := by
  induction depth generalizing nested json circuit chips with
  | zero => cases reads
  | succ depth inductionHypothesis =>
    obtain ⟨nodes, wires⟩ := cases_of_ofNested? reads
    refine soundWithin_toJson (fun id node found => ?_) fun wire member => ?_
    · obtain ⟨value, readsNode, inside⟩ := nodes id node found
      obtain ⟨_, part, readsPart, _, insideNode⟩ := Node.origin_of_ofJson? readsNode
      obtain ⟨less, same, within⟩ := insideNode.trans inside _ sound
      have pos := Part.pos_of_ofJson? readsPart within
      obtain ⟨chips, rfl⟩ : ∃ fewer, chips = fewer + 1 := ⟨chips - 1, by omega⟩
      refine Node.soundWithin_toJson (by omega) fun body isChip => ?_
      obtain ⟨inner, readsInner, insidePart⟩ := (Part.origin_of_ofJson? readsPart).2 body isChip
      obtain ⟨least, sameInner, withinInner⟩ := insidePart less within
      obtain rfl : least = 4 * chips + 3 := by omega
      exact inductionHypothesis readsInner withinInner
    · obtain ⟨value, readsWire, inside⟩ := wires wire member
      obtain ⟨less, same, within⟩ := inside _ sound
      have room := Wire.room_of_ofJson? readsWire within
      omega

/-- What is written of a circuit that is read nests within the limit of files.

The circuit as a whole may come with deeper members that are passed over; its components may not. -/
theorem soundWithin_nestingLimit (reads : ofNested? nested depth json = some circuit) :
    circuit.toJson.soundWithin nestingLimit = true := by
  cases depth with
  | zero => cases reads
  | succ depth =>
    obtain ⟨nodes, _⟩ := cases_of_ofNested? reads
    have room : 2 ≤ 4 * 30 + 3 := by decide
    have each : ∀ id node, circuit.node? id = some node →
        (node.map toJson).toJson.soundWithin (4 * 30 + 3 + 2) = true := by
      intro id node found
      obtain ⟨value, readsNode, _⟩ := nodes id node found
      obtain ⟨_, part, readsPart, sound, _⟩ := Node.origin_of_ofJson? readsNode
      refine Node.soundWithin_toJson room fun body isChip => ?_
      obtain ⟨inner, readsInner, insidePart⟩ := (Part.origin_of_ofJson? readsPart).2 body isChip
      obtain ⟨less, same, within⟩ := insidePart _ sound
      obtain rfl : less = 4 * 30 + 3 := Nat.succ.inj same.symm
      exact soundWithin_of_ofNested? readsInner within
    exact soundWithin_toJson each fun _ _ => by decide

end Circuit

end Breadboard
