import Breadboard.Proofs.Engine.Reading
import Breadboard.Proofs.Signal.Bits

/-!
# The catalog and the evaluator

The ports of a primitive component are written down twice: the catalog declares them, with widths that
follow from names and labels, and the evaluator names the ports that it reads and writes. Both agree.
Whatever is staged at a component and whatever it drove before, exactly its declared outputs are written,
each with a signal in the form of its declared width, and what is written and shown is told by the signals
at the declared inputs and by what the part holds.

Steps drive all outputs but those of oscillators, which are driven when a tick begins.
-/

namespace Breadboard

namespace Signal

/-- A scalar is in the form of a single bit. -/
theorem hasForm_bit (value : Bool) : (bit value).HasForm 1 :=
  rfl

/-- A bus is in the form of its own width, if that is more than one bit. -/
theorem hasForm_bus {lanes : Bus} {width : Nat} (wide : 1 < width) (same : lanes.width = clampWidth width) :
    (bus lanes).HasForm width := by
  rw [HasForm, normalise, if_neg (Nat.not_le_of_lt wide), toBus, Bus.resize_of_width same]

end Signal

/-- The type of the component is known and is neither a chip nor a joint. -/
def Part.IsPrimitive {Inner : Type} : Part Inner → Prop
  | .chip _ | .joint | .unknown => False
  | _ => True

namespace Node

variable {node other : Node Circuit} {interval : Option Nat}

/-- The node with its outputs driven. An oscillator is driven when a tick begins, and advances by an
interval first where one is given; every other component is driven by a step. -/
def fire (interval : Option Nat) (node : Node Circuit) : Except Fault (Node Circuit) :=
  match node.part with
  | .clock _ =>
    match interval with
    | some interval => (node.beginTick interval).mapError Prod.fst
    | none => .ok node.quieted
  | _ => .ok node.step

/-- A node is driven as a definition declares it. -/
structure FiresAs (definition : Definition) (interval : Option Nat) (node : Node Circuit) : Prop where
  /-- Nothing but an oscillator that cannot advance is in the way of driving the outputs. -/
  answers : ∀ fault, node.fire interval = .error fault → ∃ oscillator time,
    node.part = .clock oscillator ∧ interval = some time ∧ oscillator.advance time = .error fault
  /-- Every declared output is driven with a signal in the form of its width. -/
  driven : ∀ fired, node.fire interval = .ok fired → ∀ decl ∈ definition.outputs,
    ∃ signal, fired.outputs.get? decl.id = some signal ∧
      signal.HasForm (node.portShape decl.id).width
  /-- Every other output keeps its signal. -/
  kept : ∀ fired, node.fire interval = .ok fired → ∀ port ∉ definition.outputs.map PortDecl.id,
    fired.outputs.get? port = node.outputs.get? port
  /-- A node that holds the same and receives the same at the declared inputs drives and shows the same,
  whatever it receives elsewhere and drove before. -/
  determined : ∀ (other fired : Node Circuit), other.part = node.part →
    (∀ decl ∈ definition.inputs, other.inputs.get? decl.id = node.inputs.get? decl.id) →
    node.fire interval = .ok fired → ∃ otherFired, other.fire interval = .ok otherFired ∧
      otherFired.part = fired.part ∧
      ∀ decl ∈ definition.outputs, otherFired.outputs.get? decl.id = fired.outputs.get? decl.id
  /-- Nothing is driven at the other moment: when a tick begins only what is staged is taken away, and a
  step of an oscillator does nothing. -/
  idle : ((∀ oscillator, node.part ≠ .clock oscillator) →
      node.quieted = { node with inputs := .empty } ∧ ∀ time, node.beginTick time = .ok node.quieted) ∧
    ∀ oscillator, node.part = .clock oscillator → node.step = node

/-- Some entries are for the declared outputs of a node, each one in the form of its width. -/
structure Declares (node : Node Circuit) (entries : List (String × Signal)) : Prop where
  ports : entries.map Prod.fst = node.declaredOutputs
  forms : ∀ entry ∈ entries, entry.2.HasForm (node.portShape entry.1).width

/-- Some entry is for a declared output. -/
theorem Declares.exists_lastOf? {entries : List (String × Signal)} (declares : node.Declares entries)
    {port : String} (declared : port ∈ node.declaredOutputs) :
    ∃ signal, PortMap.lastOf? entries port = some signal := by
  rw [← declares.ports] at declared
  exact Option.isSome_iff_exists.mp (PortMap.isSome_lastOf?.mpr declared)

/-- A declared output holds a signal of its width after the entries are written. -/
theorem Declares.driven {entries : List (String × Signal)} (declares : node.Declares entries)
    {port : String} (declared : port ∈ node.declaredOutputs) (outputs : PortMap) :
    ∃ signal, (outputs.writeAll entries).get? port = some signal ∧
      signal.HasForm (node.portShape port).width := by
  obtain ⟨signal, last⟩ := declares.exists_lastOf? declared
  refine ⟨signal, by rw [PortMap.get?_writeAll, last, Option.some_or], ?_⟩
  obtain ⟨entry, found, rfl⟩ := Option.map_eq_some_iff.mp last
  have named : entry.1 = port := by simpa using List.find?_some found
  exact named ▸ declares.forms entry (List.mem_reverse.mp (List.mem_of_find?_eq_some found))

/-- What a declared output holds after the entries are written does not depend on what stood there. -/
theorem Declares.get?_eq {entries : List (String × Signal)} (declares : node.Declares entries)
    {port : String} (declared : port ∈ node.declaredOutputs) (left right : PortMap) :
    (left.writeAll entries).get? port = (right.writeAll entries).get? port := by
  obtain ⟨signal, last⟩ := declares.exists_lastOf? declared
  rw [PortMap.get?_writeAll, PortMap.get?_writeAll, last, Option.some_or, Option.some_or]

/-- No other output is touched when the entries are written. -/
theorem Declares.kept {entries : List (String × Signal)} (declares : node.Declares entries)
    {port : String} (undeclared : port ∉ node.declaredOutputs) (outputs : PortMap) :
    (outputs.writeAll entries).get? port = outputs.get? port := by
  rw [← declares.ports, ← PortMap.isSome_lastOf?, Option.not_isSome_iff_eq_none] at undeclared
  rw [PortMap.get?_writeAll, undeclared, Option.none_or]

/-- What a node of a type other than a chip declares, and the shapes of its ports, follow from the
definition of the type. -/
structure HasDefinition (node : Node Circuit) (type : PartType) (definition : Definition) : Prop where
  isType : node.part.type? = some type
  isDefinition : type.definition? = some definition
  inputs : node.declaredInputs = definition.inputs.map PortDecl.id
  outputs : node.declaredOutputs = definition.outputs.map PortDecl.id
  shape : ∀ port, node.portShape port = type.portShape definition port

/-- The definition of the type of a node is the definition of the node. -/
theorem HasDefinition.of_type {type : PartType} {definition : Definition}
    (isType : node.part.type? = some type) (isDefinition : type.definition? = some definition) :
    node.HasDefinition type definition := by
  obtain ⟨label, position, part, inputs, outputs⟩ := node
  cases part with
  | unknown => cases isType
  | chip body =>
    cases isType
    cases isDefinition
  | _ =>
    cases isType
    refine ⟨rfl, isDefinition, ?_, ?_, fun port => ?_⟩
    · simp only [declaredInputs, Part.type?, Option.bind_some, isDefinition, Option.elim_some]
    · simp only [declaredOutputs, Part.type?, Option.bind_some, isDefinition, Option.elim_some]
    · simp only [portShape, Part.type?, Option.bind_some, isDefinition]

/-- The catalog has a definition of every primitive component. -/
theorem exists_definition (primitive : node.part.IsPrimitive) :
    ∃ type definition, node.HasDefinition type definition := by
  have defined (type : PartType) (known : type ≠ .chip) :
      ∃ definition, type.definition? = some definition := by
    cases type with
    | chip => exact absurd rfl known
    | inputPin width => cases width <;> exact ⟨_, rfl⟩
    | outputPin width => cases width <;> exact ⟨_, rfl⟩
    | gate function => cases function <;> exact ⟨_, rfl⟩
    | merge lanes => cases lanes <;> exact ⟨_, rfl⟩
    | split lanes => cases lanes <;> exact ⟨_, rfl⟩
    | resize direction => cases direction <;> exact ⟨_, rfl⟩
    | _ => exact ⟨_, rfl⟩
  have typed : ∃ type, node.part.type? = some type ∧ type ≠ .chip := by
    cases part : node.part with
    | chip body => exact (part ▸ primitive : (Part.chip body).IsPrimitive).elim
    | unknown => exact (part ▸ primitive : (.unknown : Part Circuit).IsPrimitive).elim
    | _ => exact ⟨_, rfl, PartType.noConfusion⟩
  obtain ⟨type, isType, known⟩ := typed
  obtain ⟨definition, isDefinition⟩ := defined type known
  exact ⟨type, definition, .of_type isType isDefinition⟩

/-- Every output of a primitive component is written to. -/
theorem written_eq_declaredOutputs (primitive : node.part.IsPrimitive) :
    node.written = node.declaredOutputs := by
  cases part : node.part with
  | split lanes => rw [declaredOutputs_split part, written, part]
  | inputPin width state =>
    rw [written, declaredOutputs, part]
    cases width <;> rfl
  | outputPin width shown =>
    rw [written, declaredOutputs, part]
    cases width <;> rfl
  | gate function =>
    rw [written, declaredOutputs, part]
    cases function <;> rfl
  | merge lanes =>
    rw [written, declaredOutputs, part]
    cases lanes <;> rfl
  | resize direction =>
    rw [written, declaredOutputs, part]
    cases direction <;> rfl
  | chip body => exact (part ▸ primitive : (Part.chip body).IsPrimitive).elim
  | joint => exact (part ▸ primitive : (.joint : Part Circuit).IsPrimitive).elim
  | _ =>
    rw [written, declaredOutputs, part]
    rfl

example : (ofPart (.split .four)).written = ["o0", "o1", "o2", "o3"] := by
  decide +kernel

/-- What a step of a primitive component writes is in the form of the declared widths.

Proof: the shape of a port is told by the definition of the type, so the widths are computed in every
case, and the buses that are written are made in these widths. -/
theorem hasForm_emitted (primitive : node.part.IsPrimitive) :
    ∀ entry ∈ node.emitted, entry.2.HasForm (node.portShape entry.1).width := by
  obtain ⟨type, definition, isType, isDefinition, -, -, shape⟩ := exists_definition primitive
  simp only [shape]
  clear shape
  cases part : node.part with
  | inputPin width state =>
    cases part ▸ isType
    have declared : ((PartType.inputPin width).portShape definition "out").width = width.bits := by
      cases width <;> cases isDefinition <;> decide +kernel
    simp only [emitted, part, List.forall_mem_singleton, declared]
    exact Signal.hasForm_normalise _ _
  | switch on =>
    cases part ▸ isType
    have declared : (PartType.switch.portShape definition "out").width = 1 := by
      cases isDefinition
      decide +kernel
    simp only [emitted, part, List.forall_mem_singleton, declared]
    exact Signal.hasForm_bit _
  | gate function =>
    cases part ▸ isType
    have declared : ((PartType.gate function).portShape definition "out").width = 1 := by
      cases function <;> cases isDefinition <;> decide +kernel
    simp only [emitted, part, List.forall_mem_singleton, declared]
    exact Signal.hasForm_bit _
  | triBuffer =>
    cases part ▸ isType
    have declared : (PartType.triBuffer.portShape definition "out").width = 1 := by
      cases isDefinition
      decide +kernel
    simp only [emitted, part, List.forall_mem_singleton, declared]
    exact Signal.hasForm_bit _
  | merge lanes =>
    cases part ▸ isType
    have declared : ((PartType.merge lanes).portShape definition "out").width = lanes.lanes := by
      cases lanes <;> cases isDefinition <;> decide +kernel
    simp only [emitted, part, List.forall_mem_singleton, declared]
    refine Signal.hasForm_bus (by cases lanes <;> decide) ?_
    have counted : lanes.lanes % handleLimit = lanes.lanes := by cases lanes <;> decide
    simp [PortMap.merged, Bus.ofBits, Bus.ofNat, mergePorts, counted]
  | split lanes =>
    cases part ▸ isType
    have declared : ∀ port ∈ splitPorts lanes,
        ((PartType.split lanes).portShape definition port).width = 1 := by
      cases lanes <;> cases isDefinition <;> decide +kernel
    simp only [emitted, part, List.forall_mem_map]
    intro lane member
    rw [declared lane.1 (List.fst_mem_of_mem_zipIdx member)]
    exact Signal.hasForm_bit _
  | resize direction =>
    cases part ▸ isType
    cases direction with
    | eightToFour =>
      have declared : ∀ port ∈ ["high", "low"],
          ((PartType.resize .eightToFour).portShape definition port).width = 4 := by
        cases isDefinition
        decide +kernel
      simp only [List.forall_mem_cons] at declared
      simp only [emitted, part, List.forall_mem_cons, declared]
      exact ⟨Signal.hasForm_bus (by decide) rfl, Signal.hasForm_bus (by decide) rfl, by simp⟩
    | fourToEight =>
      have declared : ((PartType.resize .fourToEight).portShape definition "out").width = 8 := by
        cases isDefinition
        decide +kernel
      simp only [emitted, part, List.forall_mem_singleton, declared]
      exact Signal.hasForm_bus (by decide) rfl
  | _ => simp [emitted, part]

/-- A step of a primitive component other than an oscillator writes what the component declares. -/
theorem declares_emitted (primitive : node.part.IsPrimitive)
    (notClock : ∀ oscillator, node.part ≠ .clock oscillator) : node.Declares node.emitted where
  ports := by
    have notChip (body : Chip Circuit) : node.part ≠ .chip body := by
      intro isChip
      exact (isChip ▸ primitive : (Part.chip body).IsPrimitive)
    rw [map_fst_emitted notChip notClock, written_eq_declaredOutputs primitive]
  forms := hasForm_emitted primitive

/-- What an oscillator drives is what it declares. -/
theorem declares_clock {oscillator : Oscillator} (part : node.part = .clock oscillator) (level : Bool) :
    node.Declares [("out", .bit level)] where
  ports := by
    rw [declaredOutputs, part]
    rfl
  forms := by
    have has : node.HasDefinition .clock ⟨"Clock", [], [.ofBit "out" "Clk"]⟩ :=
      .of_type (by rw [part, Part.type?]) rfl
    have declared : (node.portShape "out").width = 1 := by
      rw [has.shape]
      decide +kernel
    simp only [List.forall_mem_singleton, declared]
    exact Signal.hasForm_bit level

/-- What a step shows depends on the declared inputs and on what the part holds only. -/
theorem displayed_congr (same : other.part = node.part)
    (agree : ∀ port ∈ node.declaredInputs, other.inputs.get? port = node.inputs.get? port) :
    other.displayed = node.displayed := by
  cases part : node.part with
  | outputPin width shown =>
    rw [declaredInputs, part] at agree
    have sameIn := agree "in" (by cases width <;> exact .head _)
    simp only [displayed, same, part, sameIn]
  | light lit =>
    rw [declaredInputs, part] at agree
    have sameIn := PortMap.bitAt_congr (agree "in" (.head _))
    simp only [displayed, same, part, sameIn]
  | sevenSegment segments =>
    have declared : node.declaredInputs = segmentPorts := by
      rw [declaredInputs, part]
      rfl
    rw [declared] at agree
    have sameBit (port : String) (segment : port ∈ segmentPorts) :=
      PortMap.bitAt_congr (agree port segment)
    simp only [segmentPorts, List.forall_mem_cons] at sameBit
    simp only [displayed, same, part, Segments.ofPorts, sameBit]
  | _ => simp only [displayed, same, part]

/-- What a step writes depends on the declared inputs and on what the part holds only. -/
theorem emitted_of_part (same : other.part = node.part)
    (agree : ∀ port ∈ node.declaredInputs, other.inputs.get? port = node.inputs.get? port) :
    other.emitted = node.emitted := by
  have restaged : (node.staged other.inputs).emitted = other.emitted := by
    simp only [emitted, staged_part, staged_inputs, same]
  rw [← restaged]
  exact emitted_staged node agree

/-- Every component but an oscillator is driven by a step. -/
theorem fire_of_not_clock (notClock : ∀ oscillator, node.part ≠ .clock oscillator) :
    node.fire interval = .ok node.step := by
  unfold fire
  split
  · next oscillator part => exact absurd part (notClock oscillator)
  · rfl

/-- An oscillator is driven with its output after it has advanced, if it does advance. -/
theorem fire_of_clock {oscillator : Oscillator} (part : node.part = .clock oscillator) :
    node.fire interval = (interval.elim (.ok oscillator) oscillator.advance).map fun advanced =>
      { node with
        part := .clock advanced
        inputs := .empty
        outputs := node.outputs.insert "out" (.bit advanced.output) } := by
  obtain ⟨label, position, _, inputs, outputs⟩ := node
  cases part
  cases interval with
  | none => rfl
  | some time =>
    simp only [fire, beginTick, Option.elim_some]
    cases oscillator.advance time <;> rfl

/-- An oscillator that is driven has advanced, where it does, and drives its output. -/
theorem fired_of_clock {oscillator : Oscillator} (part : node.part = .clock oscillator)
    {fired : Node Circuit} (driven : node.fire interval = .ok fired) :
    ∃ advanced, interval.elim (.ok oscillator) oscillator.advance = .ok advanced ∧ fired =
      { node with
        part := .clock advanced
        inputs := .empty
        outputs := node.outputs.writeAll [("out", .bit advanced.output)] } := by
  rw [fire_of_clock part] at driven
  cases answer : interval.elim (.ok oscillator) oscillator.advance with
  | ok advanced =>
    rw [answer] at driven
    cases driven
    exact ⟨advanced, rfl, rfl⟩
  | error fault =>
    rw [answer] at driven
    cases driven

/-- An oscillator is driven as its definition declares it. -/
theorem firesAs_of_clock {oscillator : Oscillator} (part : node.part = .clock oscillator)
    {definition : Definition} (outputs : node.declaredOutputs = definition.outputs.map PortDecl.id)
    (interval : Option Nat) : node.FiresAs definition interval where
  answers fault faulted := by
    rw [fire_of_clock part] at faulted
    cases interval with
    | none => cases faulted
    | some time =>
      rw [Option.elim_some] at faulted
      cases advanced : oscillator.advance time with
      | ok next =>
        rw [advanced] at faulted
        cases faulted
      | error found =>
        rw [advanced] at faulted
        cases faulted
        exact ⟨oscillator, time, part, rfl, advanced⟩
  driven fired driven decl declared := by
    obtain ⟨advanced, -, rfl⟩ := fired_of_clock part driven
    have isOutput : decl.id ∈ node.declaredOutputs := outputs ▸ List.mem_map_of_mem declared
    exact (declares_clock part advanced.output).driven isOutput node.outputs
  kept fired driven port undeclared := by
    obtain ⟨advanced, -, rfl⟩ := fired_of_clock part driven
    exact (declares_clock part advanced.output).kept (outputs ▸ undeclared) node.outputs
  determined other fired same agree driven := by
    obtain ⟨advanced, answers, rfl⟩ := fired_of_clock part driven
    have otherDriven : other.fire interval = _ := fire_of_clock (same.trans part)
    rw [answers] at otherDriven
    refine ⟨_, otherDriven, rfl, fun decl declared => ?_⟩
    have isOutput : decl.id ∈ node.declaredOutputs := outputs ▸ List.mem_map_of_mem declared
    exact (declares_clock part advanced.output).get?_eq isOutput _ _
  idle := by
    refine ⟨fun notClock => absurd part (notClock oscillator), fun _ isClock => ?_⟩
    simp only [step, isClock]

/-- A primitive component other than an oscillator is driven as its definition declares it. -/
theorem firesAs_of_step (primitive : node.part.IsPrimitive)
    (notClock : ∀ oscillator, node.part ≠ .clock oscillator) {definition : Definition}
    (inputs : node.declaredInputs = definition.inputs.map PortDecl.id)
    (outputs : node.declaredOutputs = definition.outputs.map PortDecl.id) (interval : Option Nat) :
    node.FiresAs definition interval where
  answers fault faulted := by
    rw [fire_of_not_clock notClock] at faulted
    cases faulted
  driven fired driven decl declared := by
    rw [fire_of_not_clock notClock, step_eq] at driven
    cases driven
    have isOutput : decl.id ∈ node.declaredOutputs := outputs ▸ List.mem_map_of_mem declared
    exact (declares_emitted primitive notClock).driven isOutput node.outputs
  kept fired driven port undeclared := by
    rw [fire_of_not_clock notClock, step_eq] at driven
    cases driven
    exact (declares_emitted primitive notClock).kept (outputs ▸ undeclared) node.outputs
  determined other fired same agree driven := by
    rw [fire_of_not_clock notClock, step_eq] at driven
    cases driven
    have agreeAll : ∀ port ∈ node.declaredInputs, other.inputs.get? port = node.inputs.get? port := by
      rwa [inputs, List.forall_mem_map]
    have otherNoClock : ∀ oscillator, other.part ≠ .clock oscillator := same ▸ notClock
    have otherDriven : other.fire interval = .ok other.step := fire_of_not_clock otherNoClock
    rw [step_eq, emitted_of_part same agreeAll] at otherDriven
    refine ⟨_, otherDriven, displayed_congr same agreeAll, fun decl declared => ?_⟩
    have isOutput : decl.id ∈ node.declaredOutputs := outputs ▸ List.mem_map_of_mem declared
    exact (declares_emitted primitive notClock).get?_eq isOutput _ _
  idle := by
    refine ⟨fun _ => ?_, fun oscillator part => absurd part (notClock oscillator)⟩
    obtain ⟨label, position, part, inputs, outputs⟩ := node
    cases part with
    | clock oscillator => exact absurd rfl (notClock oscillator)
    | joint => exact primitive.elim
    | _ => exact ⟨rfl, fun _ => rfl⟩

/-- Every primitive component is driven as the catalog declares it: the ports that are written are the
declared outputs, the signals have the declared widths, and they are told by the declared inputs. -/
theorem fires_as_declared (primitive : node.part.IsPrimitive) (interval : Option Nat) :
    ∃ definition, node.part.type?.bind PartType.definition? = some definition ∧
      node.FiresAs definition interval := by
  obtain ⟨type, definition, isType, isDefinition, inputs, outputs, -⟩ := exists_definition primitive
  refine ⟨definition, by rw [isType, Option.bind_some, isDefinition], ?_⟩
  by_cases clock : ∃ oscillator, node.part = .clock oscillator
  · obtain ⟨oscillator, part⟩ := clock
    exact firesAs_of_clock part outputs interval
  · have notClock (oscillator : Oscillator) (part : node.part = .clock oscillator) : False :=
      clock ⟨oscillator, part⟩
    exact firesAs_of_step primitive notClock inputs outputs interval

/-- A split of eight lanes that drove a bus at one of its outputs and something at an undeclared port. -/
def usedSplit : Node Circuit :=
  { ofPart (.split .eight) with
    inputs := PortMap.ofList [("in", .bus (Bus.ofNat 5 8)), ("o3", .bit true)]
    outputs := PortMap.ofList [("o7", .bus (Bus.ofNat 3 4)), ("spare", .bit true)] }

/-- The split is driven as it is declared. -/
theorem usedSplit_fires_as_declared :
    usedSplit.part.IsPrimitive ∧
      ∃ definition, PartType.definition? (.split .eight) = some definition ∧
        usedSplit.FiresAs definition none :=
  ⟨trivial, @fires_as_declared usedSplit trivial none⟩

end Node

end Breadboard
