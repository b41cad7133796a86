import Breadboard.Proofs.Engine.Reading

/-!
# A step is determined by basis and inputs

Suppose that settling the circuits inside chips is determined: what is observed afterwards depends on
their basis only. Then what a step makes of a node depends on its basis and its staged inputs only, and
what it drives on the declared ones, whether or not the step settles the circuit of a chip anew. A chip
is left alone only if its circuit was settled as the same inputs drive it.
-/

namespace Breadboard

/-- A way to settle the circuits inside chips that keeps what an evaluation keeps, and whose observed
results depend on the basis only, for circuits of some outlines. -/
structure Circuit.Determined (good : Circuit → Prop) (inner : Circuit → Circuit) : Prop where
  lasts : ∀ {relation}, Node.Lasting relation → ∀ circuit, Related relation circuit (inner circuit)
  outline : ∀ {left right : Circuit}, left.outline = right.outline → good left → good right
  determined : ∀ {left right : Circuit}, good left → left.basis = right.basis →
    (inner left).observed = (inner right).observed

variable {good : Circuit → Prop} {inner : Circuit → Circuit}

namespace Chip

/-- The circuit is driven from the last inputs, and settling it again would not be observed. -/
structure Seasoned (inner : Circuit → Circuit) (body : Chip Circuit) : Prop where
  driven : body.driven body.lastInputs = body.circuit
  settled : (inner body.circuit).observed = body.circuit.observed

variable {body left right : Chip Circuit} {initial leftInitial rightInitial : Bool}
  {inputs leftInputs rightInputs : PortMap}

/-- Driving from the declared inputs is driving. -/
theorem driven_seen (body : Chip Circuit) (inputs : PortMap) :
    body.driven (body.seen inputs) = body.driven inputs :=
  driven_congr fun _ declared => get?_seen declared inputs

/-- A chip that is not settled in a pass is driven at what it was driven at before. -/
theorem driven_of_not_settles (seasoned : initial = false → body.Seasoned inner)
    (rests : body.settles initial inputs = false) :
    body.driven inputs = body.circuit ∧ body.Seasoned inner := by
  simp only [settles, Bool.or_eq_false_iff, bne_eq_false_iff_eq] at rests
  obtain ⟨⟨_, sameInputs⟩, notInitial⟩ := rests
  have wasSeasoned := seasoned notInitial
  refine ⟨?_, wasSeasoned⟩
  rw [← driven_seen, sameInputs, wasSeasoned.driven]

/-- Whether or not a pass settles the circuit of a chip, it is observed as if settled. -/
theorem observed_reached (seasoned : initial = false → body.Seasoned inner) :
    (body.reached inner initial inputs).circuit.observed =
      (inner (body.driven inputs)).observed := by
  change (if body.settles initial inputs = true then inner (body.driven inputs)
    else body.driven inputs).observed = _
  by_cases settles : body.settles initial inputs = true
  · rw [if_pos settles]
  · rw [if_neg settles]
    have rests : body.settles initial inputs = false := by simpa using settles
    obtain ⟨driven, wasSeasoned⟩ := driven_of_not_settles seasoned rests
    rw [driven, wasSeasoned.settled]

/-- The circuit that a chip reaches in a pass has the basis of the driven one. -/
theorem basis_reached (determined : Circuit.Determined good inner) :
    (body.reached inner initial inputs).circuit.basis = (body.driven inputs).basis := by
  change (if body.settles initial inputs = true then inner (body.driven inputs)
    else body.driven inputs).basis = _
  split
  · exact (determined.lasts Node.lasting_basis _).viewed_eq fun _ _ kept => kept
  · rfl

/-- The circuit that a chip reaches in a pass has the outline of the one that it had. -/
theorem outline_reached (determined : Circuit.Determined good inner) :
    (body.reached inner initial inputs).circuit.outline = body.circuit.outline :=
  (Circuit.outline_of_basis_eq (basis_reached determined)).trans (body.outline_driven inputs)

/-- A chip comes out of a pass seasoned.

Proof: if its circuit was settled, its pins are still driven, and settling it again starts from the same
basis. If it was not, it was seasoned before. -/
theorem seasoned_reached (determined : Circuit.Determined good inner) (isGood : good body.circuit)
    (seasoned : initial = false → body.Seasoned inner) :
    (body.reached inner initial inputs).Seasoned inner := by
  by_cases settles : body.settles initial inputs = true
  · have isReached : body.reached inner initial inputs =
        body.around inputs (inner (body.driven inputs)) := by
      rw [reached, if_pos settles]
    have lasts := determined.lasts Node.lasting_basis (body.driven inputs)
    have sameBasis : (inner (body.driven inputs)).basis = (body.driven inputs).basis :=
      lasts.viewed_eq fun _ _ kept => kept
    have sameOutline : (inner (body.driven inputs)).outline = body.circuit.outline :=
      (Circuit.outline_of_basis_eq sameBasis).trans (body.outline_driven inputs)
    rw [isReached]
    constructor
    · change (body.around inputs (inner (body.driven inputs))).driven
        ((body.around inputs (inner (body.driven inputs))).seen inputs) = _
      rw [driven_seen]
      exact driven_around (determined.lasts Node.lasting_pinned _) sameOutline
    · exact determined.determined (determined.outline sameOutline.symm isGood) sameBasis
  · have rests : body.settles initial inputs = false := by simpa using settles
    obtain ⟨driven, wasSeasoned⟩ := driven_of_not_settles seasoned rests
    have isReached : body.reached inner initial inputs = body.around inputs body.circuit := by
      rw [reached, if_neg settles, driven]
    rw [isReached]
    refine ⟨?_, wasSeasoned.settled⟩
    change (body.around inputs body.circuit).driven
      ((body.around inputs body.circuit).seen inputs) = _
    rw [driven_seen]
    exact driven

/-- Circuits that are observed alike received the same at their output pins. -/
theorem received_congr {left right : Circuit} (same : left.observed = right.observed) (pin : NodeId) :
    received left pin = received right pin := by
  have throughView (circuit : Circuit) : received circuit pin =
      ((circuit.observed.node? pin).bind fun node => node.inputs.get? "in").getD (.bit false) := by
    rw [received, Circuit.observed, Circuit.node?_viewed, Option.bind_map]
    rfl
  rw [throughView, same, ← throughView]

/-- Chips with one basis whose declared inputs agree reach circuits that are observed alike. -/
theorem observed_reached_congr (determined : Circuit.Determined good inner)
    (same : left.SameBasis right) (isGood : good left.circuit)
    (leftSeasoned : leftInitial = false → left.Seasoned inner)
    (rightSeasoned : rightInitial = false → right.Seasoned inner)
    (agree : ∀ decl ∈ left.inputs, leftInputs.get? decl.id = rightInputs.get? decl.id) :
    (left.reached inner leftInitial leftInputs).circuit.observed =
      (right.reached inner rightInitial rightInputs).circuit.observed := by
  rw [observed_reached leftSeasoned, observed_reached rightSeasoned]
  refine determined.determined (determined.outline (left.outline_driven leftInputs).symm isGood) ?_
  rw [same.basis_driven, driven_congr fun decl declared => agree decl (same.inputs ▸ declared)]

/-- Chips with the same outputs around circuits that are observed alike copy the same. -/
theorem copied_congr (outputs : left.outputs = right.outputs)
    (observed : left.circuit.observed = right.circuit.observed) (pins : List NodeId) :
    left.copied pins = right.copied pins := by
  rw [copied, copied, outputs]
  refine List.map_congr_left fun port _ => ?_
  rw [received_congr observed]

end Chip

namespace Node

/-- The node is ready for a pass: an oscillator drives its output, and the circuit of a chip is one that
is determined and was settled as it is driven, unless the pass is the initial one. -/
structure Ready (good : Circuit → Prop) (inner : Circuit → Circuit) (initial : Bool)
    (node : Node Circuit) : Prop where
  clock : ∀ oscillator, node.part = .clock oscillator →
    node.outputs.get? "out" = some (.bit oscillator.output)
  good : ∀ body, node.part = .chip body → good body.circuit
  seasoned : ∀ body, node.part = .chip body → initial = false → body.Seasoned inner

variable {node other : Node Circuit} {initial otherInitial : Bool}

/-- What is staged has no say in whether a node is ready. -/
theorem Ready.staged (ready : node.Ready good inner initial) (arriving : PortMap) :
    (node.staged arriving).Ready good inner initial :=
  ⟨ready.clock, ready.good, ready.seasoned⟩

/-- A node is ready after a step. -/
theorem Ready.plainStep (determined : Circuit.Determined good inner)
    (ready : node.Ready good inner initial) : (node.plainStep inner initial).Ready good inner false := by
  cases part : node.part with
  | chip body =>
    have isGood := ready.good body part
    rw [plainStep_of_chip inner initial part]
    constructor
    · intro oscillator isClock
      cases isClock
    · rintro _ ⟨⟩
      exact determined.outline (Chip.outline_reached determined).symm isGood
    · rintro _ ⟨⟩ _
      exact Chip.seasoned_reached determined isGood (ready.seasoned body part)
  | clock oscillator =>
    rw [plainStep_of_not_chip inner initial (by simp [part]), step, part]
    refine ⟨ready.clock, fun body isChip => ?_, fun body isChip => ?_⟩
    all_goals
      rw [part] at isChip
      cases isChip
  | _ =>
    rw [plainStep_of_not_chip inner initial (by simp [part])]
    constructor
    all_goals
      intro _ isPart
      rw [step_eq] at isPart
      simp [displayed, part] at isPart

/-- What has the basis of an oscillator is an oscillator with the same output. -/
theorem clock_of_basis_eq (same : node.basis = other.basis) {oscillator : Oscillator}
    (isClock : node.part = .clock oscillator) :
    ∃ otherOscillator, other.part = .clock otherOscillator ∧
      oscillator.output = otherOscillator.output := by
  obtain ⟨label, position, _, inputs, outputs⟩ := node
  obtain ⟨otherLabel, otherPosition, otherPart, otherInputs, otherOutputs⟩ := other
  simp only at isClock
  subst isClock
  have parts := congrArg Node.part same
  cases otherPart with
  | clock otherOscillator =>
    refine ⟨otherOscillator, rfl, ?_⟩
    simp only [basis, viewed, based, map, Part.map, Part.held, Part.clock.injEq,
      Oscillator.mk.injEq] at parts
    exact parts.2.2.1
  | _ => cases parts

/-- Nodes with one basis that are ready for a pass and whose declared inputs agree drive the same after
it, unless they are joints. -/
theorem outputs_plainStep_congr (determined : Circuit.Determined good inner)
    (same : node.basis = other.basis) (plain : node.isJoint = false)
    (ready : node.Ready good inner initial) (otherReady : other.Ready good inner otherInitial)
    (agree : ∀ port ∈ node.declaredInputs, node.inputs.get? port = other.inputs.get? port) :
    (node.plainStep inner initial).outputs = (other.plainStep inner otherInitial).outputs := by
  have kept := outputs_without_congr same plain
  cases part : node.part with
  | chip body =>
    obtain ⟨otherBody, otherPart, sameBody⟩ := chip_of_basis_eq same part
    rw [declaredInputs, part] at agree
    have observed := Chip.observed_reached_congr determined sameBody (ready.good body part)
      (ready.seasoned body part) (otherReady.seasoned otherBody otherPart)
      fun decl declared => agree decl.id (List.mem_map_of_mem declared)
    have pins := Circuit.outputPins_of_outline_eq sameBody.outline
    have sameOutputs : (body.reached inner initial node.inputs).outputs =
        (otherBody.reached inner otherInitial other.inputs).outputs := sameBody.outputs
    have copied := Chip.copied_congr sameOutputs observed body.circuit.outputPins
    rw [plainStep_of_chip inner initial part, plainStep_of_chip inner otherInitial otherPart]
    change Chip.copyOutputs _ body.circuit.outputPins _ =
      Chip.copyOutputs _ otherBody.circuit.outputPins _
    rw [Chip.copyOutputs_eq, Chip.copyOutputs_eq, ← pins, copied]
    refine PortMap.writeAll_congr kept fun port member => ?_
    rw [written, part] at member
    change port ∈ body.copiedPorts at member
    rw [Chip.copiedPorts, sameBody.outputs] at member
    rw [Chip.copied, List.map_map]
    exact member
  | clock oscillator =>
    obtain ⟨otherOscillator, otherPart, sameOutput⟩ := clock_of_basis_eq same part
    rw [plainStep_of_not_chip inner initial (by simp [part]), step, part,
      plainStep_of_not_chip inner otherInitial (by simp [otherPart]), step, otherPart]
    refine PortMap.ext fun port => ?_
    by_cases isOut : port = "out"
    · rw [isOut, ready.clock oscillator part, otherReady.clock otherOscillator otherPart, sameOutput]
    · refine PortMap.get?_of_without_eq kept ?_
      rw [written, part]
      simpa using isOut
  | _ =>
    have notChip : ∀ body, node.part ≠ .chip body := by simp [part]
    have notClock : ∀ oscillator, node.part ≠ .clock oscillator := by simp [part]
    have otherNotChip : ∀ body, other.part ≠ .chip body := by
      intro body isChip
      obtain ⟨_, wasChip, _⟩ := chip_of_basis_eq same.symm isChip
      exact notChip _ wasChip
    rw [plainStep_of_not_chip inner initial notChip, plainStep_of_not_chip inner otherInitial otherNotChip,
      step_eq, step_eq, ← emitted_congr same agree]
    refine PortMap.writeAll_congr kept fun port member => ?_
    rwa [map_fst_emitted notChip notClock]

/-- Nodes with one basis that are ready for a pass drive the same after it if the same arrives at their
declared inputs, unless they are joints. -/
theorem outputs_staged_congr (determined : Circuit.Determined good inner)
    (same : node.basis = other.basis) (plain : node.isJoint = false)
    (ready : node.Ready good inner initial) (otherReady : other.Ready good inner otherInitial)
    {arriving otherArriving : PortMap}
    (agree : ∀ port ∈ node.declaredInputs, arriving.get? port = otherArriving.get? port) :
    ((node.staged arriving).plainStep inner initial).outputs =
      ((other.staged otherArriving).plainStep inner otherInitial).outputs :=
  outputs_plainStep_congr determined same plain (ready.staged arriving)
    (otherReady.staged otherArriving) agree

/-- What is observed of a node are its label and position, its part as a user sees it, its staged inputs
and its outputs. -/
theorem observed_ext (label : node.label = other.label) (position : node.position = other.position)
    (part : node.observed.part = other.observed.part) (inputs : node.inputs = other.inputs)
    (outputs : node.outputs = other.outputs) : node.observed = other.observed := by
  have eta (node : Node Circuit) : node.observed =
      ⟨node.label, node.position, node.observed.part, node.inputs, node.outputs⟩ := rfl
  rw [eta node, eta other, label, position, part, inputs, outputs]

/-- What a user sees of a chip is what is observed of its circuit. -/
theorem observed_part_enclosing (node : Node Circuit) (pins : List NodeId) (body : Chip Circuit) :
    (node.enclosing pins body).observed.part = .chip
      ⟨body.name, body.inputs, body.outputs, body.circuit.observed, none, .empty⟩ :=
  rfl

/-- What a user sees of a primitive component after a step is told by its basis and its inputs. -/
theorem observed_step (notChip : ∀ body, node.part ≠ .chip body) :
    node.step.observed.part = (node.basis.staged node.inputs).displayed := by
  obtain ⟨label, position, part, inputs, outputs⟩ := node
  cases part with
  | chip body => exact absurd rfl (notChip body)
  | resize direction => cases direction <;> rfl
  | _ => rfl

/-- A step keeps label and position. -/
theorem place_plainStep (inner : Circuit → Circuit) (initial : Bool) (node : Node Circuit) :
    (node.plainStep inner initial).label = node.label ∧
      (node.plainStep inner initial).position = node.position := by
  unfold Node.plainStep
  split
  · exact ⟨rfl, rfl⟩
  · rw [step_eq]
    exact ⟨rfl, rfl⟩

/-- Nodes with one basis and the same staged inputs that are ready for a pass are observed alike after
it, unless they are joints. -/
theorem observed_plainStep_congr (determined : Circuit.Determined good inner)
    (same : node.basis = other.basis) (plain : node.isJoint = false)
    (ready : node.Ready good inner initial) (otherReady : other.Ready good inner otherInitial)
    (sameInputs : node.inputs = other.inputs) :
    (node.plainStep inner initial).observed = (other.plainStep inner otherInitial).observed := by
  have outputs := outputs_plainStep_congr determined same plain ready otherReady
    fun port _ => congrArg (PortMap.get? · port) sameInputs
  have sameLabel : node.basis.label = other.basis.label := congrArg Node.label same
  have samePosition : node.basis.position = other.basis.position := congrArg Node.position same
  obtain ⟨label, position⟩ := place_plainStep inner initial node
  obtain ⟨otherLabel, otherPosition⟩ := place_plainStep inner otherInitial other
  have samePart : (node.plainStep inner initial).observed.part =
      (other.plainStep inner otherInitial).observed.part := by
    by_cases isChip : ∃ body, node.part = .chip body
    · obtain ⟨body, part⟩ := isChip
      obtain ⟨otherBody, otherPart, sameBody⟩ := chip_of_basis_eq same part
      have observed := Chip.observed_reached_congr determined sameBody (ready.good body part)
        (ready.seasoned body part) (otherReady.seasoned otherBody otherPart)
        fun decl _ => congrArg (PortMap.get? · decl.id) sameInputs
      rw [plainStep_of_chip inner initial part, plainStep_of_chip inner otherInitial otherPart]
      rw [observed_part_enclosing, observed_part_enclosing, observed]
      simp only [Chip.reached, Chip.around, sameBody.name, sameBody.inputs, sameBody.outputs]
    · have notChip : ∀ body, node.part ≠ .chip body := fun body part => isChip ⟨body, part⟩
      have otherNotChip : ∀ body, other.part ≠ .chip body := by
        intro body part
        obtain ⟨_, wasChip, _⟩ := chip_of_basis_eq same.symm part
        exact notChip _ wasChip
      rw [plainStep_of_not_chip inner initial notChip,
        plainStep_of_not_chip inner otherInitial otherNotChip, observed_step notChip,
        observed_step otherNotChip, same, sameInputs]
  refine observed_ext ?_ ?_ samePart ?_ outputs
  · rw [label, otherLabel]
    exact sameLabel
  · rw [position, otherPosition]
    exact samePosition
  · rw [inputs_plainStep, inputs_plainStep, sameInputs]

/-- Nodes with one basis that are ready for a pass and receive the same are observed alike after it,
unless they are joints. -/
theorem observed_staged_congr (determined : Circuit.Determined good inner)
    (same : node.basis = other.basis) (plain : node.isJoint = false)
    (ready : node.Ready good inner initial) (otherReady : other.Ready good inner otherInitial)
    (arriving : PortMap) :
    ((node.staged arriving).plainStep inner initial).observed =
      ((other.staged arriving).plainStep inner otherInitial).observed :=
  observed_plainStep_congr determined same plain (ready.staged arriving) (otherReady.staged arriving) rfl

end Node

end Breadboard
