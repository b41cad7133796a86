import Breadboard.Proofs.Circuit.Bindings
import Breadboard.Proofs.Circuit.Places
import Breadboard.Proofs.Engine.Requests
import Breadboard.Proofs.Safety.Faults

/-!
# Ports and pins

The port at a place belongs to the internal pin of the same direction at that place, whatever has become
of the circuit of a chip in the meantime: it was edited, nodes in it were changed in place, and the chip
was stepped, in any order. In a step every bound input pin takes over the signal at its port and keeps it
while the circuit is settled, all other input pins keep their states, every port of a bound output pin
is written what the pin received, and all other ports keep their signals.
-/

namespace Breadboard

/-- An input pin stays what it is, with its state. -/
def Node.KeepsPin (before after : Node Circuit) : Prop :=
  before.isInputPin = true → after.part = before.part

namespace Node

/-- A pin that is kept twice is kept. -/
theorem KeepsPin.trans {first second third : Node Circuit} (one : first.KeepsPin second)
    (two : second.KeepsPin third) : first.KeepsPin third := by
  intro pin
  have kept := one pin
  have stillPin : second.isInputPin = true := by
    obtain ⟨width, state, part⟩ := isInputPin_iff.mp pin
    exact isInputPin_iff.mpr ⟨width, state, kept.trans part⟩
  exact (two stillPin).trans kept

/-- What is no input pin may change. -/
theorem KeepsPin.of_chip {before after : Node Circuit} {body : Chip Circuit}
    (isChip : before.part = .chip body) : before.KeepsPin after := by
  intro pin
  rw [isInputPin, isChip] at pin
  cases pin

/-- The passes of an evaluation keep input pins with their states. -/
theorem passInvariant_keepsPin :
    PassInvariant KeepsPin (fun _ => True) (fun _ => True) fun _ => True where
  refl _ _ := rfl
  trans := .trans
  staged _ _ _ := rfl
  quieted node _ := by
    obtain ⟨label, position, part, inputs, outputs⟩ := node
    cases part <;> rfl
  shown _ _ _ := rfl
  stepped node _ pin := by
    obtain ⟨width, state, part⟩ := isInputPin_iff.mp pin
    rw [step_eq, displayed, part]
  enclosed _ _ isChip _ _ _ := .of_chip isChip
  abandoned _ _ isChip _ _ _ := .of_chip isChip
  driven _ _ _ := trivial
  lasts _ _ := trivial
  inner _ _ _ _ _ _ := trivial
  asked _ _ := trivial

end Node

/-- A change of the circuit that a path leads into keeps the blueprint if it keeps that of every circuit.

Proof: by induction on the path. -/
theorem Circuit.blueprint_modifyInside {change : Circuit → Circuit}
    (keeps : ∀ circuit, (change circuit).blueprint = circuit.blueprint) (path : List NodeId)
    (circuit : Circuit) : (circuit.modifyInside change path).blueprint = circuit.blueprint := by
  induction path generalizing circuit with
  | nil => exact keeps circuit
  | cons id path inductionHypothesis =>
    rw [modifyInside_cons]
    refine blueprint_modifyNode circuit id _ fun node => ?_
    cases part : node.part with
    | chip body =>
      rw [Node.refit, part]
      exact Node.blueprint_of_chip part (inductionHypothesis body.circuit) _ _ _
    | _ => rw [Node.refit, part]

namespace Chip

variable {chip reached : Chip Circuit} {inputs outputs : PortMap} {fresh : Revision}

section Outcome

variable (settleInner : InnerSettling) (initial : Bool) (chip : Chip Circuit) (inputs outputs : PortMap)
  (cache : NetlistCache)

/-- A stepped chip holds the circuit that was reached, the inputs that it saw and the pins that it went
by. -/
theorem step_fst : (chip.step settleInner initial inputs outputs cache).1 =
    chip.holding inputs (chip.step settleInner initial inputs outputs cache).1.circuit := by
  rw [step_eq_holding]
  split
  · rcases settleInner (chip.drivenAsBound inputs) cache with ⟨circuit, after, _ | _⟩ <;> rfl
  · rfl

/-- A step leaves the declared ports. -/
theorem ports_step : (chip.step settleInner initial inputs outputs cache).1.inputs = chip.inputs ∧
    (chip.step settleInner initial inputs outputs cache).1.outputs = chip.outputs := by
  rw [step_fst]
  exact ⟨rfl, rfl⟩

/-- A step without a fault copies what the output pins received. -/
theorem step_outputs (faultless : (chip.step settleInner initial inputs outputs cache).2.2.2 = none) :
    (chip.step settleInner initial inputs outputs cache).2.1 =
      (chip.step settleInner initial inputs outputs cache).1.copyOutputs
        chip.currentBindings.outputs outputs := by
  revert faultless
  rw [step_eq_holding]
  split
  · rcases settleInner (chip.drivenAsBound inputs) cache with ⟨circuit, after, fault | report⟩
    · intro faultless
      cases faultless
    · exact fun _ => rfl
  · exact fun _ => rfl

/-- A fault leaves the outputs. -/
theorem step_outputs_of_fault {fault : Fault}
    (faults : (chip.step settleInner initial inputs outputs cache).2.2.2 = some fault) :
    (chip.step settleInner initial inputs outputs cache).2.1 = outputs := by
  revert faults
  rw [step_eq_holding]
  split
  · rcases settleInner (chip.drivenAsBound inputs) cache with ⟨circuit, after, fault | report⟩
    · exact fun _ => rfl
    · intro faults
      cases faults
  · intro faults
    cases faults

/-- A step does not fault if circuits are settled without faults. -/
theorem step_faultless (faultless : settleInner.Faultless) :
    (chip.step settleInner initial inputs outputs cache).2.2.2 = none := by
  obtain ⟨report, reports⟩ := faultless (chip.drivenAsBound inputs) cache
  rw [step_eq_holding]
  split
  · revert reports
    rcases settleInner (chip.drivenAsBound inputs) cache with ⟨circuit, after, fault | report⟩
    · intro reports
      cases reports
    · exact fun _ => rfl
  · rfl

/-- What passes keep is kept of the driven circuit in a step, wherever it ends. -/
theorem related_step {relation : Node Circuit → Node Circuit → Prop}
    (invariant : PassInvariant relation (fun _ => True) (fun _ => True) fun _ => True) (maxPasses : Nat)
    (below : Except Fault Settling) (levels : Nat) :
    Circuit.Related relation (chip.drivenAsBound inputs)
      (chip.step (Circuit.settleWithin maxPasses below levels) initial inputs outputs cache).1.circuit := by
  obtain ⟨-, related, -⟩ := invariant.settleWithin maxPasses below levels (chip.drivenAsBound inputs) cache
    trivial trivial
  rw [step_eq_holding]
  split
  · revert related
    rcases Circuit.settleWithin maxPasses below levels (chip.drivenAsBound inputs) cache with
      ⟨circuit, after, _ | _⟩ <;> exact id
  · exact .refl invariant.refl _

/-- A step keeps the blueprint of the circuit. -/
theorem blueprint_step (maxPasses : Nat) (below : Except Fault Settling) (levels : Nat) :
    (chip.step (Circuit.settleWithin maxPasses below levels) initial inputs outputs
      cache).1.circuit.blueprint = chip.circuit.blueprint :=
  (related_step initial chip inputs outputs cache invariant_blueprint.toPassInvariant maxPasses below
    levels).blueprint_eq.trans (Circuit.blueprint_drivePins ..)

end Outcome

/-- What becomes of a chip in the course of time. -/
inductive Use where
  /-- The pins are asked for, or the circuit is edited at some depth. -/
  | request (request : Request)
  /-- A node at some depth is changed in place; it stays where it is and what it is. -/
  | change (target : List NodeId) (id : NodeId) (made : Node Circuit → Node Circuit)
      (keeps : ∀ node, (made node).blueprint = node.blueprint)
  /-- The chip is stepped in a pass of the level that it stands on. -/
  | step (maxPasses : Nat) (below : Except Fault Settling) (levels : Nat) (initial : Bool)
      (inputs outputs : PortMap) (cache : NetlistCache)

/-- The circuit is edited, at whatever depth. -/
def Use.Edits : Use → Prop
  | .request (.edit ..) => True
  | _ => False

/-- The chip after a use, and the next fresh revision. -/
def use (chip : Chip Circuit) (fresh : Revision) : Use → Chip Circuit × Revision
  | .request request => chip.serve fresh request
  | .change target id made _ =>
    ({ chip with circuit := chip.circuit.modifyInside (·.modifyNode id made) target }, fresh)
  | .step maxPasses below levels initial inputs outputs cache =>
    ((chip.step (Circuit.settleWithin maxPasses below levels) initial inputs outputs cache).1, fresh)

/-- The chip after some uses, one after the other, and the next fresh revision. -/
def useAll : List Use → Chip Circuit → Revision → Chip Circuit × Revision
  | [], chip, fresh => (chip, fresh)
  | use :: rest, chip, fresh =>
    let (chip, fresh) := chip.use fresh use
    useAll rest chip fresh

/-- Uses leave the declared ports. -/
theorem ports_useAll (uses : List Use) (chip : Chip Circuit) (fresh : Revision) :
    (useAll uses chip fresh).1.inputs = chip.inputs ∧
      (useAll uses chip fresh).1.outputs = chip.outputs := by
  induction uses generalizing chip fresh with
  | nil => exact ⟨rfl, rfl⟩
  | cons use rest inductionHypothesis =>
    obtain ⟨inputs, outputs⟩ := inductionHypothesis (chip.use fresh use).1 (chip.use fresh use).2
    have same : (chip.use fresh use).1.inputs = chip.inputs ∧
        (chip.use fresh use).1.outputs = chip.outputs := by
      cases use with
      | request request => cases request <;> exact ⟨rfl, rfl⟩
      | change => exact ⟨rfl, rfl⟩
      | step => exact ports_step ..
    exact ⟨inputs.trans same.1, outputs.trans same.2⟩

/-- Around a circuit with the same blueprint a chip keeps the pins that it kept. -/
theorem Keeps.of_blueprint_eq {other : Chip Circuit} (keeps : chip.Keeps PinsOf fresh)
    (same : other.circuit.blueprint = chip.circuit.blueprint) (bindings : other.bindings = chip.bindings) :
    other.Keeps PinsOf fresh := by
  have revision := Circuit.revision_of_blueprint_eq same
  refine ⟨revision ▸ keeps.stamped, fun pins bound => keeps.before pins (bindings ▸ bound),
    fun pins bound current => ?_⟩
  obtain ⟨inputs, outputs⟩ := keeps.told pins (bindings ▸ bound) (current.trans revision)
  exact ⟨inputs.trans (Circuit.inputPins_of_blueprint_eq same).symm,
    outputs.trans (Circuit.outputPins_of_blueprint_eq same).symm⟩

/-- A use that is no edit keeps the blueprint of the circuit. -/
theorem blueprint_use {use : Use} (noEdit : ¬use.Edits) (chip : Chip Circuit) (fresh : Revision) :
    (chip.use fresh use).1.circuit.blueprint = chip.circuit.blueprint := by
  cases use with
  | request request =>
    cases request with
    | pins => rfl
    | edit target made => exact absurd trivial noEdit
  | change target id made keeps =>
    exact Circuit.blueprint_modifyInside (fun circuit => circuit.blueprint_modifyNode id made keeps) target
      chip.circuit
  | step maxPasses below levels initial inputs outputs cache => exact blueprint_step ..

/-- A chip that keeps the pins of its circuit goes on to do so in every use. -/
theorem Keeps.use (keeps : chip.Keeps PinsOf fresh) (use : Use) :
    Keeps PinsOf (chip.use fresh use).2 (chip.use fresh use).1 := by
  have derived (circuit : Circuit) : PinsOf (computeBindings circuit) circuit := ⟨rfl, rfl⟩
  cases use with
  | request request => exact keeps.serve derived (stillTold_pinsOf chip fresh request)
  | change target id made kept =>
    have noEdit : ¬(Use.change target id made kept).Edits := not_false
    exact keeps.of_blueprint_eq (blueprint_use noEdit chip fresh) rfl
  | step maxPasses below levels initial inputs outputs cache =>
    have bound : chip.bind.Keeps PinsOf fresh := keeps.serve derived (stillTold_pinsOf chip fresh .pins)
    refine bound.of_blueprint_eq (blueprint_step ..) ?_
    rw [Chip.use, step_fst]
    rfl

/-- A chip that keeps the pins of its circuit goes on to do so in all uses.

Proof: by induction on the uses. -/
theorem Keeps.useAll (keeps : chip.Keeps PinsOf fresh) (uses : List Use) :
    Keeps PinsOf (useAll uses chip fresh).2 (useAll uses chip fresh).1 := by
  induction uses generalizing chip fresh with
  | nil => exact keeps
  | cons use rest inductionHypothesis => exact inductionHypothesis (keeps.use use)

/-- Uses that are no edits keep the blueprint of the circuit.

Proof: by induction on the uses. -/
theorem blueprint_useAll {uses : List Use} (noEdits : ∀ use ∈ uses, ¬use.Edits) (chip : Chip Circuit)
    (fresh : Revision) : (useAll uses chip fresh).1.circuit.blueprint = chip.circuit.blueprint := by
  induction uses generalizing chip fresh with
  | nil => rfl
  | cons use rest inductionHypothesis =>
    rw [List.forall_mem_cons] at noEdits
    exact (inductionHypothesis noEdits.2 _ _).trans (blueprint_use noEdits.1 chip fresh)

/-- What a step of a chip comes to, port by port and pin by pin. -/
structure StepsByPlace (chip : Chip Circuit) (inputs outputs : PortMap)
    (outcome : Chip Circuit × PortMap × NetlistCache × Option Fault) : Prop where
  /-- An input pin holds the signal at the port of its place, or a clear one, in the form of its width. -/
  driven : ∀ (place : Nat) (decl : PortDecl) (pin : NodeId), chip.inputs[place]? = some decl →
    chip.circuit.inputPins[place]? = some pin → ∃ before width state after,
      chip.circuit.node? pin = some before ∧ before.part = .inputPin width state ∧
      outcome.1.circuit.node? pin = some after ∧
      after.part = .inputPin width (((inputs.get? decl.id).getD (.zero width.bits)).normalise width.bits)
  /-- An input pin at a place without a port keeps its state. -/
  undriven : ∀ pin node, chip.circuit.node? pin = some node → node.isInputPin = true →
    pin ∉ chip.circuit.inputPins.take chip.inputs.length →
      ∃ after, outcome.1.circuit.node? pin = some after ∧ after.part = node.part
  /-- A declared output is written what the output pin at its place received last, or a clear bit. -/
  copied : outcome.2.2.2 = none → ∀ (place : Nat) (decl : PortDecl) (pin : NodeId),
    chip.outputs[place]? = some decl → chip.circuit.outputPins[place]? = some pin →
      ∃ after, outcome.1.circuit.node? pin = some after ∧ after.isOutputPin = true ∧
        outcome.2.1.get? decl.id = some ((after.inputs.get? "in").getD (.bit false))
  /-- Every port that is no declared output with a pin at its place keeps its signal. -/
  kept : outcome.2.2.2 = none → ∀ port,
    port ∉ (chip.outputs.take chip.circuit.outputPins.length).map PortDecl.id →
      outcome.2.1.get? port = outputs.get? port
  /-- A fault inside leaves all outputs. -/
  abandoned : ∀ fault, outcome.2.2.2 = some fault → outcome.2.1 = outputs

/-- The port at a place drives the pin at that place, if no pin stands at two places. -/
theorem driverAt?_of_place {pins : List NodeId} (once : pins.Nodup) {place : Nat} {decl : PortDecl}
    {pin : NodeId} (isDecl : chip.inputs[place]? = some decl) (isPin : pins[place]? = some pin) :
    chip.driverAt? pins pin = some decl := by
  have zipped : (decl, pin) ∈ (chip.inputs.zip pins).filter (·.2 == pin) :=
    List.mem_filter.mpr ⟨List.mem_of_getElem? (List.getElem?_zip_eq_some.mpr ⟨isDecl, isPin⟩), by simp⟩
  obtain ⟨⟨other, otherPin⟩, last⟩ :=
    Option.isSome_iff_exists.mp (List.getLast?_isSome.mpr (List.ne_nil_of_mem zipped))
  obtain ⟨member, named⟩ := List.mem_filter.mp (List.mem_of_getLast? last)
  obtain rfl := beq_iff_eq.mp named
  obtain ⟨otherPlace, atOther⟩ := List.mem_iff_getElem?.mp member
  obtain ⟨isOther, isOtherPin⟩ := List.getElem?_zip_eq_some.mp atOther
  have samePlace : place = otherPlace :=
    (List.getElem?_inj (List.getElem?_eq_some_iff.mp isPin).1 once).mp (isPin.trans isOtherPin.symm)
  rw [← samePlace, isDecl] at isOther
  cases isOther
  rw [driverAt?, last]
  rfl

/-- A pin at a place without a port is not driven. -/
theorem driverAt?_eq_none {pins : List NodeId} {pin : NodeId} (free : pin ∉ pins.take chip.inputs.length) :
    chip.driverAt? pins pin = none := by
  rw [driverAt?, Option.map_eq_none_iff, List.getLast?_eq_none_iff, List.filter_eq_nil_iff]
  rintro ⟨decl, other⟩ member named
  obtain rfl := beq_iff_eq.mp named
  obtain ⟨place, atPlace⟩ := List.mem_iff_getElem?.mp member
  obtain ⟨isDecl, isPin⟩ := List.getElem?_zip_eq_some.mp atPlace
  refine free (List.mem_of_getElem? (i := place) ?_)
  rw [List.getElem?_take_of_lt (List.getElem?_eq_some_iff.mp isDecl).1, isPin]

/-- Copying from pins leaves the ports that have no pin at their places. -/
theorem get?_copyOutputs_of_free {pins : List NodeId} {port : String}
    (free : port ∉ (chip.outputs.take pins.length).map PortDecl.id) (outputs : PortMap) :
    (chip.copyOutputs pins outputs).get? port = outputs.get? port := by
  have unwritten : PortMap.lastOf? (chip.copied pins) port = none := by
    rw [← Option.not_isSome_iff_eq_none, PortMap.isSome_lastOf?, copied, List.map_map]
    intro written
    obtain ⟨⟨decl, pin⟩, member, rfl⟩ := List.mem_map.mp written
    obtain ⟨place, atPlace⟩ := List.mem_iff_getElem?.mp member
    obtain ⟨isDecl, isPin⟩ := List.getElem?_zip_eq_some.mp atPlace
    refine free (List.mem_map_of_mem (List.mem_of_getElem? (i := place) ?_))
    rw [List.getElem?_take_of_lt (List.getElem?_eq_some_iff.mp isPin).1, isDecl]
  rw [copyOutputs_eq, PortMap.get?_writeAll, unwritten, Option.none_or]

/-- A chip that goes by the pins of its circuit is stepped place by place.

Proof: the pins are driven where they stand, each of them from one port, and the passes keep them so. The
outputs are written from what is reached, and ports with different names do not overwrite each other. -/
theorem stepsByPlace (current : PinsOf chip.currentBindings chip.circuit)
    (distinct : (chip.outputs.map PortDecl.id).Nodup) (maxPasses : Nat) (below : Except Fault Settling)
    (levels : Nat) (initial : Bool) (inputs outputs : PortMap) (cache : NetlistCache) :
    chip.StepsByPlace inputs outputs
      (chip.step (Circuit.settleWithin maxPasses below levels) initial inputs outputs cache) := by
  have pinsKept := related_step initial chip inputs outputs cache Node.passInvariant_keepsPin maxPasses
    below levels
  have blueprint := blueprint_step initial chip inputs outputs cache maxPasses below levels
  obtain ⟨-, ports⟩ :=
    ports_step (Circuit.settleWithin maxPasses below levels) initial chip inputs outputs cache
  have once : chip.circuit.inputPins.Nodup := (chip.circuit.listsDownward_sortedNodes _).nodup
  have drives (pin : NodeId) : (chip.drivenAsBound inputs).node? pin = (chip.circuit.node? pin).map
      fun node => (chip.driverAt? chip.circuit.inputPins pin).elim node
        fun decl => node.driveFrom (inputs.get? decl.id) := by
    rw [drivenAsBound, node?_drivePins, current.1]
  constructor
  · intro place decl pin isDecl isPin
    obtain ⟨before, found, isInput⟩ := Circuit.of_mem_sortedNodes (List.mem_of_getElem? isPin)
    obtain ⟨width, state, part⟩ := Node.isInputPin_iff.mp isInput
    have driven := drives pin
    rw [found, Option.map_some, driverAt?_of_place once isDecl isPin, Option.elim_some,
      Node.driveFrom_of_part part] at driven
    obtain ⟨after, foundAfter, kept⟩ := pinsKept.node? driven
    exact ⟨before, width, state, after, found, part, foundAfter, kept rfl⟩
  · intro pin node found isInput free
    have driven := drives pin
    rw [found, Option.map_some, driverAt?_eq_none free, Option.elim_none] at driven
    obtain ⟨after, foundAfter, kept⟩ := pinsKept.node? driven
    exact ⟨after, foundAfter, kept isInput⟩
  · intro faultless place decl pin isDecl isPin
    obtain ⟨before, found, isOutput⟩ := Circuit.of_mem_sortedNodes (List.mem_of_getElem? isPin)
    obtain ⟨after, foundAfter, same⟩ := Circuit.counterpart_of_viewed_eq blueprint.symm found
    refine ⟨after, foundAfter, ?_, ?_⟩
    · rw [← Node.isOutputPin_blueprint after, ← isOutput, ← Node.isOutputPin_blueprint before]
      exact congrArg Node.isOutputPin same.symm
    · rw [step_outputs _ _ _ _ _ _ faultless, current.2,
        get?_copyOutputs_of_nodup _ (ports ▸ distinct) (ports ▸ isDecl) isPin, received, foundAfter,
        Option.bind_some]
  · intro faultless port free
    rw [step_outputs _ _ _ _ _ _ faultless, current.2]
    exact get?_copyOutputs_of_free (ports ▸ free) outputs
  · exact fun fault faults => step_outputs_of_fault _ _ _ _ _ _ faults

/-- The ports of a chip belong to its internal pins place by place, in whatever pass it is stepped. -/
structure BindsByPlace (chip : Chip Circuit) : Prop where
  /-- The input pins stand from top to bottom, and in the order of slots at one height. -/
  inputPins : chip.circuit.ListsDownward Node.isInputPin chip.circuit.inputPins
  /-- The output pins stand from top to bottom, and in the order of slots at one height. -/
  outputPins : chip.circuit.ListsDownward Node.isOutputPin chip.circuit.outputPins
  steps : ∀ maxPasses below levels initial inputs outputs cache, chip.StepsByPlace inputs outputs
    (chip.step (Circuit.settleWithin maxPasses below levels) initial inputs outputs cache)
  /-- A step comes to its end where depths are in the range of their numbers. -/
  ends : ∀ maxPasses report levels initial inputs outputs cache,
    (chip.step (Circuit.settleWithin maxPasses (.ok report) levels) initial inputs outputs
      cache).2.2.2 = none

/-- A chip that started without any derived pins binds its ports by place after any uses. If it was made
from its circuit and not edited since, its ports have the directions and the widths of the pins that they
belong to. -/
theorem ports_bind_by_place {chip reached : Chip Circuit} {uses : List Use} {fresh last : Revision}
    (used : useAll uses chip fresh = (reached, last)) (underived : chip.bindings = none)
    (stamped : chip.circuit.revision < fresh) (distinct : (chip.outputs.map PortDecl.id).Nodup) :
    reached.BindsByPlace ∧ ∀ name circuit, chip = ofCircuit name circuit →
      (∀ use ∈ uses, ¬use.Edits) → reached.FitsPins := by
  obtain ⟨inputs, outputs⟩ := ports_useAll uses chip fresh
  have keeps : chip.Keeps PinsOf fresh :=
    keeps_of_derived stamped (fun _ => ⟨rfl, rfl⟩) fun pins bound => by
      rw [underived] at bound
      cases bound
  have keepsLast := keeps.useAll uses
  rw [used] at inputs outputs keepsLast
  have current := keepsLast.current fun _ => ⟨rfl, rfl⟩
  refine ⟨⟨reached.circuit.listsDownward_sortedNodes _, reached.circuit.listsDownward_sortedNodes _,
    stepsByPlace current (outputs ▸ distinct), fun maxPasses report levels initial _ _ _ => ?_⟩, ?_⟩
  · exact step_faultless _ _ _ _ _ _ (Circuit.settleWithin_faultless maxPasses report levels)
  · rintro name circuit rfl noEdits
    have same := blueprint_useAll noEdits (ofCircuit name circuit) fresh
    rw [used] at same
    exact (fitsPins_ofCircuit name circuit).of_blueprint_eq inputs outputs same

/-- Two wires from input pins to output pins, the first input pin above the second one. -/
def crossing : Chip Circuit :=
  .ofCircuit "CROSSING" ⟨⟨[some (.ofPart (.inputPin .four (.zero 4))),
      some ((Node.ofPart (.inputPin .one (.bit false))).placed 0 50),
      some (.ofPart (.outputPin .four (.zero 4))),
      some ((Node.ofPart (.outputPin .one (.bit false))).placed 0 50)]⟩,
    [⟨⟨0, "out"⟩, ⟨2, "in"⟩⟩, ⟨⟨1, "out"⟩, ⟨3, "in"⟩⟩], 1⟩

/-- A step of a chip that receives a one at its first port. -/
def firstRaised : Use :=
  .step 10 (.ok .tooDeep) 3 true (PortMap.ofList [("in0", .bit true)]) .empty .empty

/-- The ports of the crossing fit its pins after a step, and when the upper input pin was moved below the
other one after the pins had been derived, the ports bind by the new places. -/
theorem crossing_binds_by_place : (useAll [firstRaised] crossing 2).1.FitsPins ∧ ∃ reached last,
    useAll [.request .pins, .request (.edit [] (.move 0 ⟨0, 100⟩))] crossing 2 = (reached, last) ∧
      reached.BindsByPlace ∧ reached.circuit.inputPins = [1, 0] := by
  have distinct : (crossing.outputs.map PortDecl.id).Nodup := nodup_ports ..
  rcases stepped : useAll [firstRaised] crossing 2 with ⟨once, last⟩
  rcases moved : useAll [.request .pins, .request (.edit [] (.move 0 ⟨0, 100⟩))] crossing 2 with
    ⟨twice, lastAgain⟩
  have noEdits : ∀ use ∈ [firstRaised], ¬use.Edits := by simp [Use.Edits, firstRaised]
  have lower : twice.circuit.inputPins = [1, 0] := by
    rw [show twice = _ from (congrArg Prod.fst moved).symm]
    cbv
  exact ⟨(ports_bind_by_place stepped rfl (by decide) distinct).2 _ _ rfl noEdits, twice, lastAgain, rfl,
    (ports_bind_by_place moved rfl (by decide) distinct).1, lower⟩

end Chip

end Breadboard
