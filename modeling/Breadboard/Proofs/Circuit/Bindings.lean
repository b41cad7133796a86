import Breadboard.Proofs.Circuit.Editing
import Mathlib

/-!
# Pins that are kept

A chip derives the pins behind its ports once and keeps them for as long as its circuit bears the
revision that they were derived from. Every edit of the circuit gives it a fresh revision, and an edit of
a circuit further inside moves no pin. So the pins that a chip answers with are always those of its
circuit. Whether the circuit contains an oscillator is kept in the same way, and this an edit further
inside does change while the revision stays: the answer is right as long as no such edit brings in the
first oscillator or takes away the last one.
-/

namespace Breadboard

namespace Node

/-- The node with its chip, if it is one, closed: nothing of the circuit inside shows. -/
def closed (node : Node Circuit) : Node Circuit :=
  match node.part with
  | .chip body => { node with part := .chip { body with circuit := .empty 0 } }
  | _ => node

/-- Closed nodes do not show what was changed inside. -/
theorem closed_refit (change : Circuit → Circuit) (node : Node Circuit) :
    (node.refit change).viewed id closed = node.viewed id closed := by
  obtain ⟨label, position, part, inputs, outputs⟩ := node
  cases part <;> rfl

/-- Closed nodes stay where they are. -/
theorem position_closed (node : Node Circuit) : (node.viewed id closed).position = node.position := by
  obtain ⟨label, position, part, inputs, outputs⟩ := node
  cases part <;> rfl

/-- Closing chips makes no input pins. -/
theorem isInputPin_closed (node : Node Circuit) :
    (node.viewed id closed).isInputPin = node.isInputPin := by
  obtain ⟨label, position, part, inputs, outputs⟩ := node
  cases part <;> rfl

/-- Closing chips makes no output pins. -/
theorem isOutputPin_closed (node : Node Circuit) :
    (node.viewed id closed).isOutputPin = node.isOutputPin := by
  obtain ⟨label, position, part, inputs, outputs⟩ := node
  cases part <;> rfl

end Node

namespace Circuit

/-- A change of a circuit further inside cannot be seen with all chips closed. -/
theorem closed_modifyInside (circuit : Circuit) (change : Circuit → Circuit) (chip : NodeId)
    (path : List NodeId) :
    (circuit.modifyInside change (chip :: path)).viewed id Node.closed =
      circuit.viewed id Node.closed := by
  rw [modifyInside_cons]
  refine viewed_ext (by simp [modifyNode, Arena.modify]) (fun other => ?_) rfl rfl
  rw [node?_modifyNode]
  split
  · rw [Option.map_map]
    exact Option.map_congr fun node _ => Node.closed_refit _ node
  · rfl

/-- A change of a circuit further inside keeps the revision and the pins. -/
theorem pins_modifyInside (circuit : Circuit) (change : Circuit → Circuit) (chip : NodeId)
    (path : List NodeId) :
    (circuit.modifyInside change (chip :: path)).revision = circuit.revision ∧
      (circuit.modifyInside change (chip :: path)).inputPins = circuit.inputPins ∧
      (circuit.modifyInside change (chip :: path)).outputPins = circuit.outputPins := by
  have same := closed_modifyInside circuit change chip path
  refine ⟨(frame_of_viewed_eq same).2.1, ?_, ?_⟩
  · rw [inputPins, inputPins, ← sortedNodes_viewed _ _ Node.isInputPin_closed Node.position_closed, same,
      sortedNodes_viewed _ _ Node.isInputPin_closed Node.position_closed]
  · rw [outputPins, outputPins, ← sortedNodes_viewed _ _ Node.isOutputPin_closed Node.position_closed,
      same, sortedNodes_viewed _ _ Node.isOutputPin_closed Node.position_closed]

end Circuit

namespace Chip

/-- What happens to a chip, as far as its pins are concerned. -/
inductive Request where
  /-- The pins are asked for. -/
  | pins
  /-- A structural edit of the circuit that a path leads into, from the circuit of the chip on. -/
  | edit (target : List NodeId) (edit : Edit Circuit)

/-- The chip after a request, and the next fresh revision. -/
def serve (chip : Chip Circuit) (fresh : Revision) : Request → Chip Circuit × Revision
  | .pins => (chip.bind, fresh)
  | .edit target made =>
    ({ chip with circuit := chip.circuit.modifyInside (made.apply fresh) target }, fresh + 1)

/-- The chip after some requests, one after the other, and the next fresh revision. -/
def serveAll : List Request → Chip Circuit → Revision → Chip Circuit × Revision
  | [], chip, fresh => (chip, fresh)
  | request :: rest, chip, fresh =>
    let (chip, fresh) := chip.serve fresh request
    serveAll rest chip fresh

/-- Something holds of every one of some requests, for the chip that it is made of and the next fresh
revision then. -/
def Always (holds : Chip Circuit → Revision → Request → Prop) :
    List Request → Chip Circuit → Revision → Prop
  | [], _, _ => True
  | request :: rest, chip, fresh =>
    holds chip fresh request ∧ Always holds rest (chip.serve fresh request).1 (chip.serve fresh request).2

/-- If a request edits a circuit further inside, then the circuit of the chip contains an oscillator
afterwards exactly if it did before. -/
def ClockStays (chip : Chip Circuit) (fresh : Revision) : Request → Prop
  | .edit (first :: path) made =>
    (chip.circuit.modifyInside (made.apply fresh) (first :: path)).containsClock =
      chip.circuit.containsClock
  | _ => True

/-- If a request edits a circuit further inside, then what pins tell of the circuit of the chip they tell
of it afterwards. -/
def StillTold (tells : PinBindings → Circuit → Prop) (chip : Chip Circuit) (fresh : Revision) :
    Request → Prop
  | .edit (first :: path) made =>
    ∀ pins, tells pins chip.circuit →
      tells pins (chip.circuit.modifyInside (made.apply fresh) (first :: path))
  | _ => True

/-- All stamps were given out before a revision. The pins that a chip keeps tell of its circuit what they
should, unless they belong to another revision. -/
structure Keeps (tells : PinBindings → Circuit → Prop) (fresh : Revision) (chip : Chip Circuit) :
    Prop where
  stamped : chip.circuit.revision < fresh
  before : ∀ pins, chip.bindings = some pins → pins.revision < fresh
  told : ∀ pins, chip.bindings = some pins → pins.revision = chip.circuit.revision →
    tells pins chip.circuit

/-- Chips go by pins of the present revision. -/
theorem revision_currentBindings (chip : Chip Circuit) :
    chip.currentBindings.revision = chip.circuit.revision := by
  unfold currentBindings
  split
  · next kept _ =>
    split
    · next current => exact current
    · rfl
  · rfl

variable {tells : PinBindings → Circuit → Prop} {chip : Chip Circuit} {fresh : Revision}

/-- The pins that a chip answers with tell what they should if newly derived ones do. -/
theorem Keeps.current (keeps : chip.Keeps tells fresh)
    (derived : ∀ circuit, tells (computeBindings circuit) circuit) :
    tells chip.currentBindings chip.circuit := by
  unfold currentBindings
  split
  · next kept bound =>
    split
    · next isCurrent => exact keeps.told kept bound isCurrent
    · exact derived _
  · exact derived _

/-- After an edit at its own level a chip keeps what it kept: either nothing has changed or its pins do
not count any more. -/
theorem Keeps.edit (keeps : chip.Keeps tells fresh) (made : Edit Circuit) :
    Keeps tells (fresh + 1) { chip with circuit := made.apply fresh chip.circuit } := by
  rcases made.apply_cases fresh chip.circuit with unchanged | ⟨isFresh, _⟩
  · rw [unchanged]
    exact ⟨Nat.lt_succ_of_lt keeps.stamped, fun pins bound => Nat.lt_succ_of_lt (keeps.before pins bound),
      keeps.told⟩
  · refine ⟨Nat.lt_succ_of_le (Nat.le_of_eq isFresh),
      fun pins bound => Nat.lt_succ_of_lt (keeps.before pins bound), fun pins bound same => ?_⟩
    have old := keeps.before pins bound
    rw [same, isFresh] at old
    exact absurd old (Nat.lt_irrefl fresh)

/-- After an edit further inside a chip keeps what it kept if this is still true of its circuit. -/
theorem Keeps.edit_inside (keeps : chip.Keeps tells fresh) (made : Edit Circuit) {first : NodeId}
    {path : List NodeId}
    (still : ∀ pins, tells pins chip.circuit →
      tells pins (chip.circuit.modifyInside (made.apply fresh) (first :: path))) :
    Keeps tells (fresh + 1)
      { chip with circuit := chip.circuit.modifyInside (made.apply fresh) (first :: path) } := by
  have revision := (chip.circuit.pins_modifyInside (made.apply fresh) first path).1
  refine ⟨?_, fun pins bound => Nat.lt_succ_of_lt (keeps.before pins bound), fun pins bound same => ?_⟩
  · rw [revision]
    exact Nat.lt_succ_of_lt keeps.stamped
  · exact still pins (keeps.told pins bound (same.trans revision))

/-- A request leaves a chip that keeps what it should as one that does. -/
theorem Keeps.serve (keeps : chip.Keeps tells fresh)
    (derived : ∀ circuit, tells (computeBindings circuit) circuit) {request : Request}
    (still : chip.StillTold tells fresh request) :
    Keeps tells (chip.serve fresh request).2 (chip.serve fresh request).1 := by
  cases request with
  | pins =>
    refine ⟨keeps.stamped, fun pins bound => ?_, fun pins bound _ => ?_⟩
    · obtain rfl := Option.some.inj bound
      rw [revision_currentBindings]
      exact keeps.stamped
    · obtain rfl := Option.some.inj bound
      exact keeps.current derived
  | edit target made =>
    cases target with
    | nil => exact keeps.edit made
    | cons first path => exact keeps.edit_inside made still

/-- Requests leave a chip that keeps what it should as one that does.

Proof: by induction on the requests. -/
theorem Keeps.serveAll {requests : List Request} (keeps : chip.Keeps tells fresh)
    (derived : ∀ circuit, tells (computeBindings circuit) circuit)
    (still : Always (StillTold tells) requests chip fresh) :
    Keeps tells (serveAll requests chip fresh).2 (serveAll requests chip fresh).1 := by
  induction requests generalizing chip fresh with
  | nil => exact keeps
  | cons request rest inductionHypothesis =>
    exact inductionHypothesis (keeps.serve derived still.1) still.2

/-- What follows from something that always holds always holds. -/
theorem Always.imp {one other : Chip Circuit → Revision → Request → Prop}
    (weaken : ∀ chip fresh request, one chip fresh request → other chip fresh request)
    {requests : List Request} (always : Always one requests chip fresh) :
    Always other requests chip fresh := by
  induction requests generalizing chip fresh with
  | nil => trivial
  | cons request rest inductionHypothesis =>
    exact ⟨weaken _ _ _ always.1, inductionHypothesis always.2⟩

/-- What holds of every request always holds. -/
theorem always_of_forall {holds : Chip Circuit → Revision → Request → Prop}
    (every : ∀ chip fresh request, holds chip fresh request) (requests : List Request)
    (chip : Chip Circuit) (fresh : Revision) : Always holds requests chip fresh := by
  induction requests generalizing chip fresh with
  | nil => trivial
  | cons request rest inductionHypothesis => exact ⟨every _ _ _, inductionHypothesis _ _⟩

/-- The pins are those of the circuit, in their present order. -/
def PinsOf (pins : PinBindings) (circuit : Circuit) : Prop :=
  pins.inputs = circuit.inputPins ∧ pins.outputs = circuit.outputPins

/-- No edit further inside moves a pin. -/
theorem stillTold_pinsOf (chip : Chip Circuit) (fresh : Revision) (request : Request) :
    chip.StillTold PinsOf fresh request := by
  rcases request with _ | ⟨_ | ⟨first, path⟩, made⟩
  · trivial
  · trivial
  · intro pins told
    obtain ⟨_, inputs, outputs⟩ := chip.circuit.pins_modifyInside (made.apply fresh) first path
    exact ⟨told.1.trans inputs.symm, told.2.trans outputs.symm⟩

/-- An edit further inside that leaves the oscillators alone leaves the pins as they are derived. -/
theorem stillTold_of_clockStays (chip : Chip Circuit) (fresh : Revision) (request : Request)
    (stays : chip.ClockStays fresh request) :
    chip.StillTold (fun pins circuit => pins = computeBindings circuit) fresh request := by
  rcases request with _ | ⟨_ | ⟨first, path⟩, made⟩
  · trivial
  · trivial
  · rintro pins rfl
    obtain ⟨revision, inputs, outputs⟩ :=
      chip.circuit.pins_modifyInside (made.apply fresh) first path
    rw [computeBindings, computeBindings, revision, inputs, outputs, stays]

/-- A chip whose pins are derived from its circuit, or not at all, keeps what derived pins tell. -/
theorem keeps_of_derived (stamped : chip.circuit.revision < fresh)
    (derived : ∀ circuit, tells (computeBindings circuit) circuit)
    (bound : ∀ pins, chip.bindings = some pins → pins = computeBindings chip.circuit) :
    chip.Keeps tells fresh := by
  refine ⟨stamped, fun pins kept => ?_, fun pins kept _ => ?_⟩
  · rw [bound pins kept]
    exact stamped
  · rw [bound pins kept]
    exact derived _

/-- After any requests a chip answers with the input and the output pins of its present circuit, in their
present order and with its revision. If no edit further inside has brought in the first oscillator or
taken away the last one, the whole answer is what would be derived now. -/
theorem bindings_current {requests : List Request} {chip reached : Chip Circuit} {fresh last : Revision}
    (served : serveAll requests chip fresh = (reached, last)) (stamped : chip.circuit.revision < fresh)
    (bound : ∀ pins, chip.bindings = some pins → pins = computeBindings chip.circuit) :
    reached.currentBindings.revision = reached.circuit.revision ∧
      reached.currentBindings.inputs = reached.circuit.inputPins ∧
      reached.currentBindings.outputs = reached.circuit.outputPins ∧
      (Always ClockStays requests chip fresh →
        reached.currentBindings = computeBindings reached.circuit) := by
  have keepsPins : reached.Keeps PinsOf last := by
    have keeps := (keeps_of_derived stamped (fun _ => ⟨rfl, rfl⟩) bound).serveAll
      (fun _ => ⟨rfl, rfl⟩) (always_of_forall stillTold_pinsOf requests chip fresh)
    rwa [served] at keeps
  obtain ⟨inputs, outputs⟩ := keepsPins.current fun _ => ⟨rfl, rfl⟩
  refine ⟨revision_currentBindings reached, inputs, outputs, fun always => ?_⟩
  have keepsAll := (keeps_of_derived stamped (fun _ => rfl) bound).serveAll (fun _ => rfl)
    (always.imp stillTold_of_clockStays)
  rw [served] at keepsAll
  exact keepsAll.current fun _ => rfl

/-- A chip with two input pins, one above the other. -/
def pair : Chip Circuit :=
  .ofCircuit "PAIR" ⟨⟨[some (.ofPart (.inputPin .one (.bit false))),
    some ((Node.ofPart (.inputPin .one (.bit false))).placed 0 50)]⟩, [], 1⟩

/-- When the upper pin of the pair moves below the lower one, the chip answers with the pins in their new
order. -/
theorem pair_bindings_current : ∃ reached last,
    serveAll [.pins, .edit [] (.move 0 ⟨0, 100⟩), .pins] pair 2 = (reached, last) ∧
      reached.currentBindings = computeBindings reached.circuit ∧
      reached.currentBindings.inputs = [1, 0] := by
  rcases served : serveAll [.pins, .edit [] (.move 0 ⟨0, 100⟩), .pins] pair 2 with ⟨reached, last⟩
  obtain ⟨_, inputs, _, whole⟩ := bindings_current served (by decide) nofun
  have lower : reached.circuit.inputPins = [1, 0] := by
    rw [show reached = _ from (congrArg Prod.fst served).symm]
    cbv
  exact ⟨reached, last, rfl, whole ⟨trivial, trivial, trivial, trivial⟩, inputs.trans lower⟩

/-- A chip around an empty chip. -/
def hollow : Chip Circuit :=
  .ofCircuit "OUTER" ⟨⟨[some (.ofPart (.chip (.ofCircuit "INNER" (.empty 1))))]⟩, [], 2⟩

/-- When an oscillator is added inside the inner chip after the pins were derived, the outer chip goes on
to answer that it contains none. -/
theorem hollow_bindings_stale :
    (serveAll [.pins, .edit [0] (.add (.ofPart (.clock .initial))), .pins]
        hollow 3).1.currentBindings.clocked = false ∧
      (serveAll [.pins, .edit [0] (.add (.ofPart (.clock .initial))), .pins]
        hollow 3).1.circuit.containsClock = true := by
  decide +kernel

end Chip

end Breadboard
