import Breadboard.Proofs.Engine.Fixture
import Breadboard.Proofs.Engine.Inside
import Breadboard.Proofs.Run.Ticking
import Breadboard.Proofs.Workshop.Soundness

/-!
# What ticks touch

However many ticks a scheduler makes of a circuit, and whatever becomes of them, they touch signals only:
the fixture of the circuit stays, but for the oscillators on the level that ticks begin on, which go on, and
no signal is taken from a port but from a joint. No signal at a comment or at a component of no known kind
changes either, but that at the port of a joint; and that one stays where kept netlists suit the circuit, as
they do in every workshop. Where they do not, a comment may be taken for the joint whose place it took.
-/

namespace Breadboard

namespace Circuit

variable {own : Node Circuit → Node Circuit → Prop}

/-- What single changes keep of nodes, and signals that are shown on joints with them, a tick keeps at every
depth, whatever netlists are kept. -/
theorem relatedInside_evaluate (kept : Node.KeptSingly own)
    (shown : ∀ node signal, own node (node.setOutput "joint" signal)) (limits : Limits) (circuit : Circuit)
    (cache : NetlistCache) : circuit.RelatedInside own (circuit.evaluate limits .top cache).1 :=
  ((kept.passInvariant shown).evaluate_top (fun _ _ => id) kept.within_trans kept.within_begun limits circuit
    cache).inside

/-- A tick leaves comments and components of no known kind alone where kept netlists suit the circuit. -/
theorem keepsNotes_evaluate {circuit : Circuit} {cache : NetlistCache} (bound : circuit.Bound)
    (suits : cache.Suits circuit) (considered : String → Prop) (limits : Limits) :
    circuit.RelatedInside (Node.KeepsNotes considered) (circuit.evaluate limits .top cache).1 := by
  have kept := Node.kept_keepsNotes considered
  have lasting := kept.lasting fun node signal joint isNote => by
    rw [Node.isJoint_iff.mp joint] at isNote
    rcases isNote with part | part <;> cases part
  obtain ⟨table, tabled, knows⟩ := suits
  exact (related_evaluate_of_lasting lasting kept.within_begun (faithful_iff.mpr ⟨tabled, bound⟩) knows).inside

end Circuit

namespace Scheduler

variable {scheduler : Scheduler} {circuit : Circuit}

/-- A tick leaves a circuit as it is, or as an evaluation leaves it. -/
theorem circuit_step (scheduler : Scheduler) (circuit : Circuit) :
    (scheduler.step circuit).2.1 = circuit ∨
      (scheduler.step circuit).2.1 = (circuit.evaluate scheduler.limits .top scheduler.cache).1 := by
  unfold step
  split
  · exact .inl rfl
  · right
    rcases circuit.evaluate scheduler.limits .top scheduler.cache with ⟨reached, after, fault | report⟩
    · rfl
    · rfl

/-- Kept netlists go on to suit the circuit after a tick, be it skipped or not. -/
theorem suits_step (suits : scheduler.cache.Suits circuit) :
    (scheduler.step circuit).1.cache.Suits (scheduler.step circuit).2.1 := by
  obtain ⟨table, tabled, knows⟩ := suits
  cases suspended : scheduler.suspended with
  | true =>
    rw [step, if_pos suspended]
    exact ⟨table, tabled, knows⟩
  | false =>
    have ready : scheduler.Ready table scheduler.limits := ⟨rfl, suspended, knows⟩
    exact ⟨table, (ready.step tabled).2, (ready.step tabled).1.knows⟩

/-- Ticks keep the fixture but for the oscillators of the level, and current pins.

Proof: by induction on the ticks. -/
theorem fixture_steps (scheduler : Scheduler) (bound : circuit.Bound) (ticks : Nat) :
    (scheduler.steps circuit ticks).2.1.Bound ∧
      (scheduler.steps circuit ticks).2.1.fixture.unwound = circuit.fixture.unwound := by
  induction ticks generalizing scheduler circuit with
  | zero => exact ⟨bound, rfl⟩
  | succ ticks inductionHypothesis =>
    obtain ⟨boundFirst, first⟩ : (scheduler.step circuit).2.1.Bound ∧
        (scheduler.step circuit).2.1.fixture.unwound = circuit.fixture.unwound := by
      rcases scheduler.circuit_step circuit with same | evaluated
      · rw [same]
        exact ⟨bound, rfl⟩
      · rw [evaluated]
        exact Circuit.fixture_evaluate bound scheduler.limits scheduler.cache
    obtain ⟨boundAll, rest⟩ := inductionHypothesis (scheduler.step circuit).1 boundFirst
    exact ⟨boundAll, rest.trans first⟩

/-- Ticks relate circuits at every depth if every evaluation does that a scheduler may come to.

Proof: by induction on the ticks. -/
theorem relatedInside_steps {own : Node Circuit → Node Circuit → Prop} (kept : Node.KeptSingly own)
    {holds : Scheduler → Circuit → Prop}
    (lasts : ∀ {scheduler circuit}, holds scheduler circuit →
      holds (scheduler.step circuit).1 (scheduler.step circuit).2.1)
    (evaluates : ∀ {scheduler circuit}, holds scheduler circuit →
      circuit.RelatedInside own (circuit.evaluate scheduler.limits .top scheduler.cache).1)
    (begins : holds scheduler circuit) (ticks : Nat) :
    circuit.RelatedInside own (scheduler.steps circuit ticks).2.1 := by
  induction ticks generalizing scheduler circuit with
  | zero => exact .refl kept.refl circuit
  | succ ticks inductionHypothesis =>
    have first : circuit.RelatedInside own (scheduler.step circuit).2.1 := by
      rcases scheduler.circuit_step circuit with same | evaluated
      · rw [same]
        exact .refl kept.refl circuit
      · rw [evaluated]
        exact evaluates begins
    exact first.trans kept.trans (inductionHypothesis (lasts begins))

/-- What single changes keep of nodes, and signals that are shown on joints with them, ticks keep at every
depth, whatever netlists are kept. -/
theorem relatedInside_steps_of_shown {own : Node Circuit → Node Circuit → Prop} (kept : Node.KeptSingly own)
    (shown : ∀ node signal, own node (node.setOutput "joint" signal)) (scheduler : Scheduler)
    (circuit : Circuit) (ticks : Nat) : circuit.RelatedInside own (scheduler.steps circuit ticks).2.1 := by
  let anything (_ : Scheduler) (_ : Circuit) : Prop := True
  have holds : anything scheduler circuit := trivial
  exact relatedInside_steps kept (fun _ => trivial) (fun {scheduler circuit} _ =>
    Circuit.relatedInside_evaluate kept shown scheduler.limits circuit scheduler.cache) holds ticks

/-- Ticks leave comments and components of no known kind alone where kept netlists suit the circuit. -/
theorem keepsNotes_steps (bound : circuit.Bound) (suits : scheduler.cache.Suits circuit)
    (considered : String → Prop) (ticks : Nat) :
    circuit.RelatedInside (Node.KeepsNotes considered) (scheduler.steps circuit ticks).2.1 := by
  let suited (scheduler : Scheduler) (circuit : Circuit) : Prop :=
    circuit.Bound ∧ scheduler.cache.Suits circuit
  have holds : suited scheduler circuit := ⟨bound, suits⟩
  refine relatedInside_steps (Node.kept_keepsNotes considered) ?_ ?_ holds ticks
  · exact fun {scheduler} _ ⟨bound, suits⟩ => ⟨(fixture_steps scheduler bound 1).1, suits_step suits⟩
  · exact fun {scheduler} _ ⟨bound, suits⟩ =>
      Circuit.keepsNotes_evaluate bound suits considered scheduler.limits

/-- **Ticks touch signals only.** Whatever the limits and the kept netlists are, and wherever ticks end, in a
circuit whose chips go by current pins they leave the fixture at every depth: all slots, labels, positions,
wires and revisions, and the components with all that they hold but for what they display, the states of pins
behind ports, and what chips have derived. Only the oscillators of the level itself go on, in their states
and their counts. At every depth no signal is taken from a port but from a joint, and chips go by current
pins from then on. Comments and components of no known kind keep what they drive at every port but that of a
joint, and at that one too where kept netlists suit the circuit. They do so for every circuit of a workshop,
be no netlist kept or those of the workshop. -/
theorem ticks_touch_signals_only (bound : circuit.Bound) (scheduler : Scheduler) (ticks : Nat) :
    (scheduler.steps circuit ticks).2.1.fixture.unwound = circuit.fixture.unwound ∧
      circuit.RelatedInside Node.KeepsPorts (scheduler.steps circuit ticks).2.1 ∧
      (scheduler.steps circuit ticks).2.1.Bound ∧
      circuit.RelatedInside (Node.KeepsNotes (· ≠ "joint")) (scheduler.steps circuit ticks).2.1 ∧
      (scheduler.cache.Suits circuit →
        circuit.RelatedInside (Node.KeepsNotes fun _ => True) (scheduler.steps circuit ticks).2.1) ∧
      (∀ building address, (Workshop.opened.run building).circuit? address = some circuit →
        scheduler.cache = .empty ∨ scheduler.cache = (Workshop.opened.run building).cache →
          circuit.RelatedInside (Node.KeepsNotes fun _ => True) (scheduler.steps circuit ticks).2.1) := by
  obtain ⟨boundAll, fixture⟩ := fixture_steps scheduler bound ticks
  have ports : circuit.RelatedInside Node.KeepsPorts (scheduler.steps circuit ticks).2.1 :=
    relatedInside_steps_of_shown Node.kept_keepsPorts
      (fun node signal => .of_writes [("joint", signal)] rfl rfl) scheduler circuit ticks
  have beside : circuit.RelatedInside (Node.KeepsNotes (· ≠ "joint")) (scheduler.steps circuit ticks).2.1 :=
    relatedInside_steps_of_shown (Node.kept_keepsNotes _)
      (Node.KeepsNotes.shown fun other => other rfl) scheduler circuit ticks
  refine ⟨fixture, ports, boundAll, beside, fun suits => keepsNotes_steps bound suits _ ticks,
    fun building address found kept => ?_⟩
  exact keepsNotes_steps bound (Workshop.suits_of_circuit? found kept) _ ticks

end Scheduler

/-- A node that drives the port of a joint. -/
def Node.note (part : Part Circuit) : Node Circuit :=
  { Node.ofPart part with outputs := .ofList [("joint", .bit true)] }

namespace Circuit

/-- An inverter between pins, beside a comment and a component of no known kind. -/
def notedInverter : Circuit :=
  ⟨⟨inverter.nodes.slots ++ [some (.note .comment), some (.note .unknown)]⟩, inverter.wires, 1⟩

/-- A chip around the noted inverter. -/
def notedChip : Chip Circuit :=
  ⟨"NOT", [.ofBit "in0" "in"], [.ofBit "out0" "out"], notedInverter, none, .empty⟩

/-- A switch and a light with a noted inverter in a chip between them, beside a copy of the chip, a comment
and a component of no known kind. -/
def notedLamp : Circuit :=
  ⟨⟨[some (.ofPart (.switch true)), some (.ofPart (.chip notedChip)), some (.ofPart (.light true)),
      some (.ofPart (.chip notedChip)), some (.note .comment), some (.note .unknown)]⟩,
    [⟨⟨0, "out"⟩, ⟨1, "in0"⟩⟩, ⟨⟨1, "out0"⟩, ⟨2, "in"⟩⟩], 2⟩

/-- The noted lamp is coherent. -/
theorem coherent_notedLamp : notedLamp.Coherent := by
  have copies : ∀ node ∈ notedLamp.nodes.values, ∀ body, node.part = .chip body →
      body.circuit = notedInverter ∧ body.bindings = none := by
    simp [notedLamp, notedChip, Node.note, Arena.values, Node.ofPart]
  have flat : ∀ node ∈ notedInverter.nodes.values, ∀ body, node.part ≠ .chip body := by
    simp [notedInverter, inverter, Node.note, Arena.values, Node.ofPart]
  exact .of_copies copies flat (by decide)

end Circuit

namespace Scheduler

/-- Two ticks turn the light of the noted lamp off and touch signals only. So the comment in the one chip and
the component of no known kind in the other drive what they drove. -/
theorem notedLamp_keeps_notes :
    Circuit.notedLamp.Bound ∧ (new .standard).cache.Suits Circuit.notedLamp ∧
      (((new .standard).steps .notedLamp 2).2.1.node? 2).bind Node.display? = some (.bit false) ∧
      ((new .standard).steps .notedLamp 2).2.1.fixture.unwound = Circuit.notedLamp.fixture.unwound ∧
      Circuit.notedLamp.RelatedInside (Node.KeepsNotes fun _ => True)
        ((new .standard).steps .notedLamp 2).2.1 ∧
      ((new .standard).steps .notedLamp 2).2.1.outputAt? [1] 3 "joint" = some (.bit true) ∧
      ((new .standard).steps .notedLamp 2).2.1.outputAt? [3] 4 "joint" = some (.bit true) := by
  have bound : Circuit.notedLamp.Bound := Circuit.coherent_notedLamp.bindings
  have suits : (new .standard).cache.Suits Circuit.notedLamp := Circuit.coherent_notedLamp.suits
  have dark : (((new .standard).steps .notedLamp 2).2.1.node? 2).bind Node.display? =
      some (.bit false) := by decide +kernel
  obtain ⟨fixture, _, _, _, kept, _⟩ := ticks_touch_signals_only bound (new .standard) 2
  have notes := kept suits
  have drives {path : List NodeId} {id : NodeId} {part : Part Circuit}
      (leads : Circuit.notedLamp.inside? path = some .notedInverter)
      (found : Circuit.notedInverter.node? id = some (.note part))
      (isNote : part = .comment ∨ part = .unknown) :
      ((new .standard).steps .notedLamp 2).2.1.outputAt? path id "joint" = some (.bit true) := by
    obtain ⟨reached, leadsAfter, related⟩ := notes path _ leads
    obtain ⟨changed, foundAfter, keeps⟩ := related.node? found
    rw [Circuit.outputAt?, leadsAfter, Option.bind_some, foundAfter, Option.bind_some,
      (keeps isNote).2 "joint" trivial]
    rfl
  have inChip : Circuit.notedLamp.inside? [1] = some .notedInverter := by
    simp only [Circuit.inside?]
    rfl
  have inCopy : Circuit.notedLamp.inside? [3] = some .notedInverter := by
    simp only [Circuit.inside?]
    rfl
  exact ⟨bound, suits, dark, fixture, notes, drives inChip rfl (.inl rfl), drives inCopy rfl (.inr rfl)⟩

/-- Beside a copy of the junction, a comment that took the place of the joint in the other one is written to:
the netlist of the copy shows it the signal of the net. All chips go by current pins. -/
theorem twins_write_on_comment :
    (Circuit.twins .comment).Bound ∧
      ((Circuit.twins .comment).inside? [1]).bind (Circuit.node? · 1) =
        some { (Node.ofPart .joint : Node Circuit) with part := .comment } ∧
      ((new .standard).steps (.twins .comment) 1).2.1.outputAt? [1] 1 "joint" = some (.bit true) ∧
      ¬(Circuit.twins .comment).RelatedInside (Node.KeepsNotes fun _ => True)
        ((new .standard).steps (.twins .comment) 1).2.1 := by
  have bound : (Circuit.twins .comment).Bound :=
    Circuit.everyChip_twins (fun _ => Circuit.currentBindings_of_none rfl) nofun
  have here : ((Circuit.twins .comment).inside? [1]).bind (Circuit.node? · 1) =
      some { (Node.ofPart .joint : Node Circuit) with part := .comment } := by
    simp only [Circuit.inside?]
    rfl
  have written : ((new .standard).steps (.twins .comment) 1).2.1.outputAt? [1] 1 "joint" =
      some (.bit true) := by
    decide +kernel
  refine ⟨bound, here, written, fun kept => ?_⟩
  obtain ⟨inner, leads, found⟩ := Option.bind_eq_some_iff.mp here
  obtain ⟨reached, leadsAfter, related⟩ := kept [1] inner leads
  obtain ⟨changed, foundAfter, keeps⟩ := related.node? found
  have silent : changed.outputs.get? "joint" = none := (keeps (.inl rfl)).2 "joint" trivial
  rw [Circuit.outputAt?, leadsAfter, Option.bind_some, foundAfter, Option.bind_some, silent] at written
  cases written

end Scheduler

end Breadboard
