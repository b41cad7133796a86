import Breadboard.Proofs.Engine.Currency
import Breadboard.Proofs.Engine.Signals

/-!
# Evaluation by the pins that chips go by

Chips go by the pins that they keep, current or not. An evaluation that does so, but keeps no netlists
and meets no fault, is told node by node like the one that derives all pins anew. The engine does the
same on every circuit whose nets a table tells, whatever pins its chips keep; and what a circuit inside
a chip is known for once it was settled is known of every such circuit that a pass settled.
-/

namespace Breadboard

/-- The chip after a pass in which its circuit is settled as given. -/
def Chip.reachedAsBound (inner : Circuit → Circuit) (initial : Bool) (chip : Chip Circuit)
    (inputs : PortMap) : Chip Circuit :=
  chip.holding inputs
    (if chip.isDue initial inputs then inner (chip.drivenAsBound inputs)
      else chip.drivenAsBound inputs)

namespace Node

/-- The node after a pass in which circuits inside chips are settled as given. -/
def boundStep (inner : Circuit → Circuit) (initial : Bool) (node : Node Circuit) : Node Circuit :=
  match node.part with
  | .chip body =>
    node.enclosing body.currentBindings.outputs (body.reachedAsBound inner initial node.inputs)
  | _ => node.step

variable (inner : Circuit → Circuit) (initial : Bool) {node : Node Circuit}

/-- A chip is stepped to the chip that it reaches. -/
theorem boundStep_of_chip {body : Chip Circuit} (isChip : node.part = .chip body) :
    node.boundStep inner initial =
      node.enclosing body.currentBindings.outputs
        (body.reachedAsBound inner initial node.inputs) := by
  rw [boundStep, isChip]

/-- A primitive component is stepped alone. -/
theorem boundStep_of_not_chip (notChip : ∀ body, node.part ≠ .chip body) :
    node.boundStep inner initial = node.step := by
  unfold boundStep
  split
  · next body isChip => exact absurd isChip (notChip body)
  · rfl

/-- A step of a joint does nothing. -/
theorem boundStep_of_isJoint (joint : node.isJoint = true) : node.boundStep inner initial = node := by
  have part := isJoint_iff.mp joint
  rw [boundStep_of_not_chip inner initial (by simp [part]), step, part]

/-- A step writes to the outputs of a node. -/
theorem writes_boundStep : Writes (boundStep inner initial) := by
  intro node
  unfold boundStep
  split
  · exact ⟨_, Chip.copyOutputs_eq ..⟩
  · exact ⟨node.emitted, by rw [step_eq]⟩

/-- A step leaves the staged inputs. -/
@[simp] theorem inputs_boundStep (node : Node Circuit) :
    (node.boundStep inner initial).inputs = node.inputs := by
  unfold boundStep
  split
  · rfl
  · rw [step_eq]

/-- Stepping a node leaves it the joint that it is or is not. -/
@[simp] theorem isJoint_boundStep (node : Node Circuit) :
    (node.boundStep inner initial).isJoint = node.isJoint := by
  obtain ⟨_, _, part, _, _⟩ := node
  cases part with
  | resize direction => cases direction <;> rfl
  | _ => rfl

end Node

/-- The circuit inside a chip settled by the pins that chips go by, with so many levels left. -/
def Circuit.boundWithin (maxPasses : Nat) : Nat → Circuit → Circuit
  | 0, circuit => circuit
  | levels + 1, circuit =>
    circuit.quieted.plainSettle (Node.boundStep (boundWithin maxPasses levels)) maxPasses

namespace Invariant

variable {relation : Node Circuit → Node Circuit → Prop} {sound inside : Circuit → Prop}
  {known : NetlistCache → Prop} (invariant : Invariant relation sound inside known)
include invariant

/-- What an evaluation keeps is kept by a step, if it is kept when circuits inside chips are settled. -/
theorem boundStep {inner : Circuit → Circuit}
    (kept : ∀ circuit, Circuit.Related relation circuit (inner circuit)) (initial : Bool)
    (node : Node Circuit) : relation node (node.boundStep inner initial) := by
  unfold Node.boundStep
  split
  · next body isChip =>
    refine invariant.enclosed node body isChip node.inputs _ ?_
    split
    · exact kept _
    · exact .refl invariant.refl _
  · next notChip => exact invariant.stepped node notChip

/-- What an evaluation keeps is kept by a pass that steps nodes one by one. -/
theorem plainPass {step : Node Circuit → Node Circuit} (kept : ∀ node, relation node (step node))
    (circuit : Circuit) : Circuit.Related relation circuit (circuit.plainPass step) := by
  refine .of_map (Circuit.sameFrame_plainPass step circuit) _ (Circuit.node?_plainPass step circuit)
    fun id node _ => ?_
  have stepped := invariant.trans (invariant.staged node (circuit.arriving id)) (kept _)
  cases circuit.jointSignal? id with
  | none => exact stepped
  | some signal => exact invariant.trans stepped (invariant.shown _ signal)

/-- What an evaluation keeps is kept by any number of passes. -/
theorem afterPasses {step : Bool → Node Circuit → Node Circuit}
    (kept : ∀ initial node, relation node (step initial node)) (circuit : Circuit) (passes : Nat) :
    Circuit.Related relation circuit (circuit.afterPasses step passes) := by
  induction passes with
  | zero => exact .refl invariant.refl circuit
  | succ passes inductionHypothesis =>
    exact inductionHypothesis.trans invariant.trans (invariant.plainPass (kept _) _)

/-- What an evaluation keeps is kept when the circuit inside a chip is settled, however deep.

Proof: by induction on the levels left. -/
theorem boundWithin (maxPasses levels : Nat) (circuit : Circuit) :
    Circuit.Related relation circuit (Circuit.boundWithin maxPasses levels circuit) := by
  induction levels generalizing circuit with
  | zero => exact .refl invariant.refl circuit
  | succ levels inductionHypothesis =>
    exact (invariant.related_quieted circuit).trans invariant.trans
      (invariant.afterPasses (invariant.boundStep inductionHypothesis) _ _)

end Invariant

variable {table : Revision → List Net} {faults : Prop} {told : Circuit → Prop}
  {inner : Circuit → Circuit} {settleInner : InnerSettling}

/-- Circuits inside chips are settled as given, if a table tells their nets, and something is told of
every one that is settled without a fault. -/
def SettlesAsBound (table : Revision → List Net) (faults : Prop) (told : Circuit → Prop)
    (inner : Circuit → Circuit) (settleInner : InnerSettling) : Prop :=
  ∀ circuit cache, circuit.Tabled table → cache.Knows table →
    Plainly table faults (inner circuit) (fun _ => told circuit) (settleInner circuit cache)

namespace Node

/-- What is told of the circuit inside a chip that is settled in a pass. -/
def ToldInside (told : Circuit → Prop) (initial : Bool) (node : Node Circuit) : Prop :=
  ∀ body, node.part = .chip body → body.isDue initial node.inputs = true →
    told (body.drivenAsBound node.inputs)

/-- A node around circuits that a table tells of is stepped by the pins that chips go by. -/
theorem stepIn_bound (settles : SettlesAsBound table faults told inner settleInner) (initial : Bool)
    {node : Node Circuit} (tabled : node.Sound (Circuit.Tabled table)) {cache : NetlistCache}
    (knows : cache.Knows table) :
    StepsPlainly table faults (node.boundStep inner initial) (node.ToldInside told initial)
      (node.stepIn settleInner initial cache) := by
  cases part : node.part with
  | chip body =>
    have driven := (Circuit.invariant_tabled table).driven body node.inputs (tabled body part)
    have settled := settles _ cache driven knows
    simp only [stepIn, part, Chip.step_eq_holding, boundStep_of_chip inner initial part,
      Chip.reachedAsBound, ToldInside, Part.chip.injEq, forall_eq']
    by_cases due : body.isDue initial node.inputs = true
    · simp only [if_pos due]
      revert settled
      rcases settleInner (body.drivenAsBound node.inputs) cache with ⟨reached, reachedCache, _ | _⟩
      · exact id
      · rintro ⟨rfl, isTold, knowsReached⟩
        exact ⟨rfl, fun _ => isTold, knowsReached⟩
    · simp only [if_neg due]
      exact ⟨rfl, fun isDue => absurd isDue due, knows⟩
  | _ =>
    have notChip : ∀ body, node.part ≠ .chip body := by simp [part]
    simp only [stepIn, part, boundStep_of_not_chip inner initial notChip]
    exact ⟨rfl, fun body isChip => absurd isChip (notChip body), knows⟩

end Node

namespace Circuit

/-- Passes over a level whose nets a table tells go by the pins that chips go by, whichever passes settle
every chip, and something is told of all circuits inside chips that some pass settled. -/
theorem passes_bound (settles : SettlesAsBound table faults told inner settleInner)
    (kept : ∀ circuit, Related Node.KeepsBlueprint circuit (inner circuit)) (every : Bool → Bool)
    (maxPasses : Nat) {circuit : Circuit} (tabled : circuit.Tabled table) {netlist : Netlist}
    (nets : netlist.nets = (Netlist.build circuit).nets) {cache : NetlistCache}
    (knows : cache.Knows table) :
    Plainly table faults
      (circuit.plainSettle (fun initial => Node.boundStep inner (every initial)) maxPasses)
      (fun report =>
        report = circuit.plainReport (fun initial => Node.boundStep inner (every initial)) maxPasses ∧
        circuit.ToldInPasses (fun initial => Node.ToldInside told (every initial))
          (fun initial => Node.boundStep inner (every initial)) 0 report.passes)
      (passes (fun initial => pass (Node.stepIn settleInner (every initial)) netlist) maxPasses .idle
        circuit cache) := by
  have invariant := invariant_tabled table
  have each (initial : Bool) (reached : Circuit) (within : Related Node.KeepsBlueprint circuit reached) :
      reached.ToldInPass fun node => ∀ cache, cache.Knows table →
        StepsPlainly table faults (node.boundStep inner (every initial))
          (node.ToldInside told (every initial)) (node.stepIn settleInner (every initial) cache) := by
    intro id node found other knowsOther
    have tabledReached := invariant.lasts within tabled
    refine Node.stepIn_bound settles (every initial) (fun body isChip => ?_) knowsOther
    rw [Node.staged_part] at isChip
    exact invariant.inner tabledReached found isChip
  exact passes_plain (fun reached within => nets.trans (nets_of_blueprint_eq within.blueprint_eq).symm)
    each
    (fun initial reached within =>
      within.trans invariant.trans (invariant.plainPass (invariant.boundStep kept (every initial)) reached))
    (.refl invariant.refl circuit) maxPasses .idle knows

/-- A level whose nets a table tells is settled by the pins that chips go by, and something is told of
all circuits inside its chips that some pass settled. -/
theorem settle_bound (settles : SettlesAsBound table faults told inner settleInner)
    (kept : ∀ circuit, Related Node.KeepsBlueprint circuit (inner circuit)) (maxPasses : Nat)
    {circuit : Circuit} (tabled : circuit.Tabled table) {cache : NetlistCache}
    (knows : cache.Knows table) :
    Plainly table faults (circuit.plainSettle (Node.boundStep inner) maxPasses)
      (fun report => report = circuit.plainReport (Node.boundStep inner) maxPasses ∧
        circuit.ToldInPasses (Node.ToldInside told) (Node.boundStep inner) 0 report.passes)
      (circuit.settle settleInner maxPasses cache) := by
  obtain ⟨nets, knowsAfter⟩ := NetlistCache.getOrBuild_exact knows (tabled _ (.refl circuit))
  exact passes_bound settles kept id maxPasses tabled nets knowsAfter

/-- Circuits inside chips are settled by the pins that chips go by, except for a fault at the depth
limit.

Proof: by induction on the levels left. -/
theorem settleWithin_bound (table : Revision → List Net) (maxPasses : Nat)
    (below : Except Fault Settling) (levels : Nat) :
    SettlesAsBound table (∃ fault, below = .error fault) (fun _ => True)
      (boundWithin maxPasses levels) (settleWithin maxPasses below levels) := by
  have invariant := invariant_tabled table
  induction levels with
  | zero =>
    intro circuit cache _ knows
    cases below with
    | ok report => exact ⟨rfl, trivial, knows⟩
    | error fault => exact ⟨fault, rfl⟩
  | succ levels inductionHypothesis =>
    intro circuit cache tabled knows
    have settled := settle_bound inductionHypothesis (invariant.boundWithin maxPasses levels) maxPasses
      (invariant.lasts (invariant.related_quieted circuit) tabled) knows
    exact settled.imp fun _ _ => trivial

/-- At the top an evaluation meets no fault once the tick has begun: it settles the circuit by the pins
that its chips go by. -/
theorem evaluate_bound {limits : Limits} {circuit : Circuit} {cache : NetlistCache}
    (tabled : circuit.Tabled table) (knows : cache.Knows table)
    (faultless : (circuit.beginTick limits.interval).2 = none) :
    ∃ after, circuit.evaluate limits .top cache =
        ((circuit.beginTick limits.interval).1.plainSettle
            (Node.boundStep (boundWithin limits.maxPasses limits.maxDepth)) limits.maxPasses, after,
          .ok ((circuit.beginTick limits.interval).1.plainReport
            (Node.boundStep (boundWithin limits.maxPasses limits.maxDepth)) limits.maxPasses)) ∧
      after.Knows table := by
  have invariant := invariant_tabled table
  have settled := settle_bound
    (settleWithin_bound table limits.maxPasses (.ok .tooDeep) limits.maxDepth)
    (invariant.boundWithin limits.maxPasses limits.maxDepth) limits.maxPasses
    (invariant.lasts (invariant.related_beginTick limits.interval circuit) tabled) knows
  rw [evaluate_of_begun cache faultless]
  revert settled
  rcases settle (settleWithin limits.maxPasses (.ok .tooDeep) limits.maxDepth) limits.maxPasses
    (circuit.beginTick limits.interval).1 cache with ⟨reached, after, fault | report⟩
  · rintro ⟨fault, isFault⟩
    cases isFault
  · rintro ⟨rfl, ⟨rfl, _⟩, knowsAfter⟩
    exact ⟨after, rfl, knowsAfter⟩

end Circuit

end Breadboard
