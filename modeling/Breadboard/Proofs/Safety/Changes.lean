import Breadboard.Console.Session
import Breadboard.Proofs.Engine.Currency
import Breadboard.Proofs.Safety.Counts

/-!
# Between ticks

Between ticks a circuit is driven, and its oscillators are tuned, started and stopped, one by one or all
at once. None of this changes a blueprint or raises a count.
-/

namespace Breadboard

/-- A change of a circuit between ticks. -/
inductive Change where
  | drive (id : NodeId) (signal : Signal)
  /-- One oscillator is set to a frequency. -/
  | tune (id : NodeId) (frequency : Frequency)
  | act (id : NodeId) (action : ClockAction)
  /-- All oscillators at all depths are set to a frequency. -/
  | retune (frequency : Frequency)

/-- The circuit after a change. -/
def Change.apply (circuit : Circuit) : Change → Circuit
  | .drive id signal => circuit.modifyNode id fun node => (node.drive? signal).getD node
  | .tune id frequency => circuit.modifyNode id (Node.adjusted fun o => { o with frequency })
  | .act id action => circuit.modifyNode id (Node.adjusted (Session.actOn action))
  | .retune frequency => circuit.retune frequency

namespace Node

/-- The blueprint is the same afterwards, and a count below the greatest number stays below it. -/
def Kept (before after : Node Circuit) : Prop :=
  before.KeepsBlueprint after ∧ before.KeepsCount after

theorem Kept.refl (node : Node Circuit) : node.Kept node :=
  ⟨.refl node, .refl node⟩

theorem Kept.trans {first second third : Node Circuit} (one : first.Kept second)
    (two : second.Kept third) : first.Kept third :=
  ⟨one.1.trans two.1, one.2.trans two.2⟩

/-- A node that is driven is kept. -/
theorem kept_driven (signal : Signal) (node : Node Circuit) :
    node.Kept ((node.drive? signal).getD node) := by
  refine ⟨blueprint_driven signal node, ?_⟩
  cases part : node.part with
  | inputPin width state => exact .of_not_clock (by simp [drive?, part])
  | switch on => exact .of_not_clock (by simp [drive?, part])
  | _ => exact .of_part (by simp [drive?, part])

/-- A node is kept when its oscillator is changed, but for the count. -/
theorem kept_adjusted {change : Oscillator → Oscillator} (counts : ∀ o, (change o).tick = o.tick)
    (node : Node Circuit) : node.Kept (node.adjusted change) := by
  refine ⟨blueprint_adjusted change node, fun below => ?_⟩
  cases part : node.part with
  | clock oscillator =>
    have own := below oscillator part
    intro after isClock
    simp only [adjusted, part, Part.clock.injEq] at isClock
    rw [← isClock, counts]
    exact own
  | _ =>
    refine KeepsCount.of_part ?_ below
    simp only [adjusted, part]

/-- A node is kept when the circuit inside it, if it is a chip, is replaced by one of the same
blueprint. -/
theorem kept_map {node : Node Circuit} {change : Circuit → Circuit}
    (same : ∀ body, node.part = .chip body →
      (change body.circuit).blueprint = body.circuit.blueprint) : node.Kept (node.map change) := by
  obtain ⟨label, position, part, inputs, outputs⟩ := node
  cases part with
  | chip body =>
    refine ⟨?_, .of_not_clock (by simp [map, Part.map])⟩
    exact blueprint_of_chip rfl (same body rfl) body.bindings body.lastInputs outputs
  | _ => exact ⟨rfl, .of_part rfl⟩

/-- A node is kept when its oscillator is set to a frequency. -/
theorem kept_retuned (frequency : Frequency) (node : Node Circuit) :
    node.Kept (node.retuned frequency) := by
  have adjusts : node.retuned frequency = node.adjusted fun o => { o with frequency } := by
    obtain ⟨label, position, part, inputs, outputs⟩ := node
    cases part <;> rfl
  rw [adjusts]
  exact kept_adjusted (by intro _; rfl) node

end Node

namespace Circuit

/-- A handle names the node that it named, with its oscillators at all depths at the frequency. -/
theorem node?_retune (frequency : Frequency) (circuit : Circuit) (id : NodeId) :
    (circuit.retune frequency).node? id =
      (circuit.node? id).map fun node => (node.map (retune frequency)).retuned frequency := by
  rw [retune, fold_eq, node?, Arena.get?_map, Arena.get?_map, Option.map_map]
  rfl

/-- Setting all oscillators to a frequency keeps nodes.

Proof: by induction over the nesting; only chips have circuits inside. -/
theorem related_retune (frequency : Frequency) (circuit : Circuit) :
    Related Node.Kept circuit (circuit.retune frequency) := by
  induction circuit using nesting_induction with
  | step circuit inductionHypothesis =>
    have frame : (circuit.retune frequency).SameFrame circuit := by
      rw [retune, fold_eq]
      exact ⟨rfl, rfl, by simp [Arena.map]⟩
    refine .of_map frame (fun _ node => (node.map (retune frequency)).retuned frequency)
      (node?_retune frequency circuit) fun id node found => ?_
    have sameInside (body : Chip Circuit) (isChip : node.part = .chip body) :
        (body.circuit.retune frequency).blueprint = body.circuit.blueprint :=
      ((inductionHypothesis id node body found isChip).imp fun _ _ => And.left).blueprint_eq
    exact (Node.kept_map sameInside).trans (Node.kept_retuned frequency _)

end Circuit

/-- A change of a circuit keeps its nodes. -/
theorem Change.related (circuit : Circuit) (change : Change) :
    Circuit.Related Node.Kept circuit (change.apply circuit) := by
  have modified (id : NodeId) (change : Node Circuit → Node Circuit)
      (kept : ∀ node, node.Kept (change node)) :
      Circuit.Related Node.Kept circuit (circuit.modifyNode id change) :=
    Circuit.related_modifyNode Node.Kept.refl circuit id change fun node _ => kept node
  cases change with
  | drive id signal => exact modified id _ (Node.kept_driven signal)
  | tune id frequency => exact modified id _ (Node.kept_adjusted fun _ => rfl)
  | act id action => exact modified id _ (Node.kept_adjusted (by cases action <;> exact fun _ => rfl))
  | retune frequency => exact circuit.related_retune frequency

end Breadboard
