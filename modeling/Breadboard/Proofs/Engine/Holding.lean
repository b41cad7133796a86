import Breadboard.Proofs.Circuit.Bare
import Breadboard.Proofs.Engine.Repetition

/-!
# Pins that are kept stay current

A circuit whose chips go by current pins, on every level, goes on to do so through ticks, drives and
changes of oscillators, wherever in the circuit they are made: nothing that pins are derived from changes.
A structural edit of the circuit itself leaves the pins of its chips current too, since these belong to
the circuits inside them; and as long as no chip has derived anything, edits at any depth are harmless.
-/

namespace Breadboard

variable {table : Revision → List Net}

/-- Around a circuit of the same outline and stamp, a chip that goes by current pins goes on to do so. -/
theorem Chip.currentBindings_of_outline_eq {body : Chip Circuit} {circuit : Circuit}
    (outline : circuit.outline = body.circuit.outline) (revision : circuit.revision = body.circuit.revision)
    (current : body.currentBindings = computeBindings body.circuit) :
    ({ body with circuit } : Chip Circuit).currentBindings = computeBindings circuit := by
  have same := Circuit.computeBindings_of_outline_eq outline revision
  rw [currentBindings] at current ⊢
  cases kept : body.bindings with
  | none => rfl
  | some bindings =>
    rw [kept] at current
    simp only [revision] at current ⊢
    rw [same]
    exact current

/-- Changing an oscillator retains the node. -/
theorem Node.retains_adjusted (change : Oscillator → Oscillator) (node : Node Circuit) :
    Node.Retains table node (node.adjusted change) := by
  obtain ⟨label, position, part, inputs, outputs⟩ := node
  cases part with
  | clock oscillator =>
    exact ⟨rfl, fun _ => Node.faithful_of_not_chip fun body isChip => by cases isChip⟩
  | _ => exact .of_part rfl rfl rfl

/-- What a user drives a node to retains the node. -/
theorem Node.retains_driven (signal : Signal) (node : Node Circuit) :
    Node.Retains table node ((node.drive? signal).getD node) := by
  obtain ⟨label, position, part, inputs, outputs⟩ := node
  cases part with
  | chip body => exact .of_part rfl rfl rfl
  | _ => exact ⟨rfl, fun _ => Node.faithful_of_not_chip fun body isChip => by cases isChip⟩

/-- What is a chip once its oscillator was changed was this chip before. -/
theorem Node.chip_of_adjusted {change : Oscillator → Oscillator} {node : Node Circuit}
    {body : Chip Circuit} (isChip : (node.adjusted change).part = .chip body) : node.part = .chip body := by
  obtain ⟨label, position, part, inputs, outputs⟩ := node
  cases part with
  | chip wasBody => exact isChip
  | _ => cases isChip

/-- What is a chip once it was driven was this chip before. -/
theorem Node.chip_of_driven {signal : Signal} {node : Node Circuit} {body : Chip Circuit}
    (isChip : ((node.drive? signal).getD node).part = .chip body) : node.part = .chip body := by
  obtain ⟨label, position, part, inputs, outputs⟩ := node
  cases part with
  | chip wasBody => exact isChip
  | _ => cases isChip

/-- A chip around a circuit whose nodes were retained is retained. -/
theorem Node.retains_refit {node : Node Circuit} {change : Circuit → Circuit}
    (changed : ∀ body, node.part = .chip body →
      Circuit.Related (Node.Retains table) body.circuit (change body.circuit)) :
    Node.Retains table node (node.refit change) := by
  obtain ⟨label, position, part, inputs, outputs⟩ := node
  cases part with
  | chip body =>
    have related := changed body rfl
    have outlines := related.outline_eq
    constructor
    · simp only [Node.outline, viewed, outlined, map, Part.map, Chip.map, Part.outline, refit]
      rw [show Circuit.viewed (fun _ => 0) Node.outlined (change body.circuit) =
        (change body.circuit).outline from rfl, outlines]
      rfl
    · intro faithful other isOther
      obtain ⟨current, inner⟩ := faithful body rfl
      cases isOther
      exact ⟨Chip.currentBindings_of_outline_eq outlines related.frame.revision current,
        related.faithful inner⟩
  | _ => exact .of_part rfl rfl rfl

namespace Circuit

variable {circuit : Circuit}

/-- A table tells of a circuit exactly if it tells the nets on every level and all chips go by current
pins.

Proof: by induction over the nesting. -/
theorem faithful_iff : circuit.Faithful table ↔ circuit.Tabled table ∧ circuit.Bound := by
  constructor
  · intro faithful
    refine ⟨faithful.tabled, ?_⟩
    induction faithful with
    | intro circuit _ bound _ inductionHypothesis =>
      exact everyChip_iff.mpr fun id node body found isChip =>
        ⟨bound id node body found isChip, inductionHypothesis id node body found isChip⟩
  · rintro ⟨tabled, bound⟩
    induction circuit using nesting_induction with
    | step circuit inductionHypothesis =>
      refine .intro circuit (tabled circuit (.refl circuit)) (bound circuit (.refl circuit)) ?_
      intro id node body found isChip
      exact inductionHypothesis id node body found isChip (tabled.inside found isChip)
        (everyChip_iff.mp bound id node body found isChip).2

/-- Retaining the nodes of the circuit that a path leads into retains all nodes around it.

Proof: by induction on the path. -/
theorem related_modifyInside {change : Circuit → Circuit} (path : List NodeId)
    (changed : ∀ inner, circuit.inside? path = some inner →
      Related (Node.Retains table) inner (change inner)) :
    Related (Node.Retains table) circuit (circuit.modifyInside change path) := by
  induction path generalizing circuit with
  | nil =>
    rw [modifyInside]
    exact changed circuit (by rw [inside?])
  | cons id path inductionHypothesis =>
    rw [modifyInside_cons]
    refine related_modifyNode (Node.lasting_retains table).refl circuit id _ fun node found => ?_
    refine Node.retains_refit fun body isChip => inductionHypothesis fun inner leads => ?_
    exact changed inner (inside?_cons_iff.mpr ⟨node, body, found, isChip, leads⟩)

/-- What single changes keep is kept by a tick, whether it begins or not, if its beginning keeps it. -/
theorem related_evaluate_of_lasting {relation : Node Circuit → Node Circuit → Prop}
    (lasting : Node.Lasting relation) (begins : ∀ interval node, relation node (node.begun interval))
    {limits : Limits} {cache : NetlistCache} (faithful : circuit.Faithful table)
    (knows : cache.Knows table) :
    Related relation circuit (circuit.evaluate limits .top cache).1 := by
  have begun : Related relation circuit (circuit.beginTick limits.interval).1 :=
    related_of_begun lasting.refl (begins limits.interval) circuit
  cases faults : (circuit.beginTick limits.interval).2 with
  | some fault =>
    rw [evaluate_of_fault cache faults]
    exact begun
  | none =>
    obtain ⟨_, evaluated, _⟩ := evaluate_top faithful knows faults
    rw [evaluated]
    exact begun.trans lasting.trans
      (related_afterPasses lasting (related_plainWithin lasting limits.maxPasses limits.maxDepth) _ _)

/-- A tick retains all nodes, whether it begins or not. -/
theorem related_evaluate {limits : Limits} {cache : NetlistCache} (faithful : circuit.Faithful table)
    (knows : cache.Knows table) :
    Related (Node.Retains table) circuit (circuit.evaluate limits .top cache).1 :=
  related_evaluate_of_lasting (Node.lasting_retains table) Node.retains_begun faithful knows

/-- Changing nodes that are no chips leaves chips without pins. -/
theorem Underived.modifyNode (underived : circuit.Underived) (id : NodeId)
    {change : Node Circuit → Node Circuit}
    (chips : ∀ node body, (change node).part = .chip body → node.part = .chip body) :
    (circuit.modifyNode id change).Underived := by
  have origin {other : NodeId} {node : Node Circuit} {body : Chip Circuit}
      (found : (circuit.modifyNode id change).node? other = some node) (isChip : node.part = .chip body) :
      ∃ original, circuit.node? other = some original ∧ original.part = .chip body := by
    rw [node?_modifyNode] at found
    split at found
    · obtain ⟨original, here, rfl⟩ := Option.map_eq_some_iff.mp found
      exact ⟨original, here, chips original body isChip⟩
    · exact ⟨node, found, isChip⟩
  refine everyChip_iff.mpr fun other node body found isChip => ?_
  obtain ⟨original, here, wasChip⟩ := origin found isChip
  exact everyChip_iff.mp underived other original body here wasChip

/-- Changing the circuit inside a chip leaves chips without pins, if the changed circuit has none. -/
theorem Underived.modifyInside (underived : circuit.Underived) {change : Circuit → Circuit}
    (path : List NodeId)
    (changed : ∀ inner, circuit.inside? path = some inner → (change inner).Underived) :
    (circuit.modifyInside change path).Underived := by
  refine Throughout.modifyInside (fun around id inner none other node body found isChip => ?_) underived
    path changed
  rw [node?_modifyNode] at found
  split at found
  · obtain ⟨original, here, rfl⟩ := Option.map_eq_some_iff.mp found
    obtain ⟨label, position, part, inputs, outputs⟩ := original
    cases part with
    | chip wasBody =>
      cases isChip
      exact none other _ wasBody here rfl
    | _ => cases isChip
  · exact none other node body found isChip

end Circuit

end Breadboard
