import Breadboard.Proofs.Circuit.Outline
import Breadboard.Proofs.Engine.Plain

/-!
# What an evaluation keeps

An evaluation changes nodes in few ways: it stages signals, quiets a node, shows a signal on a joint,
steps a primitive component, and steps a chip around a circuit that was driven and settled. A relation
between a node before and after that all of these keep is kept by passes, by the settling of a level,
and by the settling of the circuits inside chips, however deep.
-/

namespace Breadboard

namespace Circuit

variable {relation : Node Circuit → Node Circuit → Prop} {before between after : Circuit}

/-- The second circuit has the frame of the first one, and its nodes are related to those of the
first one, handle by handle. -/
structure Related (relation : Node Circuit → Node Circuit → Prop) (before after : Circuit) :
    Prop where
  frame : after.SameFrame before
  nodes : ∀ id, Option.Rel relation (before.node? id) (after.node? id)

/-- A circuit whose nodes are made from those of another one is related to it if every node is
related to what is made from it. -/
theorem Related.of_map (frame : after.SameFrame before)
    (change : NodeId → Node Circuit → Node Circuit)
    (nodes : ∀ id, after.node? id = (before.node? id).map (change id))
    (kept : ∀ id node, before.node? id = some node → relation node (change id node)) :
    Related relation before after := by
  refine ⟨frame, fun id => ?_⟩
  rw [nodes]
  cases found : before.node? id with
  | none => exact .none
  | some node => exact .some (kept id node found)

/-- A node that is there has a related one under its handle. -/
theorem Related.node? (related : Related relation before after) {id : NodeId} {node : Node Circuit}
    (found : before.node? id = some node) :
    ∃ changed, after.node? id = some changed ∧ relation node changed := by
  have here := related.nodes id
  rw [found] at here
  cases atId : after.node? id with
  | none =>
    rw [atId] at here
    cases here
  | some changed =>
    rw [atId] at here
    cases here with
    | some kept => exact ⟨changed, rfl, kept⟩

/-- A node that is there afterwards was made from a related one under its handle. -/
theorem Related.origin (related : Related relation before after) {id : NodeId}
    {changed : Node Circuit} (found : after.node? id = some changed) :
    ∃ node, before.node? id = some node ∧ relation node changed := by
  have here := related.nodes id
  rw [found] at here
  cases atId : before.node? id with
  | none =>
    rw [atId] at here
    cases here
  | some node =>
    rw [atId] at here
    cases here with
    | some kept => exact ⟨node, rfl, kept⟩

/-- Circuits that are related are related by what follows of the nodes that they hold. -/
theorem Related.imp_of_found {other : Node Circuit → Node Circuit → Prop}
    (weaken : ∀ id node changed, before.node? id = some node → relation node changed → other node changed)
    (related : Related relation before after) : Related other before after := by
  refine ⟨related.frame, fun id => ?_⟩
  have here := related.nodes id
  have atId := weaken id
  generalize before.node? id = left, after.node? id = right at here atId
  cases here with
  | none => exact .none
  | some kept => exact .some (atId _ _ rfl kept)

/-- Circuits that are related are related by what follows. -/
theorem Related.imp {other : Node Circuit → Node Circuit → Prop}
    (weaken : ∀ node changed, relation node changed → other node changed)
    (related : Related relation before after) : Related other before after :=
  related.imp_of_found fun _ node changed _ => weaken node changed

/-- What relates every node to itself relates every circuit to itself. -/
theorem Related.refl (reflexive : ∀ node, relation node node) (circuit : Circuit) :
    Related relation circuit circuit :=
  .of_map ⟨rfl, rfl, rfl⟩ (fun _ node => node) (fun _ => by simp) fun _ node _ => reflexive node

/-- Changes one after the other relate a node to what the second one makes of what the first one made of
it. -/
theorem Related.comp {first second : Node Circuit → Node Circuit → Prop}
    (one : Related first before between) (two : Related second between after) :
    Related (fun node changed => ∃ middle, first node middle ∧ second middle changed) before after := by
  refine ⟨⟨two.frame.wires.trans one.frame.wires, two.frame.revision.trans one.frame.revision,
    two.frame.size.trans one.frame.size⟩, fun id => ?_⟩
  have atFirst := one.nodes id
  have atSecond := two.nodes id
  generalize before.node? id = left, between.node? id = middle, after.node? id = right
    at atFirst atSecond
  cases atFirst with
  | none =>
    cases atSecond with
    | none => exact .none
  | some isFirst =>
    cases atSecond with
    | some isSecond => exact .some ⟨_, isFirst, isSecond⟩

/-- Changes one after the other relate circuits if they relate nodes. -/
theorem Related.trans
    (transitive : ∀ {first second third}, relation first second → relation second third →
      relation first third)
    (first : Related relation before between) (second : Related relation between after) :
    Related relation before after := by
  refine (first.comp second).imp ?_
  rintro node changed ⟨middle, firstKept, secondKept⟩
  exact transitive firstKept secondKept

/-- What related nodes have in common is the same under every handle. -/
theorem Related.map_eq {α : Type} (related : Related relation before after) {look : Node Circuit → α}
    (same : ∀ node changed, relation node changed → look changed = look node) (id : NodeId) :
    (after.node? id).map look = (before.node? id).map look := by
  have here := related.nodes id
  generalize before.node? id = left, after.node? id = right at here
  cases here with
  | none => rfl
  | some kept => exact congrArg some (same _ _ kept)

/-- Circuits whose nodes are related have one view if related nodes have one view. -/
theorem Related.viewed_eq (related : Related relation before after) {stamp : Revision → Revision}
    {view : Node Circuit → Node Circuit}
    (kept : ∀ node changed, relation node changed →
      changed.viewed stamp view = node.viewed stamp view) :
    after.viewed stamp view = before.viewed stamp view :=
  viewed_ext related.frame.size (related.map_eq kept) related.frame.wires
    (congrArg stamp related.frame.revision)

/-- Changing one node relates circuits if it relates the node. -/
theorem related_modifyNode (reflexive : ∀ node, relation node node) (circuit : Circuit) (id : NodeId)
    (change : Node Circuit → Node Circuit)
    (kept : ∀ node, circuit.node? id = some node → relation node (change node)) :
    Related relation circuit (circuit.modifyNode id change) := by
  refine .of_map ⟨rfl, rfl, by simp [modifyNode, Arena.modify]⟩
    (fun other node => if id = other then change node else node) (fun other => ?_)
    fun other node found => ?_
  · rw [node?_modifyNode]
    split
    · rfl
    · simp
  · split
    · next same =>
      subst same
      exact kept node found
    · exact reflexive node

/-- Changes one after the other relate circuits if each of them does. -/
theorem related_foldl {α : Type} (reflexive : ∀ node, relation node node)
    (transitive : ∀ {first second third}, relation first second → relation second third →
      relation first third)
    (change : Circuit → α → Circuit)
    (kept : ∀ circuit item, Related relation circuit (change circuit item)) (items : List α)
    (circuit : Circuit) : Related relation circuit (items.foldl change circuit) := by
  induction items generalizing circuit with
  | nil => exact .refl reflexive circuit
  | cons item rest inductionHypothesis =>
    exact (kept circuit item).trans transitive (inductionHypothesis _)

/-- Quieting a level relates circuits if quieting relates nodes. -/
theorem related_of_quieted (kept : ∀ node, relation node node.quieted) (circuit : Circuit) :
    Related relation circuit circuit.quieted :=
  .of_map ⟨rfl, rfl, by simp [quieted, Arena.map]⟩ (fun _ => Node.quieted)
    (fun _ => Arena.get?_map ..) fun _ node _ => kept node

/-- Driving pins of a chip relates circuits if driving relates nodes. -/
theorem related_drivePins (reflexive : ∀ node, relation node node)
    (transitive : ∀ {first second third}, relation first second → relation second third →
      relation first third)
    (kept : ∀ signal node, relation node (node.driveFrom signal)) (chip : Chip Circuit)
    (inputs : PortMap) (pins : List NodeId) :
    Related relation chip.circuit (chip.drivePins inputs pins) :=
  related_foldl reflexive transitive _
    (fun circuit (port : PortDecl × NodeId) =>
      related_modifyNode reflexive circuit port.2 _ fun node _ => kept _ node) _ _

/-- Driving the pins that a chip derives relates circuits if driving relates nodes. -/
theorem related_driven (reflexive : ∀ node, relation node node)
    (transitive : ∀ {first second third}, relation first second → relation second third →
      relation first third)
    (kept : ∀ signal node, relation node (node.driveFrom signal)) (chip : Chip Circuit)
    (inputs : PortMap) : Related relation chip.circuit (chip.driven inputs) :=
  related_drivePins reflexive transitive kept chip inputs _

end Circuit

namespace Node

/-- A relation between a node before and after that every single change of an evaluation keeps. -/
structure Lasting (relation : Node Circuit → Node Circuit → Prop) : Prop where
  refl : ∀ node, relation node node
  trans : ∀ {first second third}, relation first second → relation second third →
    relation first third
  staged : ∀ node inputs, relation node (node.staged inputs)
  quieted : ∀ node, relation node node.quieted
  shown : ∀ node signal, node.isJoint = true → relation node (node.setOutput "joint" signal)
  stepped : ∀ node, (∀ body, node.part ≠ .chip body) → relation node node.step
  enclosed : ∀ node body, node.part = .chip body → ∀ inputs circuit,
    Circuit.Related relation (body.driven inputs) circuit →
      relation node
        (node.enclosing (Chip.computeBindings body.circuit).outputs (body.around inputs circuit))

/-- Stepping a node leaves it the joint that it is or is not. -/
@[simp] theorem isJoint_plainStep (inner : Circuit → Circuit) (initial : Bool)
    (node : Node Circuit) : (node.plainStep inner initial).isJoint = node.isJoint := by
  obtain ⟨_, _, part, _, _⟩ := node
  cases part with
  | resize direction => cases direction <;> rfl
  | _ => rfl

variable {relation : Node Circuit → Node Circuit → Prop} (lasting : Lasting relation)
include lasting

/-- A lasting relation lasts over a step, if it lasts over the settling of circuits inside chips. -/
theorem Lasting.plainStep {inner : Circuit → Circuit}
    (kept : ∀ circuit, Circuit.Related relation circuit (inner circuit)) (initial : Bool)
    (node : Node Circuit) : relation node (node.plainStep inner initial) := by
  unfold Node.plainStep
  split
  · next body isChip =>
    refine lasting.enclosed node body isChip node.inputs _ ?_
    split
    · exact kept _
    · exact .refl lasting.refl _
  · next notChip => exact lasting.stepped node notChip

end Node

namespace Circuit

variable {relation : Node Circuit → Node Circuit → Prop} (lasting : Node.Lasting relation)
include lasting

/-- A lasting relation lasts over a pass that steps nodes one by one. -/
theorem related_plainPass {step : Node Circuit → Node Circuit}
    (kept : ∀ node, relation node (step node)) (joint : ∀ node, (step node).isJoint = node.isJoint)
    (circuit : Circuit) : Related relation circuit (circuit.plainPass step) := by
  refine .of_map (sameFrame_plainPass step circuit) _ (node?_plainPass step circuit)
    fun id node found => ?_
  have stepped : relation node (step (node.staged (circuit.arriving id))) :=
    lasting.trans (lasting.staged node _) (kept _)
  cases shows : circuit.jointSignal? id with
  | none => exact stepped
  | some signal =>
    obtain ⟨net, onCircuit, isOn, _⟩ := jointSignal?_eq_some_iff.mp shows
    obtain ⟨other, foundOther, isJoint⟩ := isJoint_of_mem_joints onCircuit isOn
    rw [found] at foundOther
    cases foundOther
    have stillJoint : (step (node.staged (circuit.arriving id))).isJoint = true := by
      rw [joint, Node.isJoint_staged, isJoint]
    exact lasting.trans stepped (lasting.shown _ signal stillJoint)

/-- A lasting relation lasts over any number of passes.

Proof: by induction on the passes. -/
theorem related_afterPasses {inner : Circuit → Circuit}
    (kept : ∀ circuit, Related relation circuit (inner circuit)) (circuit : Circuit)
    (passes : Nat) : Related relation circuit (circuit.afterPasses (Node.plainStep inner) passes) := by
  induction passes with
  | zero => exact .refl lasting.refl circuit
  | succ passes inductionHypothesis =>
    exact inductionHypothesis.trans lasting.trans
      (related_plainPass lasting (lasting.plainStep kept _) (Node.isJoint_plainStep inner _) _)

/-- A lasting relation lasts when a level is quieted. -/
theorem related_quieted (circuit : Circuit) : Related relation circuit circuit.quieted :=
  related_of_quieted lasting.quieted circuit

/-- A lasting relation lasts when the circuit inside a chip is settled, however deep.

Proof: by induction on the levels left; on each of them the level is quieted and passes follow. -/
theorem related_plainWithin (maxPasses levels : Nat) (circuit : Circuit) :
    Related relation circuit (plainWithin maxPasses levels circuit) := by
  induction levels generalizing circuit with
  | zero => exact .refl lasting.refl circuit
  | succ levels inductionHypothesis =>
    exact (related_quieted lasting circuit).trans lasting.trans
      (related_afterPasses lasting inductionHypothesis _ _)

end Circuit

end Breadboard
