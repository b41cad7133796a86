import Breadboard.Proofs.Engine.Beginning

/-!
# Invariants of an evaluation

What an evaluation keeps is stated once, for any relation between a node before and after, any fact
about circuits and any fact about caches that its single changes keep. Nothing is assumed of kept
netlists and kept pins, and a fault is no exception: what was reached before it is kept too.

In passing, two evaluations are compared. Where they do the same with every circuit and every cache of
which the facts hold, they do the same.
-/

namespace Breadboard

namespace Chip

/-- The circuit of the chip with the pins driven that the chip goes by. -/
def drivenAsBound (chip : Chip Circuit) (inputs : PortMap) : Circuit :=
  chip.drivePins inputs chip.currentBindings.inputs

/-- The chip around a circuit, with the inputs that it was last settled for and the pins that it goes
by. -/
def holding (chip : Chip Circuit) (inputs : PortMap) (circuit : Circuit) : Chip Circuit :=
  { chip.bind with lastInputs := chip.seen inputs, circuit }

/-- The circuit of the chip is to be settled in a pass, and not only driven. -/
def isDue (initial : Bool) (chip : Chip Circuit) (inputs : PortMap) : Bool :=
  chip.currentBindings.clocked || chip.seen inputs != chip.lastInputs || initial

/-- A chip is stepped around its driven circuit, which is settled if it is due. -/
theorem step_eq_holding (settleInner : InnerSettling) (initial : Bool) (chip : Chip Circuit)
    (inputs outputs : PortMap) (cache : NetlistCache) :
    chip.step settleInner initial inputs outputs cache =
      if chip.isDue initial inputs then
        match settleInner (chip.drivenAsBound inputs) cache with
        | (circuit, cache, .ok _) =>
          (chip.holding inputs circuit, (chip.holding inputs circuit).copyOutputs
            chip.currentBindings.outputs outputs, cache, none)
        | (circuit, cache, .error fault) => (chip.holding inputs circuit, outputs, cache, some fault)
      else
        (chip.holding inputs (chip.drivenAsBound inputs),
          (chip.holding inputs (chip.drivenAsBound inputs)).copyOutputs
            chip.currentBindings.outputs outputs, cache, none) := by
  cases settled : settleInner (chip.drivenAsBound inputs) cache with
  | mk reached rest =>
    obtain ⟨reachedCache, outcome⟩ := rest
    rw [drivenAsBound] at settled
    cases outcome <;> (simp only [step, bind, settled]; rfl)

end Chip

/-- A relation of nodes, a fact about the circuit of a level, one about the circuits inside its chips
and one about caches that a pass over the level keeps wherever the steps of its nodes do. -/
structure LevelInvariant (relation : Node Circuit → Node Circuit → Prop)
    (sound inside : Circuit → Prop) (known : NetlistCache → Prop) : Prop where
  refl : ∀ node, relation node node
  trans : ∀ {first second third}, relation first second → relation second third →
    relation first third
  staged : ∀ node inputs, relation node (node.staged inputs)
  quieted : ∀ node, relation node node.quieted
  shown : ∀ node signal, relation node (node.setOutput "joint" signal)
  lasts : ∀ {before after}, Circuit.Related relation before after → sound before → sound after
  inner : ∀ {circuit}, sound circuit → ∀ {id node body}, circuit.node? id = some node →
    node.part = .chip body → inside body.circuit
  asked : ∀ {circuit cache}, sound circuit → known cache → known (cache.getOrBuild circuit).2

/-- What a level keeps and every single change keeps as well which the passes of an evaluation make of
a node and of the circuits inside it. -/
structure PassInvariant (relation : Node Circuit → Node Circuit → Prop)
    (sound inside : Circuit → Prop) (known : NetlistCache → Prop) : Prop
    extends LevelInvariant relation sound inside known where
  stepped : ∀ node, (∀ body, node.part ≠ .chip body) → relation node node.step
  /-- A chip whose circuit was driven, perhaps settled, and copied to its outputs. -/
  enclosed : ∀ node body, node.part = .chip body → ∀ inputs circuit,
    Circuit.Related relation (body.drivenAsBound inputs) circuit →
      relation node (node.enclosing body.currentBindings.outputs (body.holding inputs circuit))
  /-- A chip whose circuit a fault arose in. -/
  abandoned : ∀ node body, node.part = .chip body → ∀ inputs circuit,
    Circuit.Related relation (body.drivenAsBound inputs) circuit →
      relation node { node with part := .chip (body.holding inputs circuit) }
  driven : ∀ (body : Chip Circuit) inputs, inside body.circuit → inside (body.drivenAsBound inputs)

/-- What the passes of an evaluation keep and the beginning of a tick keeps as well. -/
structure Invariant (relation : Node Circuit → Node Circuit → Prop) (sound inside : Circuit → Prop)
    (known : NetlistCache → Prop) : Prop extends PassInvariant relation sound inside known where
  begun : ∀ interval node, relation node (node.begun interval)

/-- Two outcomes are the same one, which is related to what was before and leaves a cache of which the
fact holds. -/
def Abides {α β : Type} (relation : α → α → Prop) (known : NetlistCache → Prop) (before : α)
    (outcome other : α × NetlistCache × β) : Prop :=
  other = outcome ∧ relation before outcome.1 ∧ known outcome.2.1

/-- The circuits inside the node are sound. -/
def Node.Sound (sound : Circuit → Prop) (node : Node Circuit) : Prop :=
  ∀ body, node.part = .chip body → sound body.circuit

/-- Two ways to settle the circuits inside chips do the same with sound ones, and keep what is to be
kept. -/
def InnerSettling.Abide (relation : Node Circuit → Node Circuit → Prop) (sound : Circuit → Prop)
    (known : NetlistCache → Prop) (settleInner other : InnerSettling) : Prop :=
  ∀ circuit cache, sound circuit → known cache →
    Abides (Circuit.Related relation) known circuit (settleInner circuit cache) (other circuit cache)

namespace Circuit

variable {relation : Node Circuit → Node Circuit → Prop}

/-- Circuits whose slots hold related nodes are related. -/
theorem related_of_slots {before after : Circuit}
    (slots : List.Forall₂ (Option.Rel relation) before.nodes.slots after.nodes.slots)
    (wires : after.wires = before.wires) (revision : after.revision = before.revision) :
    Related relation before after := by
  exact ⟨⟨wires, revision, slots.length_eq.symm⟩, Arena.rel_join_of_slots slots⟩

/-- A node that stands in a slot has a handle. -/
theorem exists_of_mem_slots {circuit : Circuit} {node : Node Circuit}
    (member : some node ∈ circuit.nodes.slots) : ∃ id, circuit.node? id = some node := by
  obtain ⟨id, here⟩ := List.mem_iff_getElem?.mp member
  refine ⟨id, ?_⟩
  rw [node?, Arena.get?, here]
  rfl

/-- Staging relates circuits if it relates nodes, whatever is staged. -/
theorem related_of_staged (reflexive : ∀ node, relation node node)
    (transitive : ∀ {first second third}, relation first second → relation second third →
      relation first third)
    (kept : ∀ node inputs, relation node (node.staged inputs)) (circuit : Circuit)
    (signals : List (Net × Signal)) : Related relation circuit (circuit.stage signals) := by
  have cleared : Related relation circuit { circuit with
      nodes := circuit.nodes.map fun node => { node with inputs := .empty } } :=
    .of_map ⟨rfl, rfl, by simp [Arena.map]⟩ (fun _ node => node.staged .empty)
      (fun _ => Arena.get?_map ..) fun _ node _ => kept node _
  refine cleared.trans transitive ?_
  refine related_foldl reflexive transitive _ (fun between entry => ?_) _ _
  refine related_foldl reflexive transitive _ (fun within sink => ?_) _ _
  exact related_modifyNode reflexive _ _ _ fun node _ => kept node _

/-- The beginning of a tick relates circuits if it relates nodes, even if a fault ends it.

Proof: by induction on the slots. -/
theorem related_of_begun (reflexive : ∀ node, relation node node) {interval : Nat}
    (kept : ∀ node, relation node (node.begun interval)) (circuit : Circuit) :
    Related relation circuit (circuit.beginTick interval).1 := by
  refine related_of_slots ?_ rfl rfl
  change List.Forall₂ _ circuit.nodes.slots (beginSlots interval circuit.nodes.slots).1
  induction circuit.nodes.slots with
  | nil => exact .nil
  | cons slot rest inductionHypothesis =>
    cases slot with
    | none => exact .cons .none inductionHypothesis
    | some node =>
      have begun := kept node
      rw [Node.begun] at begun
      simp only [beginSlots]
      cases begins : node.beginTick interval with
      | ok begunNode =>
        rw [begins] at begun
        exact .cons (.some begun) inductionHypothesis
      | error fault =>
        rw [begins] at begun
        refine .cons (.some begun) (List.forall₂_same.mpr fun later _ => ?_)
        cases later with
        | none => exact .none
        | some node => exact .some (reflexive node)

/-- A tick relates circuits if its beginning does and the settling of the level that has begun. -/
theorem related_evaluate_of_begun {limits : Limits} {circuit : Circuit} {cache : NetlistCache}
    (begun : Related relation circuit (circuit.beginTick limits.interval).1)
    (transitive : ∀ {first second third}, relation first second → relation second third →
      relation first third)
    (settled : Related relation (circuit.beginTick limits.interval).1
      ((circuit.beginTick limits.interval).1.settle
        (settleWithin limits.maxPasses (.ok .tooDeep) limits.maxDepth) limits.maxPasses cache).1) :
    Related relation circuit (circuit.evaluate limits .top cache).1 := by
  cases faults : (circuit.beginTick limits.interval).2 with
  | some fault =>
    rw [evaluate_of_fault cache faults]
    exact begun
  | none =>
    rw [evaluate_of_begun cache faults]
    exact begun.trans transitive settled

end Circuit

variable {relation : Node Circuit → Node Circuit → Prop} {sound inside : Circuit → Prop}
  {known : NetlistCache → Prop}

namespace LevelInvariant

variable (invariant : LevelInvariant relation sound inside known)
include invariant

/-- Staging relates circuits, whatever is staged. -/
theorem related_stage (circuit : Circuit) (signals : List (Net × Signal)) :
    Circuit.Related relation circuit (circuit.stage signals) :=
  Circuit.related_of_staged invariant.refl invariant.trans invariant.staged circuit signals

/-- Showing signals on joints relates circuits, whatever is shown and where. -/
theorem related_showOnJoints (circuit : Circuit) (signals : List (Net × Signal)) :
    Circuit.Related relation circuit (circuit.showOnJoints signals) := by
  refine Circuit.related_foldl invariant.refl invariant.trans _ (fun between entry => ?_) _ _
  refine Circuit.related_foldl invariant.refl invariant.trans _ (fun within joint => ?_) _ _
  exact Circuit.related_modifyNode invariant.refl _ _ _ fun node _ => invariant.shown node _

/-- Quieting a level relates circuits. -/
theorem related_quieted (circuit : Circuit) : Circuit.Related relation circuit circuit.quieted :=
  Circuit.related_of_quieted invariant.quieted circuit

/-- The circuits inside the nodes of a sound circuit are sound. -/
theorem sound_node {circuit : Circuit} (holds : sound circuit) {node : Node Circuit}
    (member : some node ∈ circuit.nodes.slots) : node.Sound inside := by
  obtain ⟨_, found⟩ := Circuit.exists_of_mem_slots member
  exact fun body isChip => invariant.inner holds found isChip

/-- Nodes in slots that are stepped alike one by one are stepped alike in turn. -/
theorem stepSlots {step otherStep : Node Circuit → NetlistCache → Node Circuit × NetlistCache × Option Fault}
    (slots : List (Option (Node Circuit)))
    (each : ∀ node, some node ∈ slots → ∀ cache, known cache →
      Abides relation known node (step node cache) (otherStep node cache))
    {cache : NetlistCache} (isKnown : known cache) :
    Abides (List.Forall₂ (Option.Rel relation)) known slots (Circuit.stepSlots step slots cache)
      (Circuit.stepSlots otherStep slots cache) := by
  induction slots generalizing cache with
  | nil => exact ⟨rfl, .nil, isKnown⟩
  | cons slot rest inductionHypothesis =>
    have later := fun node member => each node (List.mem_cons_of_mem _ member)
    cases slot with
    | none =>
      obtain ⟨same, related, knownAfter⟩ := inductionHypothesis later isKnown
      simp only [Circuit.stepSlots, same]
      exact ⟨rfl, .cons .none related, knownAfter⟩
    | some node =>
      obtain ⟨sameHead, relatedHead, knownHead⟩ := each node List.mem_cons_self cache isKnown
      simp only [Circuit.stepSlots, sameHead]
      revert relatedHead knownHead
      rcases step node cache with ⟨stepped, after, _ | fault⟩
      · intro relatedHead knownHead
        obtain ⟨same, related, knownAfter⟩ := inductionHypothesis later knownHead
        simp only [same]
        exact ⟨rfl, .cons (.some relatedHead) related, knownAfter⟩
      · intro relatedHead knownHead
        refine ⟨rfl, .cons (.some relatedHead) (List.forall₂_same.mpr fun left _ => ?_), knownHead⟩
        cases left with
        | none => exact .none
        | some node => exact .some (invariant.refl node)

/-- A pass over a sound level is made alike if nodes are stepped alike and the netlists have the same
nets. -/
theorem pass {step otherStep : Node Circuit → NetlistCache → Node Circuit × NetlistCache × Option Fault}
    (each : ∀ node, node.Sound inside → ∀ cache, known cache →
      Abides relation known node (step node cache) (otherStep node cache))
    {netlist otherNetlist : Netlist} (nets : otherNetlist.nets = netlist.nets) {circuit : Circuit}
    (holds : sound circuit) {cache : NetlistCache} (isKnown : known cache) :
    Abides (Circuit.Related relation) known circuit (Circuit.pass step netlist circuit cache)
      (Circuit.pass otherStep otherNetlist circuit cache) := by
  simp only [Circuit.pass, nets]
  generalize netlist.nets.map (fun net => (net, net.resolve circuit)) = signals
  have staged := invariant.related_stage circuit signals
  have slots := invariant.stepSlots (circuit.stage signals).nodes.slots
    (fun node member => each node (invariant.sound_node (invariant.lasts staged holds) member)) isKnown
  obtain ⟨same, related, knownAfter⟩ := slots
  simp only [same]
  revert related knownAfter
  rcases Circuit.stepSlots step (circuit.stage signals).nodes.slots cache with
    ⟨reached, after, fault | changed⟩
  all_goals
    intro related knownAfter
    have stepped : Circuit.Related relation circuit { circuit.stage signals with nodes := ⟨reached⟩ } :=
      staged.trans invariant.trans (Circuit.related_of_slots related rfl rfl)
  · exact ⟨rfl, stepped, knownAfter⟩
  · exact ⟨rfl, stepped.trans invariant.trans (invariant.related_showOnJoints _ _), knownAfter⟩

/-- Passes over a sound level go alike if every pass does.

Proof: by induction on the passes left; every pass leaves a sound level. -/
theorem passes {pass otherPass : Bool → Circuit → NetlistCache →
      Circuit × NetlistCache × Except Fault Bool}
    (each : ∀ initial circuit cache, sound circuit → known cache →
      Abides (Circuit.Related relation) known circuit (pass initial circuit cache)
        (otherPass initial circuit cache))
    (left : Nat) (report : Settling) {circuit : Circuit} (holds : sound circuit)
    {cache : NetlistCache} (isKnown : known cache) :
    Abides (Circuit.Related relation) known circuit (Circuit.passes pass left report circuit cache)
      (Circuit.passes otherPass left report circuit cache) := by
  induction left generalizing report circuit cache with
  | zero => exact ⟨rfl, .refl invariant.refl circuit, isKnown⟩
  | succ left inductionHypothesis =>
    obtain ⟨same, related, knownAfter⟩ := each (report.passes == 0) circuit cache holds isKnown
    simp only [Circuit.passes, same]
    revert related knownAfter
    rcases pass (report.passes == 0) circuit cache with ⟨reached, after, fault | changed⟩
    · exact fun related knownAfter => ⟨rfl, related, knownAfter⟩
    · intro related knownAfter
      simp only
      split
      · exact ⟨rfl, related, knownAfter⟩
      · obtain ⟨sameRest, relatedRest, knownRest⟩ :=
          inductionHypothesis _ (invariant.lasts related holds) knownAfter
        exact ⟨sameRest, related.trans invariant.trans relatedRest, knownRest⟩

end LevelInvariant

namespace PassInvariant

section Level

variable (invariant : PassInvariant relation sound inside known)
include invariant

variable {settleInner other : InnerSettling}
  (inner : settleInner.Abide relation inside known other)

include inner in
/-- A sound node is stepped alike both ways, and what is to be kept is kept. -/
theorem stepIn (initial : Bool) {node : Node Circuit} (holds : node.Sound inside)
    {cache : NetlistCache} (isKnown : known cache) :
    Abides relation known node (node.stepIn settleInner initial cache)
      (node.stepIn other initial cache) := by
  cases part : node.part with
  | chip body =>
    obtain ⟨same, related, knownAfter⟩ :=
      inner (body.drivenAsBound node.inputs) cache (invariant.driven body _ (holds body part)) isKnown
    have enclosed := invariant.enclosed node body part node.inputs
    have abandoned := invariant.abandoned node body part node.inputs
    simp only [Node.stepIn, part, Chip.step_eq_holding, same]
    by_cases due : body.isDue initial node.inputs = true
    · simp only [if_pos due]
      revert related knownAfter
      rcases settleInner (body.drivenAsBound node.inputs) cache with ⟨reached, after, _ | _⟩
      · exact fun related knownAfter => ⟨rfl, abandoned reached related, knownAfter⟩
      · exact fun related knownAfter => ⟨rfl, enclosed reached related, knownAfter⟩
    · simp only [if_neg due]
      exact ⟨rfl, enclosed _ (.refl invariant.refl _), isKnown⟩
  | _ =>
    have stepped := invariant.stepped node (by simp [part])
    simp only [Node.stepIn, part]
    exact ⟨rfl, stepped, isKnown⟩

include inner in
/-- Passes over a sound level go alike with netlists of the same nets. -/
theorem passesOver {netlist otherNetlist : Netlist} (nets : otherNetlist.nets = netlist.nets)
    (maxPasses : Nat) {circuit : Circuit} (holds : sound circuit) {cache : NetlistCache}
    (isKnown : known cache) :
    Abides (Circuit.Related relation) known circuit
      (Circuit.passes (fun initial => Circuit.pass (Node.stepIn settleInner initial) netlist) maxPasses
        .idle circuit cache)
      (Circuit.passes (fun initial => Circuit.pass (Node.stepIn other initial) otherNetlist) maxPasses
        .idle circuit cache) :=
  invariant.passes
    (fun initial _ _ holds isKnown => invariant.pass
      (fun _ sound _ known => invariant.stepIn inner initial sound known) nets holds isKnown)
    maxPasses .idle holds isKnown

end Level

variable (invariant : PassInvariant relation sound sound known)
include invariant

/-- What is to be kept is kept when the circuit inside a chip is settled, however deep.

Proof: by induction on the levels left. -/
theorem settleWithin (maxPasses : Nat) (below : Except Fault Settling) (levels : Nat) :
    (Circuit.settleWithin maxPasses below levels).Abide relation sound known
      (Circuit.settleWithin maxPasses below levels) := by
  induction levels with
  | zero => exact fun circuit cache _ isKnown => ⟨rfl, .refl invariant.refl circuit, isKnown⟩
  | succ levels inductionHypothesis =>
    intro circuit cache holds isKnown
    have quieted := invariant.related_quieted circuit
    have holdsQuieted := invariant.lasts quieted holds
    obtain ⟨_, related, knownAfter⟩ := invariant.passesOver inductionHypothesis
      (Eq.refl (cache.getOrBuild circuit.quieted).1.nets) maxPasses holdsQuieted
      (invariant.asked holdsQuieted isKnown)
    exact ⟨rfl, quieted.trans invariant.trans related, knownAfter⟩

/-- What is to be kept is kept when a level is settled whose tick has begun. -/
theorem settle (maxPasses levels : Nat) (below : Except Fault Settling) {circuit : Circuit}
    (holds : sound circuit) {cache : NetlistCache} (isKnown : known cache) :
    Circuit.Related relation circuit
        (circuit.settle (Circuit.settleWithin maxPasses below levels) maxPasses cache).1 ∧
      known (circuit.settle (Circuit.settleWithin maxPasses below levels) maxPasses cache).2.1 :=
  (invariant.passesOver (invariant.settleWithin maxPasses below levels)
    (Eq.refl (cache.getOrBuild circuit).1.nets) maxPasses holds (invariant.asked holds isKnown)).2

omit invariant in
/-- What the passes keep of any circuit with any cache is kept by a tick, wherever it ends, as far as its
beginning keeps it too. -/
theorem evaluate_top {weak : Node Circuit → Node Circuit → Prop}
    (invariant : PassInvariant relation (fun _ => True) (fun _ => True) fun _ => True)
    (weaken : ∀ node changed, relation node changed → weak node changed)
    (transitive : ∀ {first second third}, weak first second → weak second third → weak first third)
    (begins : ∀ interval node, weak node (node.begun interval)) (limits : Limits) (circuit : Circuit)
    (cache : NetlistCache) : Circuit.Related weak circuit (circuit.evaluate limits .top cache).1 := by
  have begun : Circuit.Related weak circuit (circuit.beginTick limits.interval).1 :=
    Circuit.related_of_begun (fun node => weaken node node (invariant.refl node))
      (begins limits.interval) circuit
  refine Circuit.related_evaluate_of_begun begun transitive ?_
  obtain ⟨settled, _⟩ := invariant.settle limits.maxPasses limits.maxDepth (.ok .tooDeep) trivial trivial
  exact settled.imp weaken

end PassInvariant

namespace Invariant

section Beginning

variable (invariant : Invariant relation sound inside known)
include invariant

/-- The beginning of a tick relates circuits, even if a fault ends it. -/
theorem related_beginTick (interval : Nat) (circuit : Circuit) :
    Circuit.Related relation circuit (circuit.beginTick interval).1 :=
  Circuit.related_of_begun invariant.refl (invariant.begun interval) circuit

/-- What comes before the passes of an evaluation relates circuits, whether oscillators advance or not.
-/
theorem related_started (limits : Limits) (context : EvalContext) (circuit : Circuit) :
    Circuit.Related relation circuit (circuit.started limits context).1 := by
  unfold Circuit.started
  split
  · exact invariant.related_beginTick limits.interval circuit
  · exact invariant.related_quieted circuit

end Beginning

variable (invariant : Invariant relation sound sound known)
include invariant

/-- An evaluation keeps what is to be kept, even if a fault ends it. -/
theorem evaluate (limits : Limits) (context : EvalContext) {circuit : Circuit} (holds : sound circuit)
    {cache : NetlistCache} (isKnown : known cache) :
    Circuit.Related relation circuit (circuit.evaluate limits context cache).1 ∧
      known (circuit.evaluate limits context cache).2.1 := by
  rcases Nat.lt_or_ge limits.maxDepth context.depth with deep | inDepth
  · rw [Circuit.evaluate_of_deep deep]
    exact ⟨.refl invariant.refl circuit, isKnown⟩
  · have started := invariant.related_started limits context circuit
    rw [Circuit.evaluate_eq inDepth]
    revert started
    rcases circuit.started limits context with ⟨begun, _ | fault⟩
    · intro started
      obtain ⟨related, knownAfter⟩ := invariant.settle limits.maxPasses _ (context.below limits)
        (invariant.lasts started holds) isKnown
      exact ⟨started.trans invariant.trans related, knownAfter⟩
    · intro started
      exact ⟨started, isKnown⟩

end Invariant

end Breadboard
