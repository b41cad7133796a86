import Breadboard.Proofs.Engine.Depth

/-!
# What chips on the last level copy

A chip whose circuit is not evaluated any more copies all the same what the output pins in it hold. It does
so in every pass that it is stepped in, and every chip is stepped in the initial pass of its level, which is
made wherever some pass is allowed. So after a tick without a fault the outputs of such a chip are what its
output pins had received before the tick. A netlist that takes a chip for a joint could write over a port
with the name of the port of a joint, and over no other one; netlists of the circuit itself do not do so.
-/

namespace Breadboard

/-- The property holds of every node on the level. -/
def Circuit.Each (property : Node Circuit → Prop) (circuit : Circuit) : Prop :=
  ∀ id node, circuit.node? id = some node → property node

/-- The node has some signals staged in the place of its own. -/
def Node.Restaged (before after : Node Circuit) : Prop :=
  ∃ inputs, after = before.staged inputs

/-- Inside the node, so many levels deeper, every chip has at its ports what its output pins received,
as far as the ports are considered. -/
def Node.Copies (considered : String → Prop) : Nat → Node Circuit → Prop
  | 0, node => ∀ body, node.part = .chip body → (body.outputs.map PortDecl.id).Nodup →
    ∀ (place : Nat) (decl : PortDecl) (pin : NodeId), considered decl.id →
      body.outputs[place]? = some decl → body.currentBindings.outputs[place]? = some pin →
        node.outputs.get? decl.id = some (Chip.received body.circuit pin)
  | levels + 1, node => ∀ body, node.part = .chip body → body.circuit.Each (Copies considered levels)

/-- Where the port of a joint is considered, no chip is listed among the joints. -/
def Circuit.Spared (considered : String → Prop) (nets : List Net) (circuit : Circuit) : Prop :=
  considered "joint" → ∀ net ∈ nets, ∀ id ∈ net.joints, ∀ node, circuit.node? id = some node →
    node.chip? = none

namespace Node

variable {considered : String → Prop} {levels : Nat} {before after node : Node Circuit}

/-- Of signals that are staged one after the other the last ones stay. -/
theorem Restaged.trans {first second third : Node Circuit} (one : first.Restaged second)
    (two : second.Restaged third) : first.Restaged third := by
  obtain ⟨_, rfl⟩ := one
  obtain ⟨inputs, rfl⟩ := two
  exact ⟨inputs, rfl⟩

/-- What is no chip copies nothing. -/
theorem Copies.of_no_chip (none : node.chip? = none) : node.Copies considered levels := by
  have notChip (body : Chip Circuit) : node.part ≠ .chip body := by
    intro isChip
    rw [chip?_eq_some_iff.mpr isChip] at none
    cases none
  cases levels with
  | zero => exact fun body isChip => absurd isChip (notChip body)
  | succ levels => exact fun body isChip => absurd isChip (notChip body)

/-- A node that stays the chip that it is and keeps the ports that are considered goes on to copy. -/
theorem Copies.of_outputs (copies : before.Copies considered levels) (part : after.part = before.part)
    (kept : ∀ port, considered port → after.outputs.get? port = before.outputs.get? port) :
    after.Copies considered levels := by
  cases levels with
  | zero =>
    intro body isChip distinct place decl pin isConsidered isDecl isPin
    rw [kept decl.id isConsidered]
    exact copies body (part ▸ isChip) distinct place decl pin isConsidered isDecl isPin
  | succ levels => exact fun body isChip => copies body (part ▸ isChip)

/-- Staging leaves outputs. -/
theorem Copies.staged (copies : node.Copies considered levels) (inputs : PortMap) :
    (node.staged inputs).Copies considered levels :=
  copies.of_outputs rfl fun _ _ => rfl

/-- A signal that is shown on a joint writes over the port of a joint only. -/
theorem Copies.shown (copies : node.Copies considered levels)
    (spared : considered "joint" → node.chip? = none) (signal : Signal) :
    (node.setOutput "joint" signal).Copies considered levels := by
  by_cases joint : considered "joint"
  · exact .of_no_chip (spared joint)
  · refine copies.of_outputs rfl fun port isConsidered => ?_
    rw [setOutput, PortMap.get?_insert, if_neg]
    rintro rfl
    exact joint isConsidered

/-- Driving leaves chips as they are. -/
theorem Copies.redriven (copies : before.Copies considered levels) (redriven : before.Redriven after) :
    after.Copies considered levels := by
  rcases redriven with rfl | ⟨signal, rfl⟩
  · exact copies
  · cases isChip : before.chip? with
    | none => exact .of_no_chip (by rw [chip?_driveFrom, isChip])
    | some body =>
      have same : before.driveFrom signal = before := by
        obtain ⟨label, position, part, inputs, outputs⟩ := before
        cases part with
        | chip => rfl
        | _ => cases isChip
      rwa [same]

end Node

namespace Circuit

variable {circuit before after : Circuit} {property : Node Circuit → Prop}

/-- A change that keeps a property of nodes keeps it of every node on a level. -/
theorem Related.each {relation : Node Circuit → Node Circuit → Prop}
    (related : Related relation before after)
    (kept : ∀ id node changed, before.node? id = some node → relation node changed → property changed) :
    after.Each property := by
  intro id changed found
  obtain ⟨node, here, isRelated⟩ := related.origin found
  exact kept id node changed here isRelated

/-- What is not a chip on a level stays none. -/
theorem Spared.of_related {considered : String → Prop} {nets : List Net}
    (spared : before.Spared considered nets)
    (related : Related (Node.Around fun _ _ => True) before after) : after.Spared considered nets := by
  intro joint net member id isJoint changed found
  obtain ⟨node, here, around⟩ := related.origin found
  exact around.chip?_eq_none (spared joint net member id isJoint node here)

/-- What is shown on joints keeps what it keeps of the nodes that are listed as joints. -/
theorem each_showOnJoints (property : NodeId → Node Circuit → Prop) (signals : List (Net × Signal))
    (each : ∀ id node, circuit.node? id = some node → property id node)
    (kept : ∀ entry ∈ signals, ∀ id ∈ entry.1.joints, ∀ node signal, property id node →
      property id (node.setOutput "joint" signal)) :
    ∀ id node, (circuit.showOnJoints signals).node? id = some node → property id node := by
  rw [showOnJoints]
  refine List.foldlRecOn
    (motive := fun shown : Circuit => ∀ id node, shown.node? id = some node → property id node)
    signals _ each fun between eachBetween entry member => ?_
  refine List.foldlRecOn
    (motive := fun shown : Circuit => ∀ id node, shown.node? id = some node → property id node)
    entry.1.joints _ eachBetween fun within eachWithin joint isJoint => ?_
  intro id node found
  rw [node?_modifyNode] at found
  split at found
  · next same =>
    subst same
    obtain ⟨original, here, rfl⟩ := Option.map_eq_some_iff.mp found
    exact kept entry member joint isJoint original entry.2 (eachWithin joint original here)
  · exact eachWithin id node found

variable {step : Node Circuit → NetlistCache → Node Circuit × NetlistCache × Option Fault}
  {known : NetlistCache → Prop} {cache last : NetlistCache}

/-- Slots that are stepped without a fault hold stepped nodes.

Proof: by induction on the slots; what is known of the cache is so before every step. -/
theorem forall₂_of_stepSlots {slots reached : List (Option (Node Circuit))} {changed : Bool}
    (keeps : ∀ node, some node ∈ slots → ∀ cache, known cache → known (step node cache).2.1)
    (isKnown : known cache) (stepped : stepSlots step slots cache = (reached, last, .ok changed)) :
    List.Forall₂ (Option.Rel fun node after => ∃ cache last, known cache ∧
      step node cache = (after, last, none)) slots reached := by
  induction slots generalizing cache reached last changed with
  | nil =>
    cases stepped
    exact .nil
  | cons slot rest inductionHypothesis =>
    have later := fun node member => keeps node (List.mem_cons_of_mem _ member)
    cases slot with
    | none =>
      simp only [stepSlots, Prod.mk.injEq] at stepped
      obtain ⟨rfl, rfl, outcome⟩ := stepped
      exact .cons .none (inductionHypothesis later isKnown (Prod.ext rfl (Prod.ext rfl outcome)))
    | some node =>
      have knownAfter := keeps node List.mem_cons_self cache isKnown
      rcases here : step node cache with ⟨after, between, _ | fault⟩
      · rw [here] at knownAfter
        rcases behind : stepSlots step rest between with ⟨slots, final, fault | moved⟩
        · simp [stepSlots, here, behind, Except.map] at stepped
        · simp only [stepSlots, here, behind, Prod.mk.injEq] at stepped
          obtain ⟨rfl, rfl, -⟩ := stepped
          exact .cons (.some ⟨cache, between, isKnown, here⟩) (inductionHypothesis later knownAfter behind)
      · simp [stepSlots, here] at stepped

/-- A pass without a fault stages something at every node, steps it and shows what it resolved on the
joints of its netlist. -/
theorem related_of_pass {netlist : Netlist} {changed : Bool}
    (keeps : ∀ id node inputs, circuit.node? id = some node → ∀ cache, known cache →
      known (step (node.staged inputs) cache).2.1)
    (isKnown : known cache) (passed : pass step netlist circuit cache = (after, last, .ok changed)) :
    ∃ between signals, after = between.showOnJoints signals ∧
      (∀ entry ∈ signals, entry.1 ∈ netlist.nets) ∧
      Related (fun node changed => ∃ inputs cache last, known cache ∧
        step (node.staged inputs) cache = (changed, last, none)) circuit between := by
  simp only [pass] at passed
  generalize isSignals : netlist.nets.map (fun net => (net, net.resolve circuit)) = signals at passed
  have staged : Related Node.Restaged circuit (circuit.stage signals) :=
    related_of_staged (fun node => ⟨node.inputs, rfl⟩) .trans (fun _ inputs => ⟨inputs, rfl⟩) circuit signals
  have keepsSlots (node : Node Circuit) (member : some node ∈ (circuit.stage signals).nodes.slots)
      (cache : NetlistCache) : known cache → known (step node cache).2.1 := by
    obtain ⟨id, found⟩ := exists_of_mem_slots member
    obtain ⟨original, here, inputs, rfl⟩ := staged.origin found
    exact keeps id original inputs here cache
  rcases stepped : stepSlots step (circuit.stage signals).nodes.slots cache with
    ⟨reached, between, fault | moved⟩
  · rw [stepped] at passed
    simp at passed
  · rw [stepped] at passed
    simp only [Prod.mk.injEq] at passed
    obtain ⟨rfl, -⟩ := passed
    refine ⟨{ circuit.stage signals with nodes := ⟨reached⟩ }, signals, rfl, fun entry member => ?_, ?_⟩
    · rw [← isSignals] at member
      obtain ⟨net, isNet, rfl⟩ := List.mem_map.mp member
      exact isNet
    · have slots := forall₂_of_stepSlots keepsSlots isKnown stepped
      have ran : Related _ (circuit.stage signals) { circuit.stage signals with nodes := ⟨reached⟩ } :=
        related_of_slots slots rfl rfl
      refine (staged.comp ran).imp ?_
      rintro node changed ⟨_, ⟨inputs, rfl⟩, steps⟩
      exact ⟨inputs, steps⟩

end Circuit

/-- A driven circuit is settled without a fault, or left as it is in a pass that is not the initial one. -/
def InnerSettling.Yields (settleInner : InnerSettling) (initial : Bool) (driven : Circuit)
    (cache : NetlistCache) (circuit : Circuit) (last : NetlistCache) : Prop :=
  (∃ report, settleInner driven cache = (circuit, last, .ok report)) ∨ initial = false ∧ circuit = driven

/-- A chip that is stepped without a fault copies from what comes of its driven circuit. -/
theorem Node.enclosing_of_stepIn {settleInner : InnerSettling} {initial : Bool} {node stepped : Node Circuit}
    {body : Chip Circuit} {cache last : NetlistCache} (isChip : node.part = .chip body)
    (ran : node.stepIn settleInner initial cache = (stepped, last, none)) :
    ∃ circuit, stepped = node.enclosing body.currentBindings.outputs (body.holding node.inputs circuit) ∧
      settleInner.Yields initial (body.drivenAsBound node.inputs) cache circuit last := by
  simp only [stepIn, isChip, Chip.step_eq_holding] at ran
  by_cases due : body.isDue initial node.inputs = true
  · rw [if_pos due] at ran
    rcases settled : settleInner (body.drivenAsBound node.inputs) cache with ⟨reached, after, _ | report⟩
    · simp [settled] at ran
    · simp only [settled, Prod.mk.injEq] at ran
      obtain ⟨rfl, rfl, -⟩ := ran
      exact ⟨reached, rfl, .inl ⟨report, settled⟩⟩
  · rw [if_neg due] at ran
    simp only [Prod.mk.injEq] at ran
    obtain ⟨rfl, -⟩ := ran
    have later : initial = false := by
      simp only [Chip.isDue, Bool.or_eq_true, not_or, Bool.not_eq_true] at due
      exact due.2
    exact ⟨_, rfl, .inr ⟨later, rfl⟩⟩

/-- A step that ends without a fault leaves a node that copies so many levels deeper, if it is one of the
initial pass or the node did so before. -/
def InnerSettling.Copying (considered : String → Prop) (sound : Circuit → Prop)
    (known : NetlistCache → Prop) (levels : Nat) (settleInner : InnerSettling) : Prop :=
  ∀ (initial : Bool) (node stepped : Node Circuit) (cache last : NetlistCache),
    node.Sound sound → known cache → node.stepIn settleInner initial cache = (stepped, last, none) →
      initial = true ∨ node.Copies considered levels → stepped.Copies considered levels

/-- It is enough that chips copy, since what is no chip is stepped to none. -/
theorem InnerSettling.Copying.of_chips {considered : String → Prop} {sound : Circuit → Prop}
    {known : NetlistCache → Prop} {levels : Nat} {settleInner : InnerSettling}
    (chips : ∀ (initial : Bool) (node : Node Circuit) (body : Chip Circuit) (circuit : Circuit)
      (cache last : NetlistCache), node.part = .chip body → sound body.circuit → known cache →
        settleInner.Yields initial (body.drivenAsBound node.inputs) cache circuit last →
          initial = true ∨ node.Copies considered levels →
            (node.enclosing body.currentBindings.outputs
              (body.holding node.inputs circuit)).Copies considered levels) :
    settleInner.Copying considered sound known levels := by
  intro initial node stepped cache last holds isKnown ran before
  cases isBody : node.chip? with
  | none =>
    have around := node.around_stepIn_any settleInner initial cache
    rw [ran] at around
    exact .of_no_chip (around.chip?_eq_none isBody)
  | some body =>
    have isChip := Node.chip?_eq_some_iff.mp isBody
    obtain ⟨circuit, rfl, outcome⟩ := Node.enclosing_of_stepIn isChip ran
    exact chips initial node body circuit cache last isChip (holds body isChip) isKnown outcome before

namespace PassInvariant

variable {relation : Node Circuit → Node Circuit → Prop} {sound : Circuit → Prop}
  {known : NetlistCache → Prop} {considered : String → Prop} {levels : Nat} {settleInner : InnerSettling}
  {circuit after : Circuit} {cache last : NetlistCache}

section Level

variable (invariant : PassInvariant relation sound sound known)
  (inner : settleInner.Abide relation sound known settleInner)
  (copying : settleInner.Copying considered sound known levels)
include invariant inner copying

/-- After a pass without a fault every node copies, if it is the initial one or all nodes did so before. -/
theorem copies_pass {initial changed : Bool} {netlist : Netlist} (holds : sound circuit)
    (isKnown : known cache) (spared : circuit.Spared considered netlist.nets)
    (passed : Circuit.pass (Node.stepIn settleInner initial) netlist circuit cache =
      (after, last, .ok changed))
    (before : initial = true ∨ circuit.Each (Node.Copies considered levels)) :
    after.Each (Node.Copies considered levels) ∧ after.Spared considered netlist.nets := by
  have holdsInside {id : NodeId} {node : Node Circuit} (found : circuit.node? id = some node)
      (inputs : PortMap) : (node.staged inputs).Sound sound :=
    fun body isChip => invariant.inner holds found isChip
  have keeps (id : NodeId) (node : Node Circuit) (inputs : PortMap) (found : circuit.node? id = some node)
      (kept : NetlistCache) (isKnown : known kept) :
      known ((node.staged inputs).stepIn settleInner initial kept).2.1 :=
    (invariant.stepIn inner initial (holdsInside found inputs) isKnown).2.2
  obtain ⟨between, signals, rfl, fromNets, steps⟩ := Circuit.related_of_pass keeps isKnown passed
  have sparedBetween : between.Spared considered netlist.nets := by
    refine spared.of_related (steps.imp ?_)
    rintro node changed ⟨inputs, kept, final, -, ran⟩
    have around := (node.staged inputs).around_stepIn_any settleInner initial kept
    rw [ran] at around
    exact around
  have copiesBetween : between.Each (Node.Copies considered levels) := by
    refine steps.each ?_
    rintro id node changed found ⟨inputs, kept, final, isKnown, ran⟩
    exact copying initial _ changed kept final (holdsInside found inputs) isKnown ran
      (before.imp_right fun copied => (copied id node found).staged inputs)
  -- A node may be listed several times, so that it is no chip is kept along with what it copies.
  have shown := Circuit.each_showOnJoints
    (fun id node => node.Copies considered levels ∧
      (considered "joint" → ∀ net ∈ netlist.nets, id ∈ net.joints → node.chip? = none)) signals
    (fun id node found => ⟨copiesBetween id node found,
      fun joint net member isJoint => sparedBetween joint net member id isJoint node found⟩)
    fun entry member id isJoint node signal copies =>
      ⟨copies.1.shown (fun joint => copies.2 joint _ (fromNets entry member) isJoint) signal, copies.2⟩
  exact ⟨fun id node found => (shown id node found).1,
    fun joint net member id isJoint node found => (shown id node found).2 joint net member isJoint⟩

/-- After passes without a fault every node copies, if some pass is made or all nodes did so before.

Proof: by induction on the passes left. -/
theorem copies_passes {netlist : Netlist} {left : Nat} {report final : Settling} (holds : sound circuit)
    (isKnown : known cache) (spared : circuit.Spared considered netlist.nets)
    (before : report.passes = 0 ∧ 0 < left ∨ circuit.Each (Node.Copies considered levels))
    (passed : Circuit.passes (fun initial => Circuit.pass (Node.stepIn settleInner initial) netlist) left
      report circuit cache = (after, last, .ok final)) :
    after.Each (Node.Copies considered levels) := by
  induction left generalizing report circuit cache with
  | zero =>
    cases passed
    exact before.resolve_left fun noneLeft => Nat.lt_irrefl 0 noneLeft.2
  | succ left inductionHypothesis =>
    rcases ran : Circuit.pass (Node.stepIn settleInner (report.passes == 0)) netlist circuit cache with
      ⟨reached, between, fault | changed⟩
    · simp [Circuit.passes, ran] at passed
    · have beforePass : (report.passes == 0) = true ∨ circuit.Each (Node.Copies considered levels) :=
        before.imp_left fun initial => beq_iff_eq.mpr initial.1
      obtain ⟨copied, sparedReached⟩ :=
        invariant.copies_pass inner copying holds isKnown spared ran beforePass
      obtain ⟨-, related, knownAfter⟩ := invariant.pass
        (fun node holds cache isKnown => invariant.stepIn inner (report.passes == 0) holds isKnown)
        (Eq.refl netlist.nets) holds isKnown
      rw [ran] at related knownAfter
      simp only [Circuit.passes, ran] at passed
      split at passed
      · cases passed
        exact copied
      · exact inductionHypothesis (invariant.lasts related holds) knownAfter sparedReached (.inr copied)
          passed

variable (spares : ∀ circuit cache, sound circuit → known cache →
  circuit.Spared considered (cache.getOrBuild circuit).1.nets)
include spares

/-- After a level was settled without a fault every node copies, if some pass is allowed. -/
theorem copies_settle {maxPasses : Nat} {report : Settling} (holds : sound circuit) (isKnown : known cache)
    (somePass : 1 ≤ maxPasses)
    (settled : circuit.settle settleInner maxPasses cache = (after, last, .ok report)) :
    after.Each (Node.Copies considered levels) :=
  invariant.copies_passes inner copying holds (invariant.asked holds isKnown)
    (spares circuit cache holds isKnown) (.inl ⟨rfl, somePass⟩) settled

end Level

section Levels

variable (invariant : PassInvariant relation sound sound known)
  (spares : ∀ circuit cache, sound circuit → known cache →
    circuit.Spared considered (cache.getOrBuild circuit).1.nets)
include invariant spares

/-- However many levels are left, steps have the chips on the last one copy.

Proof: by induction on the levels. On the last one every step copies, whether its circuit is due or not. On
any other one the circuit is due in the initial pass at least, and is settled then; where it is not, it is
driven only, and the chips in it are what they were. -/
theorem copying_settleWithin {maxPasses : Nat} (somePass : 1 ≤ maxPasses)
    (below : Except Fault Settling) (levels : Nat) :
    (Circuit.settleWithin maxPasses below levels).Copying considered sound known levels := by
  induction levels with
  | zero =>
    refine .of_chips fun initial node body circuit cache last _ _ _ outcome _ => ?_
    have isDriven : circuit = body.drivenAsBound node.inputs := by
      rcases outcome with ⟨report, settled⟩ | ⟨_, isDriven⟩
      · exact (congrArg Prod.fst settled).symm
      · exact isDriven
    subst isDriven
    intro reached isReached distinct place decl pin _ isDecl isPin
    obtain rfl := Part.chip.inj isReached
    rw [(body.onlyDriven_holding node.inputs).bindings] at isPin
    exact Chip.get?_copyOutputs_of_nodup _ distinct isDecl isPin node.outputs
  | succ levels inductionHypothesis =>
    refine .of_chips fun initial node body circuit cache last isChip holds isKnown outcome before => ?_
    intro reached isReached
    obtain rfl := Part.chip.inj isReached
    rcases outcome with ⟨report, settled⟩ | ⟨later, rfl⟩
    · have holdsQuieted := invariant.lasts (invariant.related_quieted _)
        (invariant.driven body node.inputs holds)
      exact invariant.copies_settle (invariant.settleWithin maxPasses below levels) inductionHypothesis
        spares holdsQuieted isKnown somePass settled
    · have copied := before.resolve_left (by simp [later])
      exact (body.onlyDriven_holding node.inputs).circuit.each fun id inner _ found redriven =>
        (copied body isChip id inner found).redriven redriven

end Levels

end PassInvariant

namespace Circuit

variable {circuit before after : Circuit} {limits : Limits} {cache last : NetlistCache} {report : Settling}

/-- After a tick without a fault the chips on the last level that is evaluated copy. -/
theorem copies_evaluate {relation : Node Circuit → Node Circuit → Prop} {sound : Circuit → Prop}
    {known : NetlistCache → Prop} {considered : String → Prop}
    (invariant : Invariant relation sound sound known)
    (spares : ∀ circuit cache, sound circuit → known cache →
      circuit.Spared considered (cache.getOrBuild circuit).1.nets)
    (somePass : 1 ≤ limits.maxPasses) (holds : sound circuit) (isKnown : known cache)
    (evaluated : circuit.evaluate limits .top cache = (after, last, .ok report)) :
    after.Each (Node.Copies considered limits.maxDepth) := by
  have begins : (circuit.started limits .top).2 = none :=
    faultless_of_evaluate (Nat.zero_le _) (congrArg (·.2.2) evaluated)
  rw [evaluate_of_begun cache begins] at evaluated
  have holdsBegun := invariant.lasts (invariant.related_beginTick limits.interval circuit) holds
  exact invariant.toPassInvariant.copies_settle
    (invariant.settleWithin limits.maxPasses (.ok .tooDeep) limits.maxDepth)
    (invariant.copying_settleWithin spares somePass (.ok .tooDeep) limits.maxDepth) spares holdsBegun
    isKnown somePass evaluated

/-- Where all nodes on a level copy so many levels deeper, a chip on that level does.

Proof: by induction on the levels. -/
theorem Each.copies {considered : String → Prop} {levels : Nat}
    (each : circuit.Each (Node.Copies considered levels)) {path : List NodeId} (last : path.length = levels)
    {id : NodeId} {node : Node Circuit} {body : Chip Circuit} (has : circuit.HasChip path id node body) :
    node.Copies considered 0 := by
  induction levels generalizing circuit path with
  | zero =>
    obtain rfl := List.length_eq_zero_iff.mp last
    obtain ⟨level, leads, found, -⟩ := has
    rw [inside?, Option.some.injEq] at leads
    exact each id node (leads ▸ found)
  | succ levels inductionHypothesis =>
    obtain ⟨first, path, rfl⟩ := List.exists_cons_of_length_eq_add_one last
    obtain ⟨outer, around, found, isAround, deeper⟩ := hasChip_cons_iff.mp has
    exact inductionHypothesis (each first outer found around isAround) (Nat.succ.inj last) deeper

end Circuit

end Breadboard
