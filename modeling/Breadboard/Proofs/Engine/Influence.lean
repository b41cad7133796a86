import Breadboard.Proofs.Engine.Mirroring

/-!
# Nothing flows into a set of nodes that is closed under fan-in

A set of nodes is closed under fan-in if whatever drives a net that leads to one of its nodes belongs to
the set. Take two circuits without chips that are wired alike, agree on such a set, and differ in the
states and signals of all other nodes. In every pass the same signals arrive at the nodes of the set, so
the circuits agree on it after equally many passes. They may settle after different numbers of passes,
because the other nodes have a say in when passes end. But a circuit without chips is not changed by
passes after a quiet one, so settling it is making as many passes as the limit allows, in both circuits.
-/

namespace Breadboard

/-- What the node is, with its parameters and without anything that moves in a simulation. -/
def Node.kind (node : Node Circuit) : Part Circuit :=
  node.outline.part

/-- The ports of a node look as those of its kind do. -/
theorem Node.portShape_kind (node : Node Circuit) (port : String) :
    (Node.ofPart node.kind).portShape port = node.portShape port := by
  rw [← portShape_outlined (fun _ => 0) node port]
  rfl

/-- What has the kind of a chip is one. -/
theorem Node.chip_of_kind_eq {node other : Node Circuit} (same : node.kind = other.kind)
    {body : Chip Circuit} (isChip : node.part = .chip body) : ∃ otherBody, other.part = .chip otherBody := by
  obtain ⟨label, position, part, inputs, outputs⟩ := node
  obtain ⟨otherLabel, otherPosition, otherPart, otherInputs, otherOutputs⟩ := other
  simp only at isChip
  subst isChip
  cases otherPart with
  | chip otherBody => exact ⟨otherBody, rfl⟩
  | _ => cases same

/-- Staging what is staged changes nothing. -/
theorem Node.staged_of_inputs {node : Node Circuit} {arriving : PortMap} (staged : node.inputs = arriving) :
    node.staged arriving = node := by
  rw [← staged]
  rfl

/-- Staging, stepping and showing the same signals twice makes of a component that is no chip what doing so
once makes of it. -/
theorem Node.repeated {node : Node Circuit} (primitive : ∀ body, node.part ≠ .chip body)
    (arriving : PortMap) {shown : Option Signal} (onJoint : node.isJoint = false → shown = none)
    {inner : Circuit → Circuit} {initial again : Bool} :
    (((((node.staged arriving).plainStep inner initial).showing shown).staged arriving).plainStep inner
        again).showing shown = ((node.staged arriving).plainStep inner initial).showing shown := by
  have restaged : (((node.staged arriving).plainStep inner initial).showing shown).staged arriving =
      ((node.staged arriving).plainStep inner initial).showing shown := by
    apply staged_of_inputs
    rw [inputs_showing, inputs_plainStep, staged_inputs]
  rw [restaged]
  by_cases joint : node.isJoint = true
  · have stillJoint : (((node.staged arriving).plainStep inner initial).showing shown).isJoint = true := by
      rw [isJoint_showing, isJoint_plainStep, isJoint_staged, joint]
    rw [plainStep_of_isJoint inner again stillJoint, showing_showing]
  · have unshown := onJoint (by simpa using joint)
    have stillPrimitive : ∀ body,
        ((node.staged arriving).plainStep inner initial).part ≠ .chip body := by
      intro body isChip
      obtain ⟨before, wasChip, _⟩ := chip_of_plainStep inner initial isChip
      exact primitive before wasChip
    subst unshown
    rw [showing_none, showing_none, plainStep_of_not_chip inner again stillPrimitive,
      step_plainStep inner initial stillPrimitive]

namespace Circuit

/-- Whatever drives a net that leads to a node of the set, or that passes through a joint of it, belongs to
the set. -/
def FanInClosed (cone : Set NodeId) (circuit : Circuit) : Prop :=
  ∀ net ∈ (Netlist.build circuit).nets,
    ((∃ sink ∈ net.sinks, sink.node ∈ cone) ∨ ∃ joint ∈ net.joints, joint ∈ cone) →
      ∀ source ∈ net.sources, source.node ∈ cone

/-- No node is a chip. -/
def Flat (circuit : Circuit) : Prop :=
  ∀ id node, circuit.node? id = some node → ∀ body, node.part ≠ .chip body

/-- The circuits have nodes of the same kinds in the same slots, wired alike, and agree completely about the
nodes of a set. -/
structure AgreesOn (cone : Set NodeId) (left right : Circuit) : Prop where
  wires : left.wires = right.wires
  kinds : ∀ id, (left.node? id).map Node.kind = (right.node? id).map Node.kind
  nodes : ∀ id ∈ cone, left.node? id = right.node? id

variable {cone : Set NodeId} {left right circuit : Circuit}

/-- A circuit without chips is coherent. -/
theorem Flat.coherent (flat : circuit.Flat) : circuit.Coherent := by
  apply Coherent.of_no_chip
  intro node member body
  obtain ⟨id, found⟩ := Arena.mem_values.mp member
  exact flat id node found body

/-- A circuit whose nodes were retained has no chips if it had none. -/
theorem Flat.of_related {table : Revision → List Net} (flat : left.Flat)
    (related : Related (Node.Retains table) left right) : right.Flat := by
  intro id node found body isChip
  obtain ⟨original, foundBefore, retains⟩ := related.origin found
  have kinds : node.kind = original.kind := congrArg Node.part retains.outline
  obtain ⟨wasBody, wasChip⟩ := Node.chip_of_kind_eq kinds isChip
  exact flat id original foundBefore wasBody wasChip

namespace AgreesOn

/-- Circuits with nodes of the same kinds that are wired alike have the same nets. -/
theorem nets (agrees : AgreesOn cone left right) :
    (Netlist.build left).nets = (Netlist.build right).nets := by
  apply nets_congr agrees.wires
  intro terminal
  have byKind (circuit : Circuit) : circuit.wiredPort? terminal =
      ((circuit.node? terminal.node).map Node.kind).map fun kind =>
        let shape := (Node.ofPart kind).portShape terminal.port
        ⟨if shape.joint then { terminal with port := "joint" } else terminal, shape⟩ := by
    rw [wiredPort?, Option.map_map]
    simp only [Function.comp_def, Node.portShape_kind]
  rw [byKind, byKind, agrees.kinds]

/-- If one of the circuits has no chips, neither has the other. -/
theorem flat (agrees : AgreesOn cone left right) (flat : left.Flat) : right.Flat := by
  intro id node found body isChip
  have kinds := agrees.kinds id
  rw [found, Option.map_some] at kinds
  obtain ⟨other, foundOther, same⟩ := Option.map_eq_some_iff.mp kinds
  obtain ⟨otherBody, otherIsChip⟩ := Node.chip_of_kind_eq same.symm isChip
  exact flat id other foundOther otherBody otherIsChip

/-- A net whose sources belong to the set carries the same signal in both circuits. -/
theorem resolve (agrees : AgreesOn cone left right) {net : Net}
    (inside : ∀ source ∈ net.sources, source.node ∈ cone) : net.resolve left = net.resolve right := by
  have driven : net.sources.filterMap (Net.driven? left) =
      net.sources.filterMap (Net.driven? right) := by
    apply List.filterMap_congr
    intro source isSource
    rw [Net.driven?, Net.driven?, agrees.nodes _ (inside source isSource)]
  rw [Net.resolve, Net.resolve, driven]

/-- Circuits whose nodes are retained go on to agree on the set if they do so about its nodes. -/
theorem changed (agrees : AgreesOn cone left right) {table : Revision → List Net} {left' right' : Circuit}
    (leftRelated : Related (Node.Retains table) left left')
    (rightRelated : Related (Node.Retains table) right right')
    (nodes : ∀ id ∈ cone, left'.node? id = right'.node? id) : AgreesOn cone left' right' := by
  have kinds {before after : Circuit} (related : Related (Node.Retains table) before after)
      (id : NodeId) : (after.node? id).map Node.kind = (before.node? id).map Node.kind := by
    have outlines := congrArg (Option.map Node.part) (node?_of_viewed_eq related.outline_eq id)
    rw [Option.map_map, Option.map_map] at outlines
    exact outlines
  constructor
  · rw [leftRelated.frame.wires, rightRelated.frame.wires, agrees.wires]
  · intro id
    rw [kinds leftRelated, kinds rightRelated, agrees.kinds]
  · exact nodes

end AgreesOn

/-- A circuit with the nets of another one has the same sets closed under fan-in. -/
theorem FanInClosed.of_nets (closed : left.FanInClosed cone)
    (nets : (Netlist.build right).nets = (Netlist.build left).nets) : right.FanInClosed cone := by
  rw [FanInClosed, nets]
  exact closed

namespace AgreesOn

variable (agrees : AgreesOn cone left right) (closed : left.FanInClosed cone)
include agrees closed

/-- The same signals arrive at the nodes of the set. -/
theorem arriving {id : NodeId} (inside : id ∈ cone) : left.arriving id = right.arriving id := by
  apply PortMap.ext
  intro port
  ext signal
  rw [get?_arriving, get?_arriving, ← agrees.nets]
  apply exists_congr
  intro net
  apply and_congr_right
  intro member
  apply and_congr_right
  intro isSink
  rw [agrees.resolve (closed net member (.inl ⟨_, isSink, inside⟩))]

/-- The joints of the set are to show the same signals. -/
theorem jointSignal? {id : NodeId} (inside : id ∈ cone) :
    left.jointSignal? id = right.jointSignal? id := by
  ext signal
  rw [jointSignal?_eq_some_iff, jointSignal?_eq_some_iff, ← agrees.nets]
  apply exists_congr
  intro net
  apply and_congr_right
  intro member
  apply and_congr_right
  intro isOn
  rw [agrees.resolve (closed net member (.inr ⟨_, isOn, inside⟩))]

variable {inner : Circuit → Circuit}
  (kept : ∀ circuit, Related (Node.Retains fun _ => []) circuit (inner circuit))
include kept

/-- After a pass the circuits still agree on the set. -/
theorem plainPass (initial : Bool) :
    AgreesOn cone (left.plainPass (Node.plainStep inner initial))
      (right.plainPass (Node.plainStep inner initial)) := by
  have lasting := Node.lasting_retains fun _ => []
  have related := related_plainPass lasting (lasting.plainStep kept initial)
    (Node.isJoint_plainStep inner initial)
  apply agrees.changed (related left) (related right)
  intro id inside
  rw [node?_plainPass, node?_plainPass, agrees.nodes id inside, agrees.arriving closed inside,
    agrees.jointSignal? closed inside]

/-- After equally many passes the circuits still agree on the set.

Proof: by induction on the passes. None of them changes the nets. -/
theorem afterPasses (passes : Nat) :
    AgreesOn cone (left.afterPasses (Node.plainStep inner) passes)
      (right.afterPasses (Node.plainStep inner) passes) := by
  induction passes with
  | zero => exact agrees
  | succ passes inductionHypothesis =>
    have stillClosed := closed.of_nets (nets_afterPasses kept left passes)
    exact inductionHypothesis.plainPass stillClosed kept _

end AgreesOn

section

variable {inner : Circuit → Circuit}
  (kept : ∀ circuit, Related (Node.Retains fun _ => []) circuit (inner circuit))
include kept

/-- A circuit without chips is not changed by a pass after a quiet one.

Proof: the quiet pass leaves the signals of all nets, so the same is staged and shown again, and a
component that was stepped is not changed by another step from the same inputs. -/
theorem Flat.plainPass_of_quiet (flat : circuit.Flat) {initial : Bool}
    (quiet : circuit.passMoves (Node.plainStep inner initial) = false) (again : Bool) :
    (circuit.plainPass (Node.plainStep inner initial)).plainPass (Node.plainStep inner again) =
      circuit.plainPass (Node.plainStep inner initial) := by
  have same := sameSignals_of_quiet (Node.writes_plainStep inner initial) quiet
    (nets_plainPass kept initial circuit)
  have frame := sameFrame_plainPass (Node.plainStep inner again)
    (circuit.plainPass (Node.plainStep inner initial))
  apply ext_node? frame.size _ frame.wires frame.revision
  intro id
  rw [node?_plainPass, same.arriving, same.jointSignal?]
  cases found : circuit.node? id with
  | none => rw [node?_plainPass, found, Option.map_none, Option.map_none]
  | some node =>
    rw [node?_plainPass, found, Option.map_some, Option.map_some,
      Node.repeated (flat id node found) _ (jointSignal?_of_not_isJoint found)]

/-- Passes leave a circuit without chips. -/
theorem Flat.afterPasses (flat : circuit.Flat) (passes : Nat) :
    (circuit.afterPasses (Node.plainStep inner) passes).Flat :=
  flat.of_related (related_afterPasses (Node.lasting_retains fun _ => []) kept circuit passes)

/-- A circuit without chips is not changed by any passes after a quiet one.

Proof: by induction on the further passes. -/
theorem Flat.afterPasses_of_quiet (flat : circuit.Flat) {last : Nat}
    (quiet : circuit.moves (Node.plainStep inner) last = false) (more : Nat) :
    circuit.afterPasses (Node.plainStep inner) (last + 1 + more) =
      circuit.afterPasses (Node.plainStep inner) (last + 1) := by
  induction more with
  | zero => rfl
  | succ more inductionHypothesis =>
    have flatBefore := flat.afterPasses kept last
    calc circuit.afterPasses (Node.plainStep inner) (last + 1 + (more + 1))
        = (circuit.afterPasses (Node.plainStep inner) (last + 1 + more)).plainPass
            (Node.plainStep inner (last + 1 + more == 0)) := rfl
      _ = (circuit.afterPasses (Node.plainStep inner) (last + 1)).plainPass
            (Node.plainStep inner (last + 1 + more == 0)) := by rw [inductionHypothesis]
      _ = circuit.afterPasses (Node.plainStep inner) (last + 1) :=
            flatBefore.plainPass_of_quiet kept quiet _

/-- Settling a circuit without chips comes to making as many passes as the limit allows. -/
theorem Flat.plainSettle_eq (flat : circuit.Flat) (maxPasses : Nat) :
    circuit.plainSettle (Node.plainStep inner) maxPasses =
      circuit.afterPasses (Node.plainStep inner) maxPasses := by
  have concludes := Settling.ofMoves_concludes (circuit.moves (Node.plainStep inner)) maxPasses
  rw [plainSettle, plainReport]
  generalize Settling.ofMoves (circuit.moves (Node.plainStep inner)) maxPasses = report at concludes
  rcases Nat.lt_or_eq_of_le concludes.passes_le with below | atLimit
  · obtain ⟨several, quiet⟩ := concludes.quiet below
    obtain ⟨last, isNext⟩ := Nat.exists_eq_add_of_le' (show 1 ≤ report.passes by omega)
    obtain ⟨more, isMore⟩ := Nat.exists_eq_add_of_le concludes.passes_le
    rw [isNext, Nat.add_sub_cancel] at quiet
    rw [isMore, isNext, flat.afterPasses_of_quiet kept quiet]
  · rw [atLimit]

end

/-- A tick that begins for both circuits leaves them in agreement on the set. -/
theorem AgreesOn.plainTick (agrees : AgreesOn cone left right) (closed : left.FanInClosed cone)
    (flat : left.Flat) {limits : Limits} (leftBegins : (left.beginTick limits.interval).2 = none)
    (rightBegins : (right.beginTick limits.interval).2 = none) :
    AgreesOn cone (left.plainTick limits) (right.plainTick limits) := by
  have leftStarted : (left.started limits .top).2 = none := leftBegins
  have rightStarted : (right.started limits .top).2 = none := rightBegins
  have leftRelated : Related (Node.Retains fun _ => []) left (left.beginTick limits.interval).1 :=
    related_started leftStarted
  have rightRelated : Related (Node.Retains fun _ => []) right (right.beginTick limits.interval).1 :=
    related_started rightStarted
  have begun : AgreesOn cone (left.beginTick limits.interval).1 (right.beginTick limits.interval).1 := by
    apply agrees.changed leftRelated rightRelated
    intro id inside
    rw [beginTick_exact leftBegins, beginTick_exact rightBegins]
    have each (circuit : Circuit) : node?
        { circuit with nodes := circuit.nodes.map (Node.begun limits.interval) } id =
          (circuit.node? id).map (Node.begun limits.interval) := Arena.get?_map ..
    rw [each, each, agrees.nodes id inside]
  have closedBegun := closed.of_nets (nets_of_outline_eq leftRelated.outline_eq)
  have flatBegun := flat.of_related leftRelated
  have kept := related_plainWithin (Node.lasting_retains fun _ => []) limits.maxPasses limits.maxDepth
  rw [Circuit.plainTick, Circuit.plainTick, flatBegun.plainSettle_eq kept,
    (begun.flat flatBegun).plainSettle_eq kept]
  exact begun.afterPasses closedBegun kept _

end Circuit

/-- The drives agree about the nodes of a set: these are driven with the same signals in the same order. -/
def Drives.AgreeOn (cone : Set NodeId) [DecidablePred (· ∈ cone)] (left right : Drives) : Prop :=
  left.filter (·.1 ∈ cone) = right.filter (·.1 ∈ cone)

namespace Circuit

variable {cone : Set NodeId} [DecidablePred (· ∈ cone)] {left right : Circuit}

/-- A node of the set is driven as the drives of the set say. -/
theorem node?_driveAll_of_mem {id : NodeId} (inside : id ∈ cone) (circuit : Circuit) (drives : Drives) :
    (circuit.driveAll drives).node? id = (circuit.node? id).map fun node =>
      ((drives.filter (·.1 ∈ cone)).filter (·.1 == id)).foldl
        (fun node drive => node.drivenWith drive.2) node := by
  have atNode : (drives.filter (·.1 ∈ cone)).filter (·.1 == id) = drives.filter (·.1 == id) := by
    rw [List.filter_filter]
    apply List.filter_congr
    intro drive _
    by_cases here : drive.1 = id
    · simp [here, inside]
    · simp [here]
  rw [atNode, driveAll, node?_foldl_modifyNode Prod.fst fun drive node => node.drivenWith drive.2]

/-- Drives that agree on the set leave circuits in agreement on it. -/
theorem AgreesOn.driveAll (agrees : AgreesOn cone left right) {leftDrives rightDrives : Drives}
    (same : leftDrives.AgreeOn cone rightDrives) :
    AgreesOn cone (left.driveAll leftDrives) (right.driveAll rightDrives) := by
  have leftRelated : Related (Node.Retains fun _ => []) left _ := related_driveAll leftDrives left
  have rightRelated : Related (Node.Retains fun _ => []) right _ := related_driveAll rightDrives right
  apply agrees.changed leftRelated rightRelated
  intro id inside
  rw [node?_driveAll_of_mem inside, node?_driveAll_of_mem inside, agrees.nodes id inside, same]

/-- Ticks leave circuits without chips in agreement on a set closed under fan-in, as long as no fault
arises in either of them.

Proof: by induction on the ticks. Every circuit is read with a table of its own. -/
theorem play_agrees {leftTable rightTable : Revision → List Net} {leftScheduler rightScheduler : Scheduler}
    (sameLimits : leftScheduler.limits = rightScheduler.limits)
    (leftActive : leftScheduler.suspended = false) (rightActive : rightScheduler.suspended = false)
    (leftKnows : leftScheduler.cache.Knows leftTable) (rightKnows : rightScheduler.cache.Knows rightTable)
    (leftFaithful : left.Faithful leftTable) (rightFaithful : right.Faithful rightTable)
    (agrees : AgreesOn cone left right) (closed : left.FanInClosed cone) (flat : left.Flat)
    {leftTicks rightTicks : List Drives} (drives : List.Forall₂ (Drives.AgreeOn cone) leftTicks rightTicks)
    (leftFaultless : ∀ report ∈ (leftScheduler.play left leftTicks).1, ∃ settling, report = .ok settling)
    (rightFaultless : ∀ report ∈ (rightScheduler.play right rightTicks).1,
      ∃ settling, report = .ok settling) :
    AgreesOn cone (leftScheduler.play left leftTicks).2.2 (rightScheduler.play right rightTicks).2.2 := by
  induction drives generalizing left right leftScheduler rightScheduler with
  | nil => exact agrees
  | @cons leftDrives rightDrives leftRest rightRest same rest inductionHypothesis =>
    have driven := agrees.driveAll same
    have leftBegins := begins_of_play leftFaultless
    have rightBegins := begins_of_play rightFaultless
    obtain ⟨leftNext, leftLimits, leftActive', leftKnows', leftFaithful', leftPlayed⟩ :=
      play_plain leftActive leftFaithful leftKnows leftBegins leftRest
    obtain ⟨rightNext, rightLimits, rightActive', rightKnows', rightFaithful', rightPlayed⟩ :=
      play_plain rightActive rightFaithful rightKnows rightBegins rightRest
    rw [leftPlayed] at leftFaultless ⊢
    rw [rightPlayed] at rightFaultless ⊢
    rw [← sameLimits] at rightBegins rightFaithful' rightFaultless ⊢
    have drivenRelated : Related (Node.Retains leftTable) left (left.driveAll leftDrives) :=
      related_driveAll leftDrives left
    have drivenClosed := closed.of_nets (nets_of_outline_eq drivenRelated.outline_eq)
    have drivenFlat := flat.of_related drivenRelated
    have tickRelated : Related (Node.Retains leftTable) _ _ := related_plainTick leftBegins
    have ticked := driven.plainTick drivenClosed drivenFlat leftBegins rightBegins
    refine inductionHypothesis (leftLimits.trans (sameLimits.trans rightLimits.symm)) leftActive'
      rightActive' leftKnows' rightKnows' leftFaithful' rightFaithful' ticked ?_ ?_ ?_ ?_
    · exact drivenClosed.of_nets (nets_of_outline_eq tickRelated.outline_eq)
    · exact drivenFlat.of_related tickRelated
    · exact (List.forall_mem_cons.mp leftFaultless).2
    · exact (List.forall_mem_cons.mp rightFaultless).2

/-- Nodes are not influenced from outside a set that is closed under fan-in. Two circuits without chips, with
nodes of the same kinds in the same slots and the same wires, may differ in all that the nodes outside such
a set hold: states, shown states, oscillators and signals. If they agree about the nodes of the set, and
these are driven alike, then they still agree about them after any number of ticks without a fault,
whatever the other nodes are driven with. The circuits may have cycles, and each of them may reach the
limit on passes or settle before. -/
theorem cone_uninfluenced {limits : Limits} (flat : left.Flat) (closed : left.FanInClosed cone)
    (agrees : AgreesOn cone left right) {leftTicks rightTicks : List Drives}
    (drives : List.Forall₂ (Drives.AgreeOn cone) leftTicks rightTicks)
    (leftFaultless : ∀ report ∈ ((Scheduler.new limits).play left leftTicks).1,
      ∃ settling, report = .ok settling)
    (rightFaultless : ∀ report ∈ ((Scheduler.new limits).play right rightTicks).1,
      ∃ settling, report = .ok settling) :
    ∀ id ∈ cone, ((Scheduler.new limits).play left leftTicks).2.2.node? id =
      ((Scheduler.new limits).play right rightTicks).2.2.node? id := by
  obtain ⟨leftTable, leftFaithful⟩ := flat.coherent.faithful
  obtain ⟨rightTable, rightFaithful⟩ := (agrees.flat flat).coherent.faithful
  have agreement := play_agrees rfl rfl rfl (NetlistCache.knows_empty leftTable)
    (NetlistCache.knows_empty rightTable) leftFaithful rightFaithful agrees closed flat drives
    leftFaultless rightFaultless
  exact agreement.nodes

/-- A pin, an inverter, a joint and a light, and beside them a gate that drives itself as long as a switch
is on. -/
def corner (busy : Bool) : Circuit :=
  ⟨⟨[some (.ofPart (.inputPin .one (.bit true))), some (.ofPart (.gate .not)), some (.ofPart .joint),
      some (.ofPart (.light false)), some (.ofPart (.switch busy)), some (.ofPart (.gate .nand))]⟩,
    [⟨⟨0, "out"⟩, ⟨1, "in"⟩⟩, ⟨⟨1, "out"⟩, ⟨2, "joint"⟩⟩, ⟨⟨2, "joint"⟩, ⟨3, "in"⟩⟩,
      ⟨⟨4, "out"⟩, ⟨5, "a"⟩⟩, ⟨⟨5, "out"⟩, ⟨5, "b"⟩⟩], 1⟩

/-- In the first tick the gate makes all passes in one corner and lets the other settle in three, and the
other way round in the second tick. The four nodes beside it are the same in both corners. -/
theorem corner_uninfluenced :
    ((Scheduler.new .standard).play (corner true) [[], [(4, .bit false), (0, .bit false)]]).1 =
        [.ok ⟨true, 10, true, false⟩, .ok ⟨true, 3, false, false⟩] ∧
      ((Scheduler.new .standard).play (corner false) [[], [(0, .bit false), (4, .bit true)]]).1 =
        [.ok ⟨true, 3, false, false⟩, .ok ⟨true, 10, true, false⟩] ∧
      ∀ id < 4,
        ((Scheduler.new .standard).play (corner true)
            [[], [(4, .bit false), (0, .bit false)]]).2.2.node? id =
          ((Scheduler.new .standard).play (corner false)
            [[], [(0, .bit false), (4, .bit true)]]).2.2.node? id := by
  have leftReports : ((Scheduler.new .standard).play (corner true)
      [[], [(4, .bit false), (0, .bit false)]]).1 =
        [.ok ⟨true, 10, true, false⟩, .ok ⟨true, 3, false, false⟩] := by decide +kernel
  have rightReports : ((Scheduler.new .standard).play (corner false)
      [[], [(0, .bit false), (4, .bit true)]]).1 =
        [.ok ⟨true, 3, false, false⟩, .ok ⟨true, 10, true, false⟩] := by decide +kernel
  have flat : (corner true).Flat := by
    intro id node found
    have none : ∀ node ∈ (corner true).nodes.values, ∀ body, node.part ≠ .chip body := by
      simp [corner, Arena.values, Node.ofPart]
    exact none node (Arena.mem_values.mpr ⟨id, found⟩)
  have closed : (corner true).FanInClosed {id | id < 4} := by
    unfold FanInClosed
    simp only [Set.mem_ofPred_eq]
    decide +kernel
  have agrees : AgreesOn {id | id < 4} (corner true) (corner false) := by
    constructor
    · rfl
    · rintro (_ | _ | _ | _ | _ | _ | id) <;> rfl
    · rintro (_ | _ | _ | _ | id) inside
      · rfl
      · rfl
      · rfl
      · rfl
      · exact absurd inside (by simp)
  have drives : List.Forall₂ (Drives.AgreeOn {id | id < 4})
      [[], [(4, .bit false), (0, .bit false)]] [[], [(0, .bit false), (4, .bit true)]] :=
    .cons rfl (.cons rfl .nil)
  refine ⟨leftReports, rightReports, ?_⟩
  apply cone_uninfluenced flat closed agrees drives
  · rw [leftReports]
    simp
  · rw [rightReports]
    simp

end Circuit

end Breadboard
