import Breadboard.Engine.Scheduler
import Breadboard.Proofs.Engine.Copying
import Breadboard.Proofs.Engine.Requests
import Breadboard.Proofs.Workshop.Soundness

/-!
# The depth limit is a wall

A tick evaluates the circuits down to the depth limit. Right below it nothing changes but the pins that
chips drive, and everything deeper stays what it was. A chip that stands at the limit goes on to show what
its output pins had received before. Only a port with the name of the port of a joint is not safe: where
kept netlists do not suit the circuit, the chip may be taken for a joint.
-/

namespace Breadboard

namespace Circuit

variable {circuit before after : Circuit}

/-- What holds of every chip holds of a chip that a path leads to. -/
theorem EveryChip.of_hasChip {property : Chip Circuit → Prop} (every : circuit.EveryChip property)
    {path : List NodeId} {id : NodeId} {node : Node Circuit} {body : Chip Circuit}
    (has : circuit.HasChip path id node body) : property body := by
  obtain ⟨level, leads, found, isChip⟩ := has
  exact every level ⟨path, leads⟩ id node body found isChip

/-- Driving pins changes nothing of what is received. -/
theorem received_of_redriven (related : Related Node.Redriven before after) (pin : NodeId) :
    Chip.received after pin = Chip.received before pin := by
  have inputs : (after.node? pin).map Node.inputs = (before.node? pin).map Node.inputs :=
    related.map_eq (fun _ _ => Node.Redriven.inputs) pin
  have viaInputs (circuit : Circuit) : Chip.received circuit pin =
      (((circuit.node? pin).map Node.inputs).bind fun inputs => inputs.get? "in").getD (.bit false) := by
    rw [Option.bind_map]
    rfl
  rw [viaInputs, inputs, viaInputs]

/-- The second circuit is the first one but for the states of some input pins and their outputs. -/
structure SameButPins (pins : List NodeId) (before after : Circuit) : Prop where
  frame : after.SameFrame before
  others : ∀ id, id ∉ pins → after.node? id = before.node? id
  driven : ∀ id ∈ pins, ∃ node width state later outputs, before.node? id = some node ∧
    node.part = .inputPin width state ∧
      after.node? id = some { node with part := .inputPin width later, outputs } ∧
        ∀ port, port ≠ "out" → outputs.get? port = node.outputs.get? port

/-- What a tick makes of a circuit on the levels below its depth limit. -/
structure WalledAt (depth : Nat) (before after : Circuit) : Prop where
  /-- Deeper than one level below the limit circuits are what they were. -/
  beyond : ∀ path, depth + 2 ≤ path.length → after.inside? path = before.inside? path
  /-- A chip on the level of the limit stays where it is, and the circuit inside it changes at bound pins
  only. -/
  behind : ∀ path id node body, path.length = depth → before.HasChip path id node body →
    ∃ changed reached, after.HasChip path id changed reached ∧
      body.circuit.SameButPins body.boundPins reached.circuit

/-- Every chip on a level has, at those of its bound ports that are considered, what its output pins had
received before. -/
def ShowsReceived (considered : String → Prop) (depth : Nat) (before after : Circuit) : Prop :=
  ∀ path id node body, path.length = depth → before.HasChip path id node body →
    ∃ changed reached, after.HasChip path id changed reached ∧
      ∀ (place : Nat) (decl : PortDecl) (pin : NodeId), considered decl.id →
        body.outputs[place]? = some decl → body.circuit.outputPins[place]? = some pin →
          changed.outputs.get? decl.id = some (Chip.received body.circuit pin)

/-- A bound port of a chip on the level drives what its output pin had received. -/
theorem ShowsReceived.outputAt?_eq {considered : String → Prop} {depth : Nat}
    (shows : before.ShowsReceived considered depth after) {path : List NodeId} (atLimit : path.length = depth)
    {id : NodeId} {node : Node Circuit} {body : Chip Circuit} (has : before.HasChip path id node body)
    (place : Nat) {decl : PortDecl} {pin : NodeId} (isConsidered : considered decl.id)
    (isDecl : body.outputs[place]? = some decl) (isPin : body.circuit.outputPins[place]? = some pin) :
    after.outputAt? path id decl.id = some (Chip.received body.circuit pin) := by
  obtain ⟨changed, reached, ⟨level, leads, found, _⟩, received⟩ := shows path id node body atLimit has
  rw [outputAt?, leads, Option.bind_some, found, Option.bind_some,
    received place decl pin isConsidered isDecl isPin]

variable {limits : Limits} {cache last : NetlistCache} {report : Settling} {body reached : Chip Circuit}

/-- A chip that goes by current pins and was driven differs inside at bound pins only. -/
theorem SameButPins.of_onlyDriven (driven : body.OnlyDriven reached)
    (current : body.currentBindings = Chip.computeBindings body.circuit) :
    body.circuit.SameButPins body.boundPins reached.circuit where
  frame := driven.circuit.frame
  others id free := driven.undriven id (by rwa [Chip.drivenPins_of_current current])
  driven id bound := by
    obtain ⟨⟨decl, pin⟩, member, rfl⟩ := List.mem_map.mp bound
    obtain ⟨node, found, isPin⟩ := of_mem_sortedNodes (List.of_mem_zip member).2
    obtain ⟨width, state, part⟩ := Node.isInputPin_iff.mp isPin
    obtain ⟨changed, foundAfter, redriven⟩ := driven.circuit.node? found
    rcases redriven with rfl | ⟨signal, rfl⟩
    · exact ⟨changed, width, state, state, changed.outputs, found, part, by rw [foundAfter, ← part],
        fun _ _ => rfl⟩
    · rw [Node.driveFrom_of_part part] at foundAfter
      refine ⟨node, width, state, _, _, found, part, foundAfter, fun port other => ?_⟩
      rw [PortMap.get?_insert, if_neg other.symm]

/-- Whatever netlists are kept, ports that have not the name of the port of a joint are copied to. -/
theorem copies_beside_joints (somePass : 1 ≤ limits.maxPasses)
    (evaluated : circuit.evaluate limits .top cache = (after, last, .ok report)) :
    after.Each (Node.Copies (· ≠ "joint") limits.maxDepth) :=
  copies_evaluate invariant_blueprint (fun _ _ _ _ joint => absurd rfl joint) somePass trivial trivial
    evaluated

/-- Where kept netlists suit the circuit, all ports are copied to: no chip is listed among their joints. -/
theorem copies_of_suits (suits : cache.Suits circuit) (somePass : 1 ≤ limits.maxPasses)
    (evaluated : circuit.evaluate limits .top cache = (after, last, .ok report)) :
    after.Each (Node.Copies (fun _ => True) limits.maxDepth) := by
  obtain ⟨table, tabled, knows⟩ := suits
  refine copies_evaluate (invariant_tabled table) (fun circuit cache tabled knows _ => ?_) somePass tabled
    knows evaluated
  intro net member id isJoint node found
  rw [(NetlistCache.getOrBuild_exact knows (tabled _ (.refl circuit))).1] at member
  obtain ⟨joint, here, joins⟩ := isJoint_of_mem_joints member isJoint
  rw [found] at here
  cases here
  refine Node.chip?_eq_none fun body isChip => ?_
  rw [Node.isJoint_iff.mp joins] at isChip
  cases isChip

/-- Chips that copy from circuits in which pins were driven only show what had been received before: driving
a pin changes nothing that a pin received. -/
theorem showsReceived_of_copies {considered : String → Prop} {depth : Nat} (bound : before.Bound)
    (distinct : before.EveryChip fun body => (body.outputs.map PortDecl.id).Nodup)
    (related : Related (Node.Around (Chip.ReachedTo depth)) before after)
    (copies : after.Each (Node.Copies considered depth)) : before.ShowsReceived considered depth after := by
  intro path id node body atLimit has
  obtain ⟨changed, reached, hasAfter, driven⟩ := onlyDriven_of_reachedTo related atLimit has
  refine ⟨changed, reached, hasAfter, fun place decl pin isConsidered isDecl isPin => ?_⟩
  have isPinAfter : reached.currentBindings.outputs[place]? = some pin := by
    rw [driven.bindings, bound.of_hasChip has]
    exact isPin
  have copied := copies.copies atLimit hasAfter reached hasAfter.isChip
    (driven.outputs ▸ distinct.of_hasChip has) place decl pin isConsidered (driven.outputs ▸ isDecl)
    isPinAfter
  rw [copied, received_of_redriven driven.circuit]

/-- A tick that ends without a fault leaves everything alone that lies below the depth limit, but for the
bound pins right below it. The chips at the limit show what their output pins had received, at every port
that has another name than the port of a joint, and at every port at all where kept netlists suit the
circuit. They do so for every circuit of a workshop, be no netlist kept or those of the workshop.

Proof: what is reached tells of the frame, and that chips on the last level are driven only. In the end
they copy from their driven circuits. -/
theorem evaluate_walled (bound : circuit.Bound)
    (distinct : circuit.EveryChip fun body => (body.outputs.map PortDecl.id).Nodup)
    (somePass : 1 ≤ limits.maxPasses)
    (evaluated : circuit.evaluate limits .top cache = (after, last, .ok report)) :
    circuit.WalledAt limits.maxDepth after ∧
      circuit.ShowsReceived (· ≠ "joint") limits.maxDepth after ∧
      (cache.Suits circuit → circuit.ShowsReceived (fun _ => True) limits.maxDepth after) ∧
      (∀ building address, (Workshop.opened.run building).circuit? address = some circuit →
        cache = .empty ∨ cache = (Workshop.opened.run building).cache →
          circuit.ShowsReceived (fun _ => True) limits.maxDepth after) := by
  have related := reachedTo_evaluate limits circuit cache
  rw [evaluated] at related
  have walled : circuit.WalledAt limits.maxDepth after := by
    refine ⟨fun path => inside?_of_reachedTo related, fun path id node body atLimit has => ?_⟩
    obtain ⟨changed, reached, hasAfter, driven⟩ := onlyDriven_of_reachedTo related atLimit has
    exact ⟨changed, reached, hasAfter, .of_onlyDriven driven (bound.of_hasChip has)⟩
  have shows {considered : String → Prop} (copies : after.Each (Node.Copies considered limits.maxDepth)) :
      circuit.ShowsReceived considered limits.maxDepth after :=
    showsReceived_of_copies bound distinct related copies
  refine ⟨walled, shows (copies_beside_joints somePass evaluated),
    fun suits => shows (copies_of_suits suits somePass evaluated), fun building address found kept => ?_⟩
  exact shows (copies_of_suits (Workshop.suits_of_circuit? found kept) somePass evaluated)

/-- A chip with one input and one output around a circuit. -/
def encased (circuit : Circuit) : Node Circuit :=
  .ofPart (.chip ⟨"CASE", [.ofBit "in0" "in"], [.ofBit "out0" "out"], circuit, none, .empty⟩)

/-- An inverter in a chip, whose output pin received a one before. -/
def casedInverter : Circuit :=
  ⟨⟨[some (.ofPart (.inputPin .one (.bit false))), some (encased inverter),
      some ((Node.ofPart (.outputPin .one (.bit false))).staged (.ofList [("in", .bit true)]))]⟩,
    [⟨⟨0, "out"⟩, ⟨1, "in0"⟩⟩, ⟨⟨1, "out0"⟩, ⟨2, "in"⟩⟩], 2⟩

/-- A switch and a light, with an inverter between them two chips deep. -/
def deepLamp : Circuit :=
  ⟨⟨[some (.ofPart (.switch true)), some (encased casedInverter), some (.ofPart (.light false))]⟩,
    [⟨⟨0, "out"⟩, ⟨1, "in0"⟩⟩, ⟨⟨1, "out0"⟩, ⟨2, "in"⟩⟩], 3⟩

/-- A fact about the two chips of the deep lamp holds of all of its chips. -/
theorem everyChip_deepLamp {property : Chip Circuit → Prop}
    (cases : ∀ circuit,
      property ⟨"CASE", [.ofBit "in0" "in"], [.ofBit "out0" "out"], circuit, none, .empty⟩) :
    deepLamp.EveryChip property := by
  have flat : inverter.EveryChip property :=
    everyChip_of_values (by simp [inverter, Arena.values, Node.ofPart])
  have inner : casedInverter.EveryChip property :=
    everyChip_of_values (by simp [casedInverter, encased, Arena.values, Node.ofPart, cases, flat])
  exact everyChip_of_values (by simp [deepLamp, encased, Arena.values, Node.ofPart, cases, inner])

/-- Without any netlist kept the deep lamp is suited: its circuits are of different revisions. -/
theorem suits_deepLamp : NetlistCache.empty.Suits deepLamp := by
  let table (revision : Revision) : List Net :=
    if revision = 3 then (Netlist.build deepLamp).nets
    else if revision = 2 then (Netlist.build casedInverter).nets
    else (Netlist.build inverter).nets
  have flat : inverter.Tabled table := .of_values rfl (by simp [inverter, Arena.values, Node.ofPart])
  have inner : casedInverter.Tabled table :=
    .of_values rfl (by simp [casedInverter, encased, Arena.values, Node.ofPart, Node.staged, flat])
  have outer : deepLamp.Tabled table :=
    .of_values rfl (by simp [deepLamp, encased, Arena.values, Node.ofPart, inner])
  exact ⟨table, outer, NetlistCache.knows_empty table⟩

/-- The first output pin in the cased inverter. -/
theorem outputPin_casedInverter : casedInverter.outputPins[0]? = some 2 := by
  decide +kernel

/-- The chip in the deep lamp stands around the cased inverter. -/
theorem hasChip_deepLamp : deepLamp.HasChip [] 1 (encased casedInverter)
    ⟨"CASE", [.ofBit "in0" "in"], [.ofBit "out0" "out"], casedInverter, none, .empty⟩ :=
  ⟨deepLamp, by rw [inside?], rfl, rfl⟩

/-- With a depth limit of zero the inverter in the deep lamp is left alone, and the chip and the light show
what the output pin around it had received. -/
theorem deepLamp_walled : deepLamp.Bound ∧
    (deepLamp.EveryChip fun body => (body.outputs.map PortDecl.id).Nodup) ∧
      NetlistCache.empty.Suits deepLamp ∧
      ∃ after last report, deepLamp.evaluate ⟨3, 0, 50⟩ .top .empty = (after, last, .ok report) ∧
        deepLamp.WalledAt 0 after ∧ deepLamp.ShowsReceived (fun _ => True) 0 after ∧
          after.inside? [1, 1] = some inverter ∧ after.outputAt? [] 1 "out0" = some (.bit true) ∧
            (after.node? 2).bind Node.display? = some (.bit true) := by
  have bound : deepLamp.Bound := everyChip_deepLamp fun circuit => currentBindings_of_none rfl
  have distinct : deepLamp.EveryChip fun body => (body.outputs.map PortDecl.id).Nodup :=
    everyChip_deepLamp fun circuit => by simp
  have reports : (deepLamp.evaluate ⟨3, 0, 50⟩ .top .empty).2.2.toOption = some ⟨true, 2, false, false⟩ := by
    decide +kernel
  have lit : ((deepLamp.evaluate ⟨3, 0, 50⟩ .top .empty).1.node? 2).bind Node.display? =
      some (.bit true) := by
    decide +kernel
  rcases evaluated : deepLamp.evaluate ⟨3, 0, 50⟩ .top .empty with ⟨after, last, fault | report⟩
  · rw [evaluated] at reports
    cases reports
  rw [evaluated] at lit
  obtain ⟨walled, _, suited, _⟩ := evaluate_walled bound distinct (by decide) evaluated
  have shows := suited suits_deepLamp
  refine ⟨bound, distinct, suits_deepLamp, after, last, _, rfl, walled, shows, ?_, ?_, lit⟩
  · rw [walled.beyond [1, 1] (by decide)]
    simp only [inside?]
    rfl
  · exact shows.outputAt?_eq rfl hasChip_deepLamp 0 trivial rfl outputPin_casedInverter

/-- A chip with a port named like that of a joint, whose output pin received nothing. -/
def muteChip : Chip Circuit :=
  ⟨"MUTE", [], [.ofBit "joint" "out"], ⟨⟨[some (.ofPart (.outputPin .one (.bit false)))]⟩, [], 3⟩, none, .empty⟩

/-- A fact about chips without ports and about the mute chip holds of all chips of the twins around it. -/
theorem everyChip_muteTwins {property : Chip Circuit → Prop} (twin : ∀ circuit, property (sealed circuit))
    (mute : property muteChip) : (twins (.chip muteChip)).EveryChip property := by
  refine everyChip_twins twin fun body isChip => ?_
  obtain rfl := Part.chip.inj isChip
  have flat : muteChip.circuit.EveryChip property :=
    everyChip_of_values (by simp [muteChip, Arena.values, Node.ofPart])
  exact ⟨mute, flat⟩

/-- The mute chip stands in the place of the joint of one of the twins. -/
theorem hasChip_twins : (twins (.chip muteChip)).HasChip [1] 1
    { (Node.ofPart .joint : Node Circuit) with part := .chip muteChip } muteChip := by
  refine ⟨junction.modifyNode 1 fun node => { node with part := .chip muteChip }, ?_, rfl, rfl⟩
  simp only [inside?]
  rfl

/-- Two ticks without a fault after which a chip at the depth limit does not show what its output pin had
received. In one of the twins the mute chip took the place of the joint, and the netlist of the other one
shows it the signal of the net. And a scheduler that is suspended skips a tick of the deep lamp, so that
its chip copies nothing. -/
theorem chips_not_showing_received :
    ((twins (.chip muteChip)).Bound ∧
      ((twins (.chip muteChip)).EveryChip fun body =>
        (body.inputs.map PortDecl.id).Nodup ∧ (body.outputs.map PortDecl.id).Nodup) ∧
      ∃ after last report, (twins (.chip muteChip)).evaluate ⟨3, 1, 50⟩ .top .empty =
          (after, last, .ok report) ∧ after.outputAt? [1] 1 "joint" = some (.bit true) ∧
        ¬(twins (.chip muteChip)).ShowsReceived (fun _ => True) 1 after) ∧
    deepLamp.Bound ∧
      (deepLamp.EveryChip fun body =>
        (body.inputs.map PortDecl.id).Nodup ∧ (body.outputs.map PortDecl.id).Nodup) ∧
      ((Scheduler.new ⟨3, 0, 50⟩).suspend.step deepLamp).2.2 = .skipped ∧
      ((Scheduler.new ⟨3, 0, 50⟩).suspend.step deepLamp).2.1.outputAt? [] 1 "out0" = none ∧
      ¬deepLamp.ShowsReceived (fun _ => True) 0
        ((Scheduler.new ⟨3, 0, 50⟩).suspend.step deepLamp).2.1 := by
  constructor
  · have bound : (twins (.chip muteChip)).Bound :=
      everyChip_muteTwins (fun _ => currentBindings_of_none rfl) (currentBindings_of_none rfl)
    have distinct : (twins (.chip muteChip)).EveryChip fun body =>
        (body.inputs.map PortDecl.id).Nodup ∧ (body.outputs.map PortDecl.id).Nodup :=
      everyChip_muteTwins (fun _ => ⟨List.nodup_nil, List.nodup_nil⟩) (by decide)
    have reports : ((twins (.chip muteChip)).evaluate ⟨3, 1, 50⟩ .top .empty).2.2.toOption =
        some ⟨false, 2, false, false⟩ := by
      decide +kernel
    have written : ((twins (.chip muteChip)).evaluate ⟨3, 1, 50⟩ .top .empty).1.outputAt? [1] 1 "joint" =
        some (.bit true) := by
      decide +kernel
    rcases evaluated : (twins (.chip muteChip)).evaluate ⟨3, 1, 50⟩ .top .empty with
      ⟨after, last, fault | report⟩
    · rw [evaluated] at reports
      cases reports
    rw [evaluated] at written
    refine ⟨bound, distinct, after, last, _, rfl, written, fun shows => ?_⟩
    have isPin : muteChip.circuit.outputPins[0]? = some 0 := by decide +kernel
    cases written.symm.trans (shows.outputAt?_eq rfl hasChip_twins 0 trivial rfl isPin)
  · have bound : deepLamp.Bound := everyChip_deepLamp fun _ => currentBindings_of_none rfl
    have distinct : deepLamp.EveryChip fun body =>
        (body.inputs.map PortDecl.id).Nodup ∧ (body.outputs.map PortDecl.id).Nodup :=
      everyChip_deepLamp fun _ => by simp
    have dark : deepLamp.outputAt? [] 1 "out0" = none := by decide +kernel
    refine ⟨bound, distinct, rfl, dark, fun shows => ?_⟩
    cases dark.symm.trans (shows.outputAt?_eq rfl hasChip_deepLamp 0 trivial rfl outputPin_casedInverter)

end Circuit

end Breadboard
