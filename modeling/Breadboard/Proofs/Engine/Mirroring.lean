import Breadboard.Engine.Scheduler
import Breadboard.Proofs.Engine.Signals
import Breadboard.Proofs.Net.Redrawing
import Breadboard.Proofs.Signal.WiredOr

/-!
# Circuits that mirror one another

A circuit mirrors another one if it holds the same nodes under other handles, and besides them spare
joints only, and if its nets join the same ports and, but for the spare joints, the same joints. The same
signals then arrive at corresponding nodes, and spare joints drive nothing. So passes, levels and ticks
take circuits that mirror one another to circuits that do, and report the same; neither cycles nor the
limit on passes make a difference, since the circuits correspond after every single pass.
-/

namespace Breadboard

/-- The second net mirrors the first one: it joins the same ports, their nodes having other handles, and
the same joints but for spare ones. -/
structure Net.Mirrored (rename : NodeId → NodeId) (spare : NodeId → Prop) (before after : Net) :
    Prop where
  width : after.width = before.width
  sources : after.sources.Perm (before.sources.map (Terminal.renumbered rename))
  sinks : after.sinks.Perm (before.sinks.map (Terminal.renumbered rename))
  joints : ∀ id, ¬spare (rename id) → (rename id ∈ after.joints ↔ id ∈ before.joints)

/-- The second circuit mirrors the first one: it holds its nodes under other handles, apart from them
nothing but spare joints, and the nets of either circuit are mirrored by those of the other. -/
structure Circuit.Mirrors (rename : NodeId → NodeId) (spare : NodeId → Prop) (before after : Circuit) :
    Prop where
  injective : Function.Injective rename
  image : ∀ id node, before.node? id = some node →
    ¬spare (rename id) ∧ after.node? (rename id) = some node
  origin : ∀ id node, after.node? id = some node →
    (∃ original, rename original = id ∧ before.node? original = some node) ∨
      spare id ∧ node.isJoint = true
  net_image : ∀ net ∈ (Netlist.build before).nets, ∃ mirrored ∈ (Netlist.build after).nets,
    net.Mirrored rename spare mirrored
  net_origin : ∀ mirrored ∈ (Netlist.build after).nets, ∃ net ∈ (Netlist.build before).nets,
    net.Mirrored rename spare mirrored

/-- The beginning of a tick leaves a node the joint that it is or is not. -/
theorem Node.isJoint_begun (interval : Nat) (node : Node Circuit) :
    (node.begun interval).isJoint = node.isJoint := by
  obtain ⟨label, position, part, inputs, outputs⟩ := node
  cases part with
  | clock oscillator =>
    simp only [begun, beginTick]
    cases oscillator.advance interval <;> rfl
  | _ => rfl

namespace Circuit.Mirrors

variable {rename : NodeId → NodeId} {spare : NodeId → Prop} {before after : Circuit}
  (mirrors : Mirrors rename spare before after)
include mirrors

/-- Circuits with the nets of circuits that mirror one another do so if their nodes still correspond. -/
theorem changed {before' after' : Circuit}
    (nets : (Netlist.build before').nets = (Netlist.build before).nets)
    (nets' : (Netlist.build after').nets = (Netlist.build after).nets)
    (image : ∀ id node, before'.node? id = some node →
      ¬spare (rename id) ∧ after'.node? (rename id) = some node)
    (origin : ∀ id node, after'.node? id = some node →
      (∃ original, rename original = id ∧ before'.node? original = some node) ∨
        spare id ∧ node.isJoint = true) :
    Mirrors rename spare before' after' := by
  refine ⟨mirrors.injective, image, origin, ?_, ?_⟩
  · rw [nets, nets']
    exact mirrors.net_image
  · rw [nets, nets']
    exact mirrors.net_origin

/-- A net carries the signal of the net that it mirrors.

Proof: its sources drive the same, because they belong to nodes that are there, and the wired or does not
depend on their order. -/
theorem resolve_eq {net mirrored : Net} (member : net ∈ (Netlist.build before).nets)
    (mirrors' : net.Mirrored rename spare mirrored) :
    mirrored.resolve after = net.resolve before := by
  have signals := mirrors'.sources.filterMap (Net.driven? after)
  rw [List.filterMap_map] at signals
  have driven : net.sources.filterMap (Net.driven? after ∘ Terminal.renumbered rename) =
      net.sources.filterMap (Net.driven? before) := by
    refine List.filterMap_congr fun source isSource => ?_
    obtain ⟨node, found, _⟩ := not_isJoint_of_mem_sources member isSource
    rw [Function.comp_apply, Net.driven?, Net.driven?, found]
    rw [show (source.renumbered rename).node = rename source.node from rfl,
      (mirrors.image _ _ found).2]
    rfl
  rw [driven] at signals
  rw [Net.resolve, Net.resolve, mirrors'.width, Net.foldl_merge_of_perm signals]

/-- The same signals arrive at corresponding nodes. -/
theorem arriving (id : NodeId) : after.arriving (rename id) = before.arriving id := by
  refine PortMap.ext fun port => Option.ext fun signal => ?_
  rw [get?_arriving, get?_arriving]
  constructor
  · rintro ⟨mirrored, member', isSink', rfl⟩
    obtain ⟨net, member, mirrors'⟩ := mirrors.net_origin mirrored member'
    obtain ⟨sink, isSink, here⟩ := List.mem_map.mp (mirrors'.sinks.mem_iff.mp isSink')
    have atPort : sink = ⟨id, port⟩ := Terminal.renumbered_injective mirrors.injective here
    exact ⟨net, member, atPort ▸ isSink, (mirrors.resolve_eq member mirrors').symm⟩
  · rintro ⟨net, member, isSink, rfl⟩
    obtain ⟨mirrored, member', mirrors'⟩ := mirrors.net_image net member
    exact ⟨mirrored, member', mirrors'.sinks.mem_iff.mpr (List.mem_map.mpr ⟨_, isSink, rfl⟩),
      mirrors.resolve_eq member mirrors'⟩

/-- The same signal is to be shown on corresponding joints. -/
theorem jointSignal? {id : NodeId} (used : ¬spare (rename id)) :
    after.jointSignal? (rename id) = before.jointSignal? id := by
  refine Option.ext fun signal => ?_
  rw [jointSignal?_eq_some_iff, jointSignal?_eq_some_iff]
  constructor
  · rintro ⟨mirrored, member', isOn', rfl⟩
    obtain ⟨net, member, mirrors'⟩ := mirrors.net_origin mirrored member'
    exact ⟨net, member, (mirrors'.joints id used).mp isOn',
      (mirrors.resolve_eq member mirrors').symm⟩
  · rintro ⟨net, member, isOn, rfl⟩
    obtain ⟨mirrored, member', mirrors'⟩ := mirrors.net_image net member
    exact ⟨mirrored, member', (mirrors'.joints id used).mpr isOn, mirrors.resolve_eq member mirrors'⟩

/-- A tick begins without a fault for both circuits or for none. -/
theorem begins_iff (interval : Nat) :
    (after.beginTick interval).2 = none ↔ (before.beginTick interval).2 = none := by
  rw [beginTick_none_iff, beginTick_none_iff]
  constructor
  · exact fun begins id node found => begins (rename id) node (mirrors.image id node found).2
  · intro begins id node found
    rcases mirrors.origin id node found with ⟨original, _, foundBefore⟩ | ⟨_, joint⟩
    · exact begins original node foundBefore
    · rw [Node.begins, Node.beginTick, Node.isJoint_iff.mp joint]
      rfl

/-- The beginning of a tick keeps the correspondence. -/
theorem beginTick {limits : Limits} (faultless : (before.beginTick limits.interval).2 = none) :
    Mirrors rename spare (before.beginTick limits.interval).1
      (after.beginTick limits.interval).1 := by
  have starts := (mirrors.begins_iff limits.interval).mpr faultless
  have nets {circuit : Circuit} (begins : (circuit.started limits .top).2 = none) :
      (Netlist.build (circuit.started limits .top).1).nets = (Netlist.build circuit).nets :=
    nets_of_outline_eq
      (related_started begins : Related (Node.Retains fun _ => []) circuit _).outline_eq
  refine mirrors.changed (nets faultless) (nets starts) ?_ ?_
  all_goals
    rw [beginTick_exact faultless, beginTick_exact starts]
    intro id node found
    obtain ⟨original, here, rfl⟩ := Option.map_eq_some_iff.mp ((Arena.get?_map ..).symm.trans found)
  · obtain ⟨used, foundAfter⟩ := mirrors.image id original here
    exact ⟨used, (Arena.get?_map ..).trans (congrArg (Option.map _) foundAfter)⟩
  · rcases mirrors.origin id original here with ⟨source, rfl, foundBefore⟩ | ⟨isSpare, joint⟩
    · exact .inl ⟨source, rfl, (Arena.get?_map ..).trans (congrArg (Option.map _) foundBefore)⟩
    · exact .inr ⟨isSpare, (Node.isJoint_begun limits.interval original).trans joint⟩

/-- A pass moves an output in both circuits or in none: spare joints are not moved. -/
theorem passMoves (inner : Circuit → Circuit) (initial : Bool) :
    after.passMoves (Node.plainStep inner initial) =
      before.passMoves (Node.plainStep inner initial) := by
  rw [Bool.eq_iff_iff, passMoves_iff, passMoves_iff]
  constructor
  · rintro ⟨id, node, found, moved⟩
    rcases mirrors.origin id node found with ⟨original, rfl, foundBefore⟩ | ⟨_, joint⟩
    · rw [mirrors.arriving] at moved
      exact ⟨original, node, foundBefore, moved⟩
    · rw [Node.plainStep_of_isJoint inner initial (by simpa using joint), Node.staged_outputs,
        PortMap.differsFrom_self] at moved
      cases moved
  · rintro ⟨id, node, found, moved⟩
    rw [← mirrors.arriving] at moved
    exact ⟨rename id, node, (mirrors.image id node found).2, moved⟩

section

variable {inner : Circuit → Circuit}
  (kept : ∀ circuit, Related (Node.Retains fun _ => []) circuit (inner circuit))
include kept

/-- A pass keeps the correspondence. -/
theorem plainPass (initial : Bool) :
    Mirrors rename spare (before.plainPass (Node.plainStep inner initial))
      (after.plainPass (Node.plainStep inner initial)) := by
  refine mirrors.changed (nets_plainPass kept initial before) (nets_plainPass kept initial after)
    (fun id node found => ?_) fun id node found => ?_
  · obtain ⟨previous, foundBefore, rfl⟩ := origin_plainPass found
    obtain ⟨used, foundAfter⟩ := mirrors.image id previous foundBefore
    refine ⟨used, ?_⟩
    rw [node?_plainPass, foundAfter, Option.map_some, mirrors.arriving, mirrors.jointSignal? used]
  · obtain ⟨previous, foundAfter, rfl⟩ := origin_plainPass found
    rcases mirrors.origin id previous foundAfter with ⟨original, rfl, foundBefore⟩ | ⟨isSpare, joint⟩
    · obtain ⟨used, _⟩ := mirrors.image original previous foundBefore
      refine .inl ⟨original, rfl, ?_⟩
      rw [node?_plainPass, foundBefore, Option.map_some, mirrors.arriving, mirrors.jointSignal? used]
    · exact .inr ⟨isSpare, by simpa using joint⟩

/-- Any number of passes keeps the correspondence.

Proof: by induction on the passes. -/
theorem afterPasses (passes : Nat) :
    Mirrors rename spare (before.afterPasses (Node.plainStep inner) passes)
      (after.afterPasses (Node.plainStep inner) passes) := by
  induction passes with
  | zero => exact mirrors
  | succ passes inductionHypothesis => exact inductionHypothesis.plainPass kept _

/-- Both levels report the same. -/
theorem plainReport (maxPasses : Nat) :
    after.plainReport (Node.plainStep inner) maxPasses =
      before.plainReport (Node.plainStep inner) maxPasses := by
  have moves : after.moves (Node.plainStep inner) = before.moves (Node.plainStep inner) :=
    funext fun passes => (mirrors.afterPasses kept passes).passMoves inner _
  rw [Circuit.plainReport, Circuit.plainReport, moves]

/-- Settling a level keeps the correspondence. -/
theorem plainSettle (maxPasses : Nat) :
    Mirrors rename spare (before.plainSettle (Node.plainStep inner) maxPasses)
      (after.plainSettle (Node.plainStep inner) maxPasses) := by
  rw [Circuit.plainSettle, Circuit.plainSettle, mirrors.plainReport kept]
  exact mirrors.afterPasses kept _

end

end Circuit.Mirrors

/-- What pins and switches are driven with between two ticks, by their handles. -/
abbrev Drives := List (NodeId × Signal)

/-- The drives, the nodes having other handles. -/
def Drives.renumbered (rename : NodeId → NodeId) (drives : Drives) : Drives :=
  drives.map fun drive => (rename drive.1, drive.2)

/-- The node driven with a signal, if it can be driven. -/
def Node.drivenWith (signal : Signal) (node : Node Circuit) : Node Circuit :=
  (node.drive? signal).getD node

/-- The circuit with its nodes driven one after the other. -/
def Circuit.driveAll (circuit : Circuit) (drives : Drives) : Circuit :=
  drives.foldl (fun circuit drive => circuit.modifyNode drive.1 (Node.drivenWith drive.2)) circuit

namespace Scheduler

/-- What the evaluation behind a tick of a circuit reports. -/
def report (scheduler : Scheduler) (circuit : Circuit) : Except Fault Settling :=
  (circuit.evaluate scheduler.limits .top scheduler.cache).2.2

/-- Steps one tick after each of some drives, and collects what the evaluations report. -/
def play (scheduler : Scheduler) (circuit : Circuit) :
    List Drives → List (Except Fault Settling) × Scheduler × Circuit
  | [] => ([], scheduler, circuit)
  | drives :: rest =>
    let driven := circuit.driveAll drives
    let (next, stepped, _) := scheduler.step driven
    let (reports, final) := next.play stepped rest
    (scheduler.report driven :: reports, final)

/-- After the first tick the others are played from where it led. -/
theorem play_cons {scheduler next : Scheduler} {circuit stepped : Circuit} {drives : Drives}
    {outcome : TickOutcome}
    (step : scheduler.step (circuit.driveAll drives) = (next, stepped, outcome))
    (rest : List Drives) :
    scheduler.play circuit (drives :: rest) =
      (scheduler.report (circuit.driveAll drives) :: (next.play stepped rest).1,
        (next.play stepped rest).2) := by
  simp only [play, step]

end Scheduler

namespace Circuit

variable {table : Revision → List Net} {rename : NodeId → NodeId} {spare : NodeId → Prop}
  {before after : Circuit}

/-- Driving a node retains it. -/
theorem retains_drivenWith (signal : Signal) (node : Node Circuit) :
    Node.Retains table node (node.drivenWith signal) := by
  obtain ⟨label, position, part, inputs, outputs⟩ := node
  cases part with
  | chip body => exact .of_part rfl rfl rfl
  | _ => exact ⟨rfl, fun _ => Node.faithful_of_not_chip fun body isChip => by cases isChip⟩

/-- Driving nodes retains them. -/
theorem related_driveAll (drives : Drives) (circuit : Circuit) :
    Related (Node.Retains table) circuit (circuit.driveAll drives) := by
  have lasting := Node.lasting_retains table
  induction drives generalizing circuit with
  | nil => exact .refl lasting.refl circuit
  | cons drive rest inductionHypothesis =>
    exact (related_modifyNode lasting.refl circuit drive.1 _
      fun node _ => retains_drivenWith drive.2 node).trans lasting.trans (inductionHypothesis _)

/-- Driving a node and its counterpart keeps the correspondence: a spare joint cannot be driven. -/
theorem Mirrors.drive (mirrors : Mirrors rename spare before after) (id : NodeId) (signal : Signal) :
    Mirrors rename spare (before.modifyNode id (Node.drivenWith signal))
      (after.modifyNode (rename id) (Node.drivenWith signal)) := by
  have nets (circuit : Circuit) (id : NodeId) :
      (Netlist.build (circuit.modifyNode id (Node.drivenWith signal))).nets =
        (Netlist.build circuit).nets :=
    nets_of_outline_eq (related_driveAll [(id, signal)] circuit :
      Related (Node.Retains fun _ => []) circuit _).outline_eq
  refine mirrors.changed (nets before id) (nets after (rename id)) (fun other node found => ?_)
    fun other node found => ?_
  · rw [node?_modifyNode] at found ⊢
    by_cases same : id = other
    · subst same
      rw [if_pos rfl] at found ⊢
      obtain ⟨original, here, rfl⟩ := Option.map_eq_some_iff.mp found
      obtain ⟨used, there⟩ := mirrors.image id original here
      exact ⟨used, by rw [there]; rfl⟩
    · rw [if_neg same] at found
      rw [if_neg fun equal => same (mirrors.injective equal)]
      exact mirrors.image other node found
  · rw [node?_modifyNode] at found
    by_cases same : rename id = other
    · subst same
      rw [if_pos rfl] at found
      obtain ⟨original, there, rfl⟩ := Option.map_eq_some_iff.mp found
      rcases mirrors.origin _ original there with ⟨source, isSource, here⟩ | ⟨isSpare, joint⟩
      · obtain rfl := mirrors.injective isSource
        refine .inl ⟨source, rfl, ?_⟩
        rw [node?_modifyNode, if_pos rfl, here]
        rfl
      · refine .inr ⟨isSpare, ?_⟩
        rwa [Node.drivenWith, Node.drive?, Node.isJoint_iff.mp joint]
    · rw [if_neg same] at found
      refine (mirrors.origin other node found).imp_left fun ⟨source, isSource, here⟩ => ?_
      refine ⟨source, isSource, ?_⟩
      rw [node?_modifyNode, if_neg fun equal : id = source => same (equal ▸ isSource)]
      exact here

/-- The same drives keep the correspondence. -/
theorem Mirrors.driveAll (mirrors : Mirrors rename spare before after) (drives : Drives) :
    Mirrors rename spare (before.driveAll drives) (after.driveAll (drives.renumbered rename)) := by
  induction drives generalizing before after with
  | nil => exact mirrors
  | cons drive rest inductionHypothesis =>
    exact inductionHypothesis (mirrors.drive drive.1 drive.2)

/-- A table that tells the same nets for all contained revisions is agreed with as well. -/
theorem Faithful.congr {circuit : Circuit} (faithful : circuit.Faithful table)
    {table' : Revision → List Net}
    (same : ∀ inner, circuit.Contains inner → table' inner.revision = table inner.revision) :
    circuit.Faithful table' := by
  induction faithful with
  | intro circuit nets bound inner inductionHypothesis =>
    refine .intro circuit (nets.trans (same circuit (.refl circuit)).symm) bound ?_
    intro id node body found isChip
    refine inductionHypothesis id node body found isChip fun other contained => ?_
    exact same other (.inside found isChip contained)

/-- A coherent circuit and one with a fresh revision that mirrors it agree with one table. -/
theorem Mirrors.faithful (mirrors : Mirrors rename spare before after) (coherent : before.Coherent)
    (fresh : ∀ inner, before.Contains inner → inner.revision ≠ after.revision) :
    ∃ table, before.Faithful table ∧ after.Faithful table := by
  obtain ⟨table, faithful⟩ := coherent.faithful
  let table' := Function.update table after.revision (Netlist.build after).nets
  have widened : before.Faithful table' :=
    faithful.congr fun inner contained => Function.update_of_ne (fresh inner contained) ..
  refine ⟨table', widened, ?_⟩
  obtain ⟨_, _, bound, inner⟩ := widened
  have chips (id : NodeId) (node : Node Circuit) (body : Chip Circuit)
      (found : after.node? id = some node) (isChip : node.part = .chip body) :
      ∃ original, before.node? original = some node := by
    rcases mirrors.origin id node found with ⟨original, _, foundBefore⟩ | ⟨_, joint⟩
    · exact ⟨original, foundBefore⟩
    · rw [Node.isJoint_iff, isChip] at joint
      cases joint
  refine .intro after ?_ ?_ ?_
  · simp only [table', Function.update_self]
  · intro id node body found isChip
    obtain ⟨original, foundBefore⟩ := chips id node body found isChip
    exact bound original node body foundBefore isChip
  · intro id node body found isChip
    obtain ⟨original, foundBefore⟩ := chips id node body found isChip
    exact inner original node body foundBefore isChip

/-- The circuit after a tick without caches and faults. -/
def plainTick (limits : Limits) (circuit : Circuit) : Circuit :=
  (circuit.beginTick limits.interval).1.plainSettle
    (Node.plainStep (plainWithin limits.maxPasses limits.maxDepth)) limits.maxPasses

/-- The report of a tick without caches and faults. -/
def tickReport (limits : Limits) (circuit : Circuit) : Settling :=
  (circuit.beginTick limits.interval).1.plainReport
    (Node.plainStep (plainWithin limits.maxPasses limits.maxDepth)) limits.maxPasses

/-- A tick of the scheduler that meets no fault settles the circuit plainly. -/
theorem step_plain {scheduler : Scheduler} {circuit : Circuit} (active : scheduler.suspended = false)
    (faithful : circuit.Faithful table) (knows : scheduler.cache.Knows table)
    (faultless : (circuit.beginTick scheduler.limits.interval).2 = none) :
    scheduler.report circuit = .ok (circuit.tickReport scheduler.limits) ∧
      ∃ next outcome, scheduler.step circuit = (next, circuit.plainTick scheduler.limits, outcome) ∧
        next.limits = scheduler.limits ∧ next.suspended = false ∧ next.cache.Knows table := by
  obtain ⟨cache, evaluated, knowsAfter⟩ := evaluate_top faithful knows faultless
  constructor
  · rw [Scheduler.report, evaluated]
    rfl
  · let next : Scheduler := { scheduler with cache := cache.sweep, ticks := scheduler.ticks + 1 }
    let settled := circuit.tickReport scheduler.limits
    refine ⟨next, .settled settled.changed settled.passes, ?_, rfl, active, knowsAfter.sweep⟩
    unfold Scheduler.step
    rw [if_neg (by rw [active]; decide), evaluated]
    rfl

/-- A plain tick retains the nodes of a circuit. -/
theorem related_plainTick {limits : Limits} {circuit : Circuit}
    (faultless : (circuit.beginTick limits.interval).2 = none) :
    Related (Node.Retains table) circuit (circuit.plainTick limits) := by
  have lasting := Node.lasting_retains table
  have started : (circuit.started limits .top).2 = none := faultless
  exact (related_started started).trans lasting.trans
    (related_afterPasses lasting (related_plainWithin lasting _ _) _ _)

/-- A plain tick keeps the correspondence, and both circuits report the same. -/
theorem Mirrors.plainTick (mirrors : Mirrors rename spare before after) {limits : Limits}
    (faultless : (before.beginTick limits.interval).2 = none) :
    after.tickReport limits = before.tickReport limits ∧
      Mirrors rename spare (before.plainTick limits) (after.plainTick limits) := by
  have kept := related_plainWithin (Node.lasting_retains fun _ => []) limits.maxPasses limits.maxDepth
  have begun := mirrors.beginTick faultless
  exact ⟨begun.plainReport kept _, begun.plainSettle kept _⟩

/-- The first of some ticks settles the driven circuit plainly if its evaluation reports, and the others
are played from there. -/
theorem play_plain {scheduler : Scheduler} {circuit : Circuit} (active : scheduler.suspended = false)
    (faithful : circuit.Faithful table) (knows : scheduler.cache.Knows table) {drives : Drives}
    (begins : ((circuit.driveAll drives).beginTick scheduler.limits.interval).2 = none)
    (rest : List Drives) :
    ∃ next : Scheduler, next.limits = scheduler.limits ∧ next.suspended = false ∧
      next.cache.Knows table ∧
      ((circuit.driveAll drives).plainTick scheduler.limits).Faithful table ∧
      scheduler.play circuit (drives :: rest) =
        (.ok ((circuit.driveAll drives).tickReport scheduler.limits) ::
            (next.play ((circuit.driveAll drives).plainTick scheduler.limits) rest).1,
          (next.play ((circuit.driveAll drives).plainTick scheduler.limits) rest).2) := by
  have driven : (circuit.driveAll drives).Faithful table :=
    (related_driveAll drives circuit).faithful faithful
  obtain ⟨report, next, outcome, step, limits, stillActive, knowsAfter⟩ :=
    step_plain active driven knows begins
  refine ⟨next, limits, stillActive, knowsAfter, (related_plainTick begins).faithful driven, ?_⟩
  rw [Scheduler.play_cons step, report]

/-- In ticks without a fault the first one begins for the driven circuit. -/
theorem begins_of_play {scheduler : Scheduler} {circuit : Circuit} {drives : Drives}
    {rest : List Drives}
    (faultless : ∀ report ∈ (scheduler.play circuit (drives :: rest)).1,
      ∃ settling, report = .ok settling) :
    ((circuit.driveAll drives).beginTick scheduler.limits.interval).2 = none := by
  obtain ⟨settling, reported⟩ :
      ∃ settling, scheduler.report (circuit.driveAll drives) = .ok settling := by
    refine faultless _ ?_
    rw [Scheduler.play_cons rfl]
    exact List.mem_cons_self
  exact faultless_of_evaluate (Nat.zero_le _) reported

/-- Ticks without a fault retain the nodes of a circuit. So they leave its wires and its revision.

Proof: by induction on the ticks. -/
theorem related_play {scheduler : Scheduler} {circuit : Circuit} (active : scheduler.suspended = false)
    (faithful : circuit.Faithful table) (knows : scheduler.cache.Knows table) {ticks : List Drives}
    (faultless : ∀ report ∈ (scheduler.play circuit ticks).1, ∃ settling, report = .ok settling) :
    Related (Node.Retains table) circuit (scheduler.play circuit ticks).2.2 := by
  have lasting := Node.lasting_retains table
  induction ticks generalizing scheduler circuit with
  | nil => exact .refl lasting.refl circuit
  | cons drives rest inductionHypothesis =>
    have begins := begins_of_play faultless
    obtain ⟨next, _, stillActive, knowsAfter, settled, played⟩ :=
      play_plain active faithful knows begins rest
    rw [played] at faultless ⊢
    have first : Related (Node.Retains table) circuit
        ((circuit.driveAll drives).plainTick scheduler.limits) :=
      (related_driveAll drives circuit).trans lasting.trans (related_plainTick begins)
    exact first.trans lasting.trans (inductionHypothesis stillActive settled knowsAfter
      (List.forall_mem_cons.mp faultless).2)

/-- Ticks keep the correspondence and the reports, as long as none of them meets a fault.

Proof: by induction on the ticks. Both circuits agree with one table, so that neither of the caches
makes a difference. -/
theorem play_mirrors {left right : Scheduler} (sameLimits : left.limits = right.limits)
    (leftActive : left.suspended = false) (rightActive : right.suspended = false)
    (leftKnows : left.cache.Knows table) (rightKnows : right.cache.Knows table)
    (mirrors : Mirrors rename spare before after) (beforeFaithful : before.Faithful table)
    (afterFaithful : after.Faithful table) {ticks : List Drives}
    (faultless : ∀ report ∈ (left.play before ticks).1, ∃ settling, report = .ok settling) :
    (right.play after (ticks.map (Drives.renumbered rename))).1 = (left.play before ticks).1 ∧
      Mirrors rename spare (left.play before ticks).2.2
        (right.play after (ticks.map (Drives.renumbered rename))).2.2 := by
  induction ticks generalizing left right before after with
  | nil => exact ⟨rfl, mirrors⟩
  | cons drives rest inductionHypothesis =>
    have driven := mirrors.driveAll drives
    have begins := begins_of_play faultless
    have afterBegins := (driven.begins_iff left.limits.interval).mpr begins
    obtain ⟨sameReport, settled⟩ := driven.plainTick begins
    obtain ⟨leftNext, leftLimits, leftActive', leftKnows', leftFaithful, leftPlayed⟩ :=
      play_plain leftActive beforeFaithful leftKnows begins rest
    rw [sameLimits] at afterBegins
    obtain ⟨rightNext, rightLimits, rightActive', rightKnows', rightFaithful, rightPlayed⟩ :=
      play_plain rightActive afterFaithful rightKnows afterBegins
        (rest.map (Drives.renumbered rename))
    rw [← sameLimits] at rightLimits rightFaithful rightPlayed
    rw [List.map_cons, leftPlayed, rightPlayed, sameReport]
    rw [leftPlayed] at faultless
    obtain ⟨reports, finals⟩ := inductionHypothesis (leftLimits.trans rightLimits.symm) leftActive'
      rightActive' leftKnows' rightKnows' settled leftFaithful rightFaithful
      (List.forall_mem_cons.mp faultless).2
    exact ⟨congrArg (_ :: ·) reports, finals⟩

end Circuit

end Breadboard
