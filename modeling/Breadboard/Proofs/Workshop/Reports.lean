import Breadboard.Proofs.Engine.Mirroring
import Breadboard.Proofs.Engine.Stillness
import Breadboard.Proofs.Workshop.Soundness

/-!
# What an unchanged report tells

A report notes the changes that passes make. A component drives its outputs in passes and is compared
there, but an oscillator drives its output before the first pass, where nothing compares it. So an
evaluation that reports no change has left all outputs, those of oscillators excepted: an oscillator may
have gone from one phase to the other unnoticed, if nothing that it feeds changed an output in turn.
-/

namespace Breadboard

namespace Node

/-- A node drives what it drove before, unless it is an oscillator, which may have taken up driving the
output that is its own afterwards. -/
def DrivesOn (before after : Node Circuit) : Prop :=
  after.outputs = before.outputs ∨
    ∃ earlier oscillator, before.part = .clock earlier ∧ after.part = .clock oscillator ∧
      after.outputs = before.outputs.insert "out" (.bit oscillator.output)

/-- Quieting a node leaves what it drives, unless it is a joint or an oscillator. -/
theorem drivesOn_quieted {node : Node Circuit} (plain : node.isJoint = false) :
    node.DrivesOn node.quieted := by
  obtain ⟨label, position, part, inputs, outputs⟩ := node
  cases part with
  | joint => cases plain
  | clock oscillator => exact .inr ⟨oscillator, oscillator, rfl, rfl, rfl⟩
  | _ => exact .inl rfl

/-- The beginning of a tick leaves what a node drives, unless it is a joint or an oscillator. -/
theorem drivesOn_begun {interval : Nat} {node : Node Circuit} (begins : node.begins interval = true)
    (plain : node.isJoint = false) : node.DrivesOn (node.begun interval) := by
  cases part : node.part with
  | clock oscillator =>
    simp only [Node.begins, begun, beginTick, part] at begins ⊢
    cases advances : oscillator.advance interval with
    | error fault =>
      rw [advances] at begins
      cases begins
    | ok advanced => exact .inr ⟨oscillator, advanced, part, rfl, rfl⟩
  | _ =>
    simp only [begun, beginTick, part]
    exact drivesOn_quieted plain

/-- A node that drives the same afterwards and is the same oscillator, if it is one. -/
structure Persists (before after : Node Circuit) : Prop where
  isJoint : after.isJoint = before.isJoint
  outputs : after.outputs = before.outputs
  clock : ∀ oscillator, before.part = .clock oscillator → after.part = .clock oscillator

theorem Persists.refl (node : Node Circuit) : node.Persists node :=
  ⟨rfl, rfl, fun _ => id⟩

theorem Persists.trans {first second third : Node Circuit} (one : first.Persists second)
    (two : second.Persists third) : first.Persists third :=
  ⟨two.isJoint.trans one.isJoint, two.outputs.trans one.outputs,
    fun oscillator => two.clock oscillator ∘ one.clock oscillator⟩

/-- What a node drives on is still so after it drove the same. -/
theorem DrivesOn.persists {before between after : Node Circuit} (drives : before.DrivesOn between)
    (persists : between.Persists after) : before.DrivesOn after := by
  rcases drives with same | ⟨earlier, oscillator, wasClock, isClock, driven⟩
  · exact .inl (persists.outputs.trans same)
  · exact .inr ⟨earlier, oscillator, wasClock, persists.clock oscillator isClock,
      persists.outputs.trans driven⟩

/-- A step leaves an oscillator as it is. -/
theorem boundStep_of_clock (inner : Circuit → Circuit) (initial : Bool) {node : Node Circuit}
    {oscillator : Oscillator} (isClock : node.part = .clock oscillator) :
    node.boundStep inner initial = node := by
  rw [boundStep_of_not_chip inner initial (by simp [isClock]), step, isClock]

end Node

namespace Circuit

variable {circuit : Circuit} {inner : Circuit → Circuit} {id : NodeId} {node : Node Circuit}

/-- A quiet pass has a node that is no joint drive the same as before. -/
theorem persists_of_quiet {initial : Bool} (found : circuit.node? id = some node)
    (plain : node.isJoint = false)
    (quiet : circuit.passMoves (Node.boundStep inner initial) = false) :
    ∃ later, (circuit.plainPass (Node.boundStep inner initial)).node? id = some later ∧
      node.Persists later := by
  refine ⟨_, node?_plainPass_of_not_isJoint _ found plain, ?_, ?_, ?_⟩
  · simp
  · exact outputs_of_quiet (Node.writes_boundStep inner initial) quiet found
  · intro oscillator isClock
    rw [Node.boundStep_of_clock inner initial (by simpa using isClock), Node.staged_part, isClock]

/-- Quiet passes have a node that is no joint drive the same as before.

Proof: by induction on the passes. -/
theorem persists_of_quiet_passes (found : circuit.node? id = some node) (plain : node.isJoint = false)
    {passes : Nat} (quiet : ∀ pass < passes, circuit.moves (Node.boundStep inner) pass = false) :
    ∃ later, (circuit.afterPasses (Node.boundStep inner) passes).node? id = some later ∧
      node.Persists later := by
  induction passes with
  | zero => exact ⟨node, found, .refl node⟩
  | succ passes inductionHypothesis =>
    obtain ⟨before, foundBefore, persists⟩ :=
      inductionHypothesis fun pass earlier => quiet pass (Nat.lt_succ_of_lt earlier)
    obtain ⟨later, foundLater, again⟩ := persists_of_quiet foundBefore (persists.isJoint.trans plain)
      (quiet passes (Nat.lt_succ_self passes))
    exact ⟨later, foundLater, persists.trans again⟩

/-- A level that is settled without a reported change has every node that is no joint drive the same as
before its passes. -/
theorem persists_of_unchanged {maxPasses : Nat} (found : circuit.node? id = some node)
    (plain : node.isJoint = false)
    (unchanged : (circuit.plainReport (Node.boundStep inner) maxPasses).changed = false) :
    ∃ later, (circuit.plainSettle (Node.boundStep inner) maxPasses).node? id = some later ∧
      node.Persists later := by
  have concludes := Settling.ofMoves_concludes (circuit.moves (Node.boundStep inner)) maxPasses
  refine persists_of_quiet_passes found plain fun pass earlier => ?_
  rw [Bool.eq_false_iff] at unchanged ⊢
  intro moved
  exact unchanged (concludes.accounts.changed.mpr ⟨pass, earlier, moved⟩)

/-- What comes before the passes of an evaluation leaves what nodes drive, unless they are joints or
oscillators. -/
theorem drivesOn_started {limits : Limits} {context : EvalContext}
    (faultless : (circuit.started limits context).2 = none) (found : circuit.node? id = some node)
    (plain : node.isJoint = false) :
    ∃ begun, (circuit.started limits context).1.node? id = some begun ∧ begun.isJoint = false ∧
      node.DrivesOn begun := by
  unfold started at faultless ⊢
  by_cases advances : context.advance = true
  · rw [if_pos advances] at faultless ⊢
    have begins := beginTick_none_iff.mp faultless id node found
    refine ⟨node.begun limits.interval, ?_, (Node.isJoint_begun _ node).trans plain,
      Node.drivesOn_begun begins plain⟩
    rw [beginTick_exact faultless, node?, Arena.get?_map]
    exact congrArg (Option.map _) found
  · rw [if_neg advances]
    refine ⟨node.quieted, ?_, (Node.isJoint_quieted node).trans plain, Node.drivesOn_quieted plain⟩
    rw [node?_quieted, found, Option.map_some]

/-- An evaluation that reports no change leaves what nodes drive, unless they are joints or oscillators.

Proof: beyond the depth limit nothing is done. Within it, the evaluation settles by the pins that its
chips go by what the tick has begun for, and a settling that reports no change made quiet passes only. -/
theorem drivesOn_of_unchanged {table : Revision → List Net} (tabled : circuit.Tabled table)
    {limits : Limits} {context : EvalContext} {cache after : NetlistCache} (knows : cache.Knows table)
    {final : Circuit} {report : Settling}
    (evaluated : circuit.evaluate limits context cache = (final, after, .ok report))
    (unchanged : report.changed = false) (found : circuit.node? id = some node)
    (plain : node.isJoint = false) :
    ∃ later, final.node? id = some later ∧ node.DrivesOn later := by
  rcases Nat.lt_or_ge limits.maxDepth context.depth with deep | inDepth
  · rw [evaluate_of_deep deep] at evaluated
    obtain ⟨rfl, -⟩ := Prod.mk.inj evaluated
    exact ⟨node, found, .inl rfl⟩
  · have faultless : (circuit.started limits context).2 = none :=
      faultless_of_evaluate inDepth (congrArg (fun outcome => outcome.2.2) evaluated)
    obtain ⟨begun, foundBegun, plainBegun, drives⟩ := drivesOn_started faultless found plain
    have invariant := invariant_tabled table
    have settled := settle_bound (settleWithin_bound table limits.maxPasses (context.below limits)
        (limits.maxDepth - context.depth))
      (invariant.boundWithin limits.maxPasses (limits.maxDepth - context.depth)) limits.maxPasses
      (invariant.lasts (invariant.related_started limits context circuit) tabled) knows
    rw [evaluate_eq inDepth, faultless] at evaluated
    simp only at evaluated
    rw [evaluated] at settled
    obtain ⟨rfl, ⟨rfl, -⟩, -⟩ := settled
    obtain ⟨later, foundLater, persists⟩ := persists_of_unchanged foundBegun plainBegun unchanged
    exact ⟨later, foundLater, drives.persists persists⟩

end Circuit

namespace Workshop

/-- Whatever was done in a workshop, an evaluation of one of its circuits that reports no change, at any
depth and whether oscillators advance or not, leaves every node of the circuit that is no joint driving
what it drove; except that an oscillator, which no report tells of, drives the output that it has
afterwards at its port `out`, and at other ports what it drove. -/
theorem unreported_only_by_clocks (actions : List Action) {address : Address} {circuit final : Circuit}
    {limits : Limits} {context : EvalContext} {after : NetlistCache} {report : Settling}
    (found : (opened.run actions).circuit? address = some circuit)
    (evaluated : circuit.evaluate limits context (opened.run actions).cache = (final, after, .ok report))
    (unchanged : report.changed = false) :
    ∀ id node, circuit.node? id = some node → node.isJoint = false →
      ∃ later, final.node? id = some later ∧
        (later.outputs = node.outputs ∨
          ∃ earlier oscillator, node.part = .clock earlier ∧ later.part = .clock oscillator ∧
            later.outputs = node.outputs.insert "out" (.bit oscillator.output)) := by
  obtain ⟨table, sound⟩ := sound_run actions
  intro id node here plain
  exact Circuit.drivesOn_of_unchanged (sound.tabled_of_circuit? found) sound.knows evaluated unchanged
    here plain

/-- A switch with a light, and a clock in its high phase. They are settled once while the clock stands
still, and then the clock is stopped. -/
def clockedLamp : List Action :=
  [.create,
    .edit ⟨0, []⟩ (.add (.ofPart (.switch true))),
    .edit ⟨0, []⟩ (.add (.ofPart (.clock ⟨⟨10.0⟩, true, true, 0⟩))),
    .edit ⟨0, []⟩ (.add (.ofPart (.light false))),
    .edit ⟨0, []⟩ (.connect ⟨0, "out"⟩ ⟨2, "in"⟩),
    .evaluate ⟨0, []⟩ .standard ⟨0, false⟩,
    .adjust ⟨0, []⟩ 1 Oscillator.toggleRunning]

/-- The tick that follows when the clock was stopped reports no change, and the switch drives on. -/
theorem clockedLamp_unreported : ∃ circuit final after node later,
    (opened.run clockedLamp).circuit? ⟨0, []⟩ = some circuit ∧
      circuit.evaluate .standard .top (opened.run clockedLamp).cache =
        (final, after, .ok ⟨false, 2, false, false⟩) ∧
      circuit.node? 0 = some node ∧ final.node? 0 = some later ∧
      (later.outputs = node.outputs ∨
        ∃ earlier oscillator, node.part = .clock earlier ∧ later.part = .clock oscillator ∧
          later.outputs = node.outputs.insert "out" (.bit oscillator.output)) := by
  have tick : ((opened.run clockedLamp).circuit? ⟨0, []⟩).map (fun circuit =>
      ((circuit.evaluate .standard .top (opened.run clockedLamp).cache).2.2.toOption,
        (circuit.node? 0).map Node.isJoint)) =
      some (some ⟨false, 2, false, false⟩, some false) := by
    decide +kernel
  obtain ⟨circuit, found, facts⟩ := Option.map_eq_some_iff.mp tick
  simp only [Prod.mk.injEq] at facts
  obtain ⟨reports, switches⟩ := facts
  obtain ⟨node, here, plain⟩ := Option.map_eq_some_iff.mp switches
  rcases outcome : circuit.evaluate .standard .top (opened.run clockedLamp).cache with
    ⟨final, after, fault | report⟩
  · rw [outcome] at reports
    cases reports
  · rw [outcome] at reports
    cases reports
    obtain ⟨later, there, drives⟩ := unreported_only_by_clocks clockedLamp found outcome rfl 0 node here plain
    exact ⟨circuit, final, after, node, later, found, outcome, here, there, drives⟩

/-- In this tick the clock, which is no joint, falls, and no change is reported. -/
theorem clockedLamp_falls : ∃ circuit final after node later,
    (opened.run clockedLamp).circuit? ⟨0, []⟩ = some circuit ∧
      circuit.evaluate .standard .top (opened.run clockedLamp).cache =
        (final, after, .ok ⟨false, 2, false, false⟩) ∧
      circuit.node? 1 = some node ∧ final.node? 1 = some later ∧ node.isJoint = false ∧
      node.outputs.get? "out" = some (.bit true) ∧ later.outputs.get? "out" = some (.bit false) := by
  have tick : ((opened.run clockedLamp).circuit? ⟨0, []⟩).map (fun circuit =>
      let outcome := circuit.evaluate .standard .top (opened.run clockedLamp).cache
      (outcome.2.2.toOption,
        (circuit.node? 1).map fun node => (node.isJoint, node.outputs.get? "out"),
        (outcome.1.node? 1).map fun node => node.outputs.get? "out")) =
      some (some ⟨false, 2, false, false⟩, some (false, some (.bit true)), some (some (.bit false))) := by
    decide +kernel
  obtain ⟨circuit, found, facts⟩ := Option.map_eq_some_iff.mp tick
  simp only [Prod.mk.injEq] at facts
  obtain ⟨reports, before, afterwards⟩ := facts
  obtain ⟨node, here, driven⟩ := Option.map_eq_some_iff.mp before
  obtain ⟨plain, high⟩ := Prod.mk.inj driven
  obtain ⟨later, there, low⟩ := Option.map_eq_some_iff.mp afterwards
  rcases outcome : circuit.evaluate .standard .top (opened.run clockedLamp).cache with
    ⟨final, after, fault | report⟩
  · rw [outcome] at reports
    cases reports
  · rw [outcome] at reports there
    cases reports
    exact ⟨circuit, final, after, node, later, found, outcome, here, there, plain, high, low⟩

end Workshop

end Breadboard
