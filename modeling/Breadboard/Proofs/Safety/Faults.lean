import Breadboard.Engine.Scheduler
import Breadboard.Proofs.Engine.Bound
import Breadboard.Proofs.Engine.Settlement
import Breadboard.Proofs.Part.Counting

/-!
# What makes a tick fault

Once a tick has begun at the top, its evaluation comes to an end with a report, whatever the circuit,
the limits and the kept netlists. So a tick faults exactly if it does not begin, which is where an
oscillator of the level has no number left to count to.
-/

namespace Breadboard

/-- Whatever circuit is settled, a report comes of it. -/
def InnerSettling.Faultless (settleInner : InnerSettling) : Prop :=
  ∀ circuit cache, ∃ report, (settleInner circuit cache).2.2 = .ok report

/-- No step faults if the circuits inside chips are settled without one. -/
theorem Node.stepIn_faultless {settleInner : InnerSettling} (faultless : settleInner.Faultless)
    (initial : Bool) (node : Node Circuit) (cache : NetlistCache) :
    (node.stepIn settleInner initial cache).2.2 = none := by
  cases part : node.part with
  | chip body =>
    obtain ⟨report, reports⟩ := faultless (body.drivenAsBound node.inputs) cache
    simp only [stepIn, part, Chip.step_eq_holding]
    by_cases due : body.isDue initial node.inputs = true
    · simp only [if_pos due]
      revert reports
      rcases settleInner (body.drivenAsBound node.inputs) cache with ⟨reached, after, fault | report⟩
      · intro reports
        cases reports
      · intro _
        rfl
    · simp only [if_neg due]
  | _ => simp only [stepIn, part]

/-- A tick that does not begin for a node does not because the count of an oscillator is full. -/
theorem Node.beginTick_error {interval : Nat} {node left : Node Circuit} {fault : Fault}
    (faults : node.beginTick interval = .error (fault, left)) : fault = .countOverflow := by
  cases part : node.part with
  | clock oscillator =>
    simp only [beginTick, part] at faults
    cases advanced : oscillator.advance interval with
    | ok next =>
      rw [advanced] at faults
      cases faults
    | error failure =>
      rw [advanced] at faults
      cases faults
      exact Oscillator.advance_error advanced
  | _ =>
    simp only [beginTick, part] at faults
    cases faults

namespace Circuit

variable {step : Node Circuit → NetlistCache → Node Circuit × NetlistCache × Option Fault}

/-- Nodes that are stepped without faults one by one are stepped without faults in turn. -/
theorem stepSlots_faultless (each : ∀ node cache, (step node cache).2.2 = none)
    (slots : List (Option (Node Circuit))) (cache : NetlistCache) :
    ∃ changed, (stepSlots step slots cache).2.2 = .ok changed := by
  induction slots generalizing cache with
  | nil => exact ⟨false, rfl⟩
  | cons slot rest inductionHypothesis =>
    cases slot with
    | none => exact inductionHypothesis cache
    | some node =>
      have own := each node cache
      simp only [stepSlots]
      revert own
      rcases step node cache with ⟨stepped, after, _ | fault⟩
      · intro _
        obtain ⟨changed, reports⟩ := inductionHypothesis after
        simp only [reports, Except.map]
        exact ⟨_, rfl⟩
      · intro own
        cases own

/-- A pass in which no node faults does not fault. -/
theorem pass_faultless (each : ∀ node cache, (step node cache).2.2 = none) (netlist : Netlist)
    (circuit : Circuit) (cache : NetlistCache) :
    ∃ changed, (pass step netlist circuit cache).2.2 = .ok changed := by
  simp only [pass]
  generalize circuit.stage (netlist.nets.map fun net => (net, net.resolve circuit)) = staged
  obtain ⟨changed, reports⟩ := stepSlots_faultless each staged.nodes.slots cache
  simp only [reports]
  exact ⟨changed, rfl⟩

/-- Passes that do not fault one by one do not fault one after the other. -/
theorem passes_faultless {pass : Bool → Circuit → NetlistCache →
      Circuit × NetlistCache × Except Fault Bool}
    (each : ∀ initial circuit cache, ∃ changed, (pass initial circuit cache).2.2 = .ok changed)
    (left : Nat) (report : Settling) (circuit : Circuit) (cache : NetlistCache) :
    ∃ final, (passes pass left report circuit cache).2.2 = .ok final := by
  induction left generalizing report circuit cache with
  | zero => exact ⟨report, rfl⟩
  | succ left inductionHypothesis =>
    obtain ⟨changed, reports⟩ := each (report.passes == 0) circuit cache
    simp only [passes]
    revert reports
    rcases pass (report.passes == 0) circuit cache with ⟨reached, after, fault | changed⟩
    · intro reports
      cases reports
    · intro _
      simp only
      split
      · exact ⟨_, rfl⟩
      · exact inductionHypothesis _ reached after

/-- A level is settled without a fault if the circuits inside its chips are. -/
theorem settle_faultless {settleInner : InnerSettling} (faultless : settleInner.Faultless)
    (maxPasses : Nat) (circuit : Circuit) (cache : NetlistCache) :
    ∃ report, (circuit.settle settleInner maxPasses cache).2.2 = .ok report :=
  passes_faultless
    (fun initial => pass_faultless (Node.stepIn_faultless faultless initial) _) maxPasses .idle circuit _

/-- The circuit inside a chip is settled without a fault, however deep, if there is none at the depth
limit.

Proof: by induction on the levels left. -/
theorem settleWithin_faultless (maxPasses : Nat) (report : Settling) (levels : Nat) :
    (settleWithin maxPasses (.ok report) levels).Faultless := by
  induction levels with
  | zero => exact fun _ _ => ⟨report, rfl⟩
  | succ levels inductionHypothesis =>
    exact fun circuit cache => settle_faultless inductionHypothesis maxPasses circuit.quieted cache

/-- A tick that does not begin for nodes in slots does not because a count is full. -/
theorem beginSlots_fault {interval : Nat} {slots : List (Option (Node Circuit))} {fault : Fault}
    (faults : (beginSlots interval slots).2 = some fault) : fault = .countOverflow := by
  induction slots with
  | nil => cases faults
  | cons slot rest inductionHypothesis =>
    cases slot with
    | none => exact inductionHypothesis faults
    | some node =>
      simp only [beginSlots] at faults
      cases begins : node.beginTick interval with
      | ok begun =>
        rw [begins] at faults
        exact inductionHypothesis faults
      | error failure =>
        rw [begins] at faults
        cases faults
        exact Node.beginTick_error begins

/-- Where a tick begins without a fault, every running oscillator of the level can count on. -/
theorem advances_of_faultless {circuit : Circuit} {interval : Nat}
    (faultless : (circuit.beginTick interval).2 = none) : circuit.Advances := by
  intro id node oscillator found isClock running
  have begins := beginTick_none_iff.mp faultless id node found
  by_contra full
  simp only [Node.begins, Node.beginTick, isClock, Oscillator.advance, running, Bool.not_true,
    Bool.false_eq_true, if_false, if_neg full] at begins
  cases begins

/-- An evaluation at the top that has begun comes to an end with a report. -/
theorem evaluate_reports {limits : Limits} {circuit : Circuit} (cache : NetlistCache)
    (faultless : (circuit.beginTick limits.interval).2 = none) :
    ∃ report, (circuit.evaluate limits .top cache).2.2 = .ok report := by
  rw [evaluate_of_begun cache faultless]
  exact settle_faultless (settleWithin_faultless limits.maxPasses .tooDeep limits.maxDepth)
    limits.maxPasses (circuit.beginTick limits.interval).1 cache

/-- An evaluation at the top faults exactly if some running oscillator of the level cannot count on. -/
theorem evaluate_faulted_iff {limits : Limits} {circuit : Circuit} {cache : NetlistCache} :
    (∃ fault, (circuit.evaluate limits .top cache).2.2 = .error fault) ↔ ¬circuit.Advances := by
  constructor
  · rintro ⟨fault, faults⟩ advances
    obtain ⟨report, reports⟩ := evaluate_reports cache (advances.faultless limits.interval)
    rw [faults] at reports
    cases reports
  · intro stuck
    cases begun : (circuit.beginTick limits.interval).2 with
    | none => exact absurd (advances_of_faultless begun) stuck
    | some fault => exact ⟨fault, congrArg (·.2.2) (evaluate_of_fault cache begun)⟩

/-- The only fault of an evaluation at the top is that of a full count. -/
theorem evaluate_fault {limits : Limits} {circuit : Circuit} {cache : NetlistCache} {fault : Fault}
    (faults : (circuit.evaluate limits .top cache).2.2 = .error fault) : fault = .countOverflow := by
  cases begun : (circuit.beginTick limits.interval).2 with
  | none =>
    obtain ⟨report, reports⟩ := evaluate_reports cache begun
    rw [faults] at reports
    cases reports
  | some failure =>
    rw [evaluate_of_fault cache begun] at faults
    cases faults
    exact beginSlots_fault begun

end Circuit

/-- The tick was given up. -/
def TickOutcome.isFault : TickOutcome → Bool
  | .faulted _ => true
  | _ => false

namespace Scheduler

/-- A tick that is let through is given up exactly if some running oscillator of the level cannot count
on. -/
theorem isFault_step_iff {scheduler : Scheduler} (active : scheduler.suspended = false)
    (circuit : Circuit) : (scheduler.step circuit).2.2.isFault = true ↔ ¬circuit.Advances := by
  have evaluated := @Circuit.evaluate_faulted_iff scheduler.limits circuit scheduler.cache
  rw [← evaluated, step, active, if_neg (by decide)]
  rcases circuit.evaluate scheduler.limits .top scheduler.cache with ⟨reached, after, fault | report⟩
  · exact ⟨fun _ => ⟨fault, rfl⟩, fun _ => rfl⟩
  · constructor
    · intro faulted
      cases faulted
    · rintro ⟨fault, faults⟩
      cases faults

/-- A tick that is not let through is not given up. -/
theorem isFault_step_of_suspended {scheduler : Scheduler} (suspended : scheduler.suspended = true)
    (circuit : Circuit) : (scheduler.step circuit).2.2.isFault = false := by
  rw [step, if_pos suspended]
  rfl

end Scheduler

end Breadboard
