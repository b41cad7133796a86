import Breadboard.Proofs.Safety.Runs
import Breadboard.Run.Batch

/-!
# Ticks one after the other

What a scheduler carries from one tick to the next, besides its count, is the netlists that it keeps. If a
table tells the nets of a circuit on every level, and the kept netlists agree with it, then they make no
difference: the circuit goes on as it would with any other scheduler of the same limits, whether its
ticks settle or fault.
-/

namespace Breadboard

namespace RunSummary

/-- The summary of two runs, one after the other. -/
def join (first second : RunSummary) : RunSummary :=
  ⟨first.ticks + second.ticks, first.changed + second.changed, first.faulted + second.faulted⟩

/-- The summary of ticks with some outcomes. -/
def total (outcomes : List TickOutcome) : RunSummary :=
  outcomes.foldl add ⟨0, 0, 0⟩

variable (summary : RunSummary)

/-- One more tick is joined to a summary. -/
theorem add_eq_join (outcome : TickOutcome) : summary.add outcome = summary.join (total [outcome]) := by
  cases outcome with
  | settled changed passes => cases changed <;> rfl
  | _ => rfl

/-- Further ticks are joined to a summary.

Proof: by induction on the outcomes. -/
theorem foldl_add (outcomes : List TickOutcome) :
    outcomes.foldl add summary = summary.join (total outcomes) := by
  induction outcomes generalizing summary with
  | nil => rfl
  | cons outcome rest inductionHypothesis =>
    rw [total, List.foldl_cons, List.foldl_cons, inductionHypothesis, inductionHypothesis (add _ outcome),
      add_eq_join, add_eq_join ⟨0, 0, 0⟩]
    simp only [join, Nat.add_assoc, Nat.zero_add]

/-- The summary of one tick and further ones. -/
theorem total_cons (outcome : TickOutcome) (rest : List TickOutcome) :
    total (outcome :: rest) = (total [outcome]).join (total rest) :=
  foldl_add (total [outcome]) rest

/-- The summary of ticks and further ones. -/
theorem total_append (outcomes later : List TickOutcome) :
    total (outcomes ++ later) = (total outcomes).join (total later) := by
  rw [total, List.foldl_append]
  exact foldl_add (total outcomes) later

/-- Ticks that are all let through are evaluated or given up. -/
theorem total_of_not_skipped {outcomes : List TickOutcome} (through : .skipped ∉ outcomes) :
    (total outcomes).ticks + (total outcomes).faulted = outcomes.length := by
  induction outcomes with
  | nil => rfl
  | cons outcome rest inductionHypothesis =>
    have later := inductionHypothesis fun member => through (.tail _ member)
    rw [total_cons, List.length_cons, ← later]
    cases outcome with
    | skipped => exact absurd (.head _) through
    | settled changed passes =>
      change 0 + 1 + (total rest).ticks + (0 + (total rest).faulted) = _
      omega
    | faulted error =>
      change 0 + (total rest).ticks + (0 + 1 + (total rest).faulted) = _
      omega

end RunSummary

namespace Scheduler

/-- Some manual ticks, one after the other. -/
def steps (scheduler : Scheduler) (circuit : Circuit) (ticks : Nat) :
    Scheduler × Circuit × List TickOutcome :=
  run step (List.replicate ticks .step) scheduler circuit

variable {table : Revision → List Net} {limits : Limits} {scheduler : Scheduler} {circuit : Circuit}

/-- Ticks begin with the first. -/
theorem steps_succ (scheduler : Scheduler) (circuit : Circuit) (ticks : Nat) :
    scheduler.steps circuit (ticks + 1) =
      (((scheduler.step circuit).1.steps (scheduler.step circuit).2.1 ticks).1,
        ((scheduler.step circuit).1.steps (scheduler.step circuit).2.1 ticks).2.1,
        (scheduler.step circuit).2.2 ::
          ((scheduler.step circuit).1.steps (scheduler.step circuit).2.1 ticks).2.2) := rfl

/-- Ticks are made in two parts.

Proof: by induction on the ticks of the first part. -/
theorem steps_add (scheduler : Scheduler) (circuit : Circuit) (first second : Nat) :
    scheduler.steps circuit (first + second) =
      (((scheduler.steps circuit first).1.steps (scheduler.steps circuit first).2.1 second).1,
        ((scheduler.steps circuit first).1.steps (scheduler.steps circuit first).2.1 second).2.1,
        (scheduler.steps circuit first).2.2 ++
          ((scheduler.steps circuit first).1.steps (scheduler.steps circuit first).2.1 second).2.2) := by
  induction first generalizing scheduler circuit with
  | zero =>
    rw [Nat.zero_add]
    rfl
  | succ first inductionHypothesis =>
    rw [Nat.succ_add, steps_succ, inductionHypothesis]
    rfl

/-- Every tick has an outcome. -/
theorem length_steps (scheduler : Scheduler) (circuit : Circuit) (ticks : Nat) :
    (scheduler.steps circuit ticks).2.2.length = ticks := by
  induction ticks generalizing scheduler circuit with
  | zero => rfl
  | succ ticks inductionHypothesis =>
    rw [steps_succ, List.length_cons, inductionHypothesis]

/-- A tick changes a scheduler in nothing but its cache and its count, which counts the evaluated ticks. -/
theorem step_frame (scheduler : Scheduler) (circuit : Circuit) :
    (scheduler.step circuit).1.limits = scheduler.limits ∧
      (scheduler.step circuit).1.running = scheduler.running ∧
      (scheduler.step circuit).1.suspended = scheduler.suspended ∧
      (scheduler.step circuit).1.ticks =
        scheduler.ticks + (RunSummary.total [(scheduler.step circuit).2.2]).ticks := by
  unfold step
  split
  · exact ⟨rfl, rfl, rfl, rfl⟩
  · rcases circuit.evaluate scheduler.limits .top scheduler.cache with ⟨reached, cache, fault | report⟩
    · exact ⟨rfl, rfl, rfl, rfl⟩
    · exact ⟨rfl, rfl, rfl, rfl⟩

/-- The count of a scheduler counts the evaluated ticks.

Proof: by induction on the ticks. -/
theorem ticks_steps (scheduler : Scheduler) (circuit : Circuit) (ticks : Nat) :
    (scheduler.steps circuit ticks).1.ticks =
      scheduler.ticks + (RunSummary.total (scheduler.steps circuit ticks).2.2).ticks := by
  induction ticks generalizing scheduler circuit with
  | zero => rfl
  | succ ticks inductionHypothesis =>
    obtain ⟨_, _, _, counted⟩ := scheduler.step_frame circuit
    have joined := RunSummary.total_cons (scheduler.step circuit).2.2
      ((scheduler.step circuit).1.steps (scheduler.step circuit).2.1 ticks).2.2
    simp only [steps_succ]
    rw [inductionHypothesis, counted, joined]
    exact Nat.add_assoc ..

/-- Every tick is let through by a scheduler that is not suspended. -/
theorem through_steps (active : scheduler.suspended = false) (circuit : Circuit) (ticks : Nat) :
    .skipped ∉ (scheduler.steps circuit ticks).2.2 := by
  induction ticks generalizing scheduler circuit with
  | zero => exact List.not_mem_nil
  | succ ticks inductionHypothesis =>
    obtain ⟨_, _, stillActive, _⟩ := scheduler.step_frame circuit
    rw [steps_succ, List.mem_cons, not_or]
    refine ⟨?_, inductionHypothesis (stillActive.trans active) _⟩
    unfold step
    rw [if_neg (by rw [active]; decide)]
    rcases circuit.evaluate scheduler.limits .top scheduler.cache with ⟨reached, cache, fault | report⟩
    · exact nofun
    · exact nofun

/-- A scheduler that is not suspended has every tick counted as evaluated or as given up. -/
theorem accounts_steps (active : scheduler.suspended = false) (circuit : Circuit) (ticks : Nat) :
    (RunSummary.total (scheduler.steps circuit ticks).2.2).ticks +
      (RunSummary.total (scheduler.steps circuit ticks).2.2).faulted = ticks := by
  rw [RunSummary.total_of_not_skipped (through_steps active circuit ticks), length_steps]

/-- A scheduler lets ticks through, with some limits, and keeps netlists that agree with a table. -/
structure Ready (table : Revision → List Net) (limits : Limits) (scheduler : Scheduler) : Prop where
  limits : scheduler.limits = limits
  active : scheduler.suspended = false
  knows : scheduler.cache.Knows table

/-- A scheduler is ready before its first tick. -/
theorem ready_new (table : Revision → List Net) (limits : Limits) : (new limits).Ready table limits :=
  ⟨rfl, rfl, NetlistCache.knows_empty table⟩

/-- Kept netlists that agree with a table make no difference to what an evaluation makes of a circuit, and
none to its report or fault. -/
theorem evaluate_alike (tabled : circuit.Tabled table) {left right : NetlistCache}
    (leftKnows : left.Knows table) (rightKnows : right.Knows table) (limits : Limits) :
    (circuit.evaluate limits .top left).1 = (circuit.evaluate limits .top right).1 ∧
      (circuit.evaluate limits .top left).2.2 = (circuit.evaluate limits .top right).2.2 := by
  cases begins : (circuit.beginTick limits.interval).2 with
  | some fault =>
    rw [Circuit.evaluate_of_fault left begins, Circuit.evaluate_of_fault right begins]
    exact ⟨rfl, rfl⟩
  | none =>
    obtain ⟨_, leftEvaluated, _⟩ := Circuit.evaluate_bound tabled leftKnows begins
    obtain ⟨_, rightEvaluated, _⟩ := Circuit.evaluate_bound tabled rightKnows begins
    rw [leftEvaluated, rightEvaluated]
    exact ⟨rfl, rfl⟩

/-- A tick goes alike with all schedulers that are ready. -/
theorem step_alike (tabled : circuit.Tabled table) {left right : Scheduler}
    (leftReady : left.Ready table limits) (rightReady : right.Ready table limits) :
    (left.step circuit).2 = (right.step circuit).2 := by
  obtain ⟨reached, outcome⟩ := evaluate_alike tabled leftReady.knows rightReady.knows limits
  unfold step
  rw [if_neg (by rw [leftReady.active]; decide), if_neg (by rw [rightReady.active]; decide),
    leftReady.limits, rightReady.limits]
  revert reached outcome
  rcases circuit.evaluate limits .top left.cache with ⟨leftReached, leftAfter, fault | report⟩
  all_goals
    rcases circuit.evaluate limits .top right.cache with ⟨rightReached, rightAfter, other | other⟩
    all_goals
      intro reached outcome
      cases reached
      cases outcome
  · rfl
  · rfl

/-- A tick leaves a scheduler ready, and the table tells the nets of the circuit that it leaves. -/
theorem Ready.step (ready : scheduler.Ready table limits) (tabled : circuit.Tabled table) :
    (scheduler.step circuit).1.Ready table limits ∧ (scheduler.step circuit).2.1.Tabled table := by
  have invariant := Circuit.invariant_tabled table
  obtain ⟨related, knowsAfter⟩ := invariant.evaluate scheduler.limits .top tabled ready.knows
  have tabledAfter := invariant.lasts related tabled
  unfold Scheduler.step
  rw [if_neg (by rw [ready.active]; decide)]
  revert knowsAfter tabledAfter
  rcases circuit.evaluate scheduler.limits .top scheduler.cache with ⟨reached, after, fault | report⟩
  · exact fun knowsAfter tabledAfter =>
      ⟨⟨ready.limits, ready.active, NetlistCache.knows_clear table after⟩, tabledAfter⟩
  · exact fun knowsAfter tabledAfter => ⟨⟨ready.limits, ready.active, knowsAfter.sweep⟩, tabledAfter⟩

/-- Ticks leave a scheduler ready, and the table tells the nets of the circuit that they leave.

Proof: by induction on the ticks. -/
theorem Ready.steps (ready : scheduler.Ready table limits) (tabled : circuit.Tabled table) (ticks : Nat) :
    (scheduler.steps circuit ticks).1.Ready table limits ∧
      (scheduler.steps circuit ticks).2.1.Tabled table := by
  induction ticks generalizing scheduler circuit with
  | zero => exact ⟨ready, tabled⟩
  | succ ticks inductionHypothesis =>
    obtain ⟨stillReady, stillTabled⟩ := ready.step tabled
    exact inductionHypothesis stillReady stillTabled

/-- Ticks go alike with all schedulers that are ready.

Proof: by induction on the ticks. -/
theorem steps_alike (tabled : circuit.Tabled table) {left right : Scheduler}
    (leftReady : left.Ready table limits) (rightReady : right.Ready table limits) (ticks : Nat) :
    (left.steps circuit ticks).2 = (right.steps circuit ticks).2 := by
  induction ticks generalizing left right circuit with
  | zero => rfl
  | succ ticks inductionHypothesis =>
    obtain ⟨leftAfter, tabledAfter⟩ := leftReady.step tabled
    obtain ⟨rightAfter, _⟩ := rightReady.step tabled
    have first := step_alike tabled leftReady rightReady
    rw [steps_succ, steps_succ]
    rw [first] at tabledAfter
    simp only [first, inductionHypothesis tabledAfter leftAfter rightAfter]

/-- Ticks come to the same if another scheduler that is ready takes over in between. -/
theorem steps_handed_over (tabled : circuit.Tabled table) {first next : Scheduler}
    (ready : first.Ready table limits) (nextReady : next.Ready table limits) (ticks more : Nat) :
    (first.steps circuit (ticks + more)).2 =
      ((next.steps (first.steps circuit ticks).2.1 more).2.1,
        (first.steps circuit ticks).2.2 ++ (next.steps (first.steps circuit ticks).2.1 more).2.2) := by
  obtain ⟨stillReady, stillTabled⟩ := ready.steps tabled ticks
  rw [steps_add, ← steps_alike stillTabled stillReady nextReady more]

end Scheduler

end Breadboard
