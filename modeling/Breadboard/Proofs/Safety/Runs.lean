import Breadboard.Proofs.Safety.Changes
import Breadboard.Proofs.Safety.Engine
import Breadboard.Proofs.Safety.Faults

/-!
# Runs without faults

In a run ticks alternate with changes of the circuit and with what the scheduler is told. A tick leaves
every count that it raised below the greatest number, and nothing else raises one. So no run faults from
counts below the greatest number on. With all checks on, runs are the same as long as the circuit fits
into the machine and there is room to count the netlists that are built, at most one for every revision
in every tick.
-/

namespace Breadboard

/-- What a scheduler is told between ticks. -/
inductive Control where
  | start | stop | suspend | resume | invalidate

/-- The scheduler after it was told something. -/
def Control.apply (scheduler : Scheduler) : Control → Scheduler
  | .start => scheduler.start
  | .stop => scheduler.stop
  | .suspend => scheduler.suspend
  | .resume => scheduler.resume
  | .invalidate => scheduler.invalidate

/-- What is done in a run. -/
inductive Operation where
  /-- A manual tick. -/
  | step
  /-- A periodic tick. -/
  | tick
  | control (told : Control)
  | change (made : Change)

/-- How ticks are evaluated. -/
abbrev Ticking := Scheduler → Circuit → Scheduler × Circuit × TickOutcome

/-- Carries out an operation. Only ticks that are let through have an outcome of their own. -/
def Operation.perform (ticking : Ticking) (scheduler : Scheduler) (circuit : Circuit) :
    Operation → Scheduler × Circuit × TickOutcome
  | .step => ticking scheduler circuit
  | .tick => if scheduler.running then ticking scheduler circuit else (scheduler, circuit, .skipped)
  | .control told => (told.apply scheduler, circuit, .skipped)
  | .change made => (scheduler, made.apply circuit, .skipped)

/-- Carries out operations one after the other and collects their outcomes. -/
def Scheduler.run (ticking : Ticking) :
    List Operation → Scheduler → Circuit → Scheduler × Circuit × List TickOutcome
  | [], scheduler, circuit => (scheduler, circuit, [])
  | operation :: rest, scheduler, circuit =>
    let (scheduler, circuit, outcome) := operation.perform ticking scheduler circuit
    let (scheduler, circuit, outcomes) := run ticking rest scheduler circuit
    (scheduler, circuit, outcome :: outcomes)

namespace Scheduler

/-- Evaluates one tick with all checks on, unless suspended. -/
def stepChecked (scheduler : Scheduler) (circuit : Circuit) : Scheduler × Circuit × TickOutcome :=
  if scheduler.suspended then (scheduler, circuit, .skipped)
  else
    match circuit.evaluateChecked scheduler.limits scheduler.cache with
    | (circuit, cache, .ok report) =>
      ({ scheduler with cache := cache.sweep, ticks := scheduler.ticks + 1 }, circuit,
        .settled report.changed report.passes)
    | (circuit, cache, .error fault) =>
      ({ scheduler with cache := cache.clear }, circuit, .faulted (.ofFault fault))

/-- A scheduler and a circuit fit into the machine for some ticks: passes are counted by numbers of 32
bits, the circuit fits, and builds are counted by numbers of 64 bits even if the netlists of some
revisions, which are all of those in the circuit, are built anew in every tick. -/
structure Within (revisions : Finset Revision) (ticks : Nat) (scheduler : Scheduler)
    (circuit : Circuit) : Prop where
  passes : scheduler.limits.maxPasses < handleLimit
  fitting : circuit.Fitting revisions 0
  builds : scheduler.cache.builds + ticks * revisions.card < wordLimit

variable {revisions : Finset Revision} {ticks : Nat} {scheduler : Scheduler} {circuit : Circuit}

/-- What fits for one more tick fits for the others. -/
theorem Within.fewer (within : Within revisions (ticks + 1) scheduler circuit) :
    Within revisions ticks scheduler circuit where
  passes := within.passes
  fitting := within.fitting
  builds := by
    have builds := within.builds
    rw [Nat.add_mul] at builds
    omega

/-- With room for one more tick an evaluation with checks is one without, and leaves room for the rest.
-/
theorem Within.evaluate (within : Within revisions (ticks + 1) scheduler circuit) :
    circuit.evaluateChecked scheduler.limits scheduler.cache =
        circuit.evaluate scheduler.limits .top scheduler.cache ∧
      (circuit.evaluate scheduler.limits .top scheduler.cache).1.Fitting revisions 0 ∧
      (circuit.evaluate scheduler.limits .top scheduler.cache).2.1.builds + ticks * revisions.card <
        wordLimit := by
  have builds := within.builds
  rw [Nat.add_mul, Nat.one_mul] at builds
  have limited : scheduler.cache.builds + revisions.card + 1 ≤ wordLimit := by omega
  have room : scheduler.cache.RoomFor revisions (scheduler.cache.builds + revisions.card + 1) :=
    .of_builds (Nat.lt_succ_self _)
  obtain ⟨same, related, roomAfter⟩ :=
    Circuit.evaluateChecked_abides limited within.passes within.fitting room
  have counted := roomAfter.builds_lt
  exact ⟨same, within.fitting.of_blueprint_eq related.blueprint_eq.symm, by omega⟩

/-- With room for a tick no check fails in its evaluation. -/
theorem Within.checks (within : Within revisions (ticks + 1) scheduler circuit) :
    (circuit.evaluateChecked scheduler.limits scheduler.cache).2.2 ≠ .error failedCheck := by
  rw [within.evaluate.1]
  intro faults
  cases Circuit.evaluate_fault faults

/-- A tick with room is what it is with all checks on, and the rest of the ticks have room after it. -/
theorem Within.step (within : Within revisions (ticks + 1) scheduler circuit) :
    scheduler.stepChecked circuit = scheduler.step circuit ∧
      Within revisions ticks (scheduler.step circuit).1 (scheduler.step circuit).2.1 := by
  obtain ⟨same, fitting, builds⟩ := within.evaluate
  unfold stepChecked Scheduler.step
  split
  · exact ⟨rfl, within.fewer⟩
  · rw [same]
    revert fitting builds
    rcases circuit.evaluate scheduler.limits .top scheduler.cache with ⟨reached, after, fault | report⟩
    · exact fun fitting builds => ⟨rfl, within.passes, fitting, builds⟩
    · exact fun fitting builds => ⟨rfl, within.passes, fitting, builds⟩

/-- In an operation with room no check fails, and the rest of the operations have room after it. -/
theorem Within.perform (within : Within revisions (ticks + 1) scheduler circuit)
    (operation : Operation) :
    operation.perform stepChecked scheduler circuit =
        operation.perform Scheduler.step scheduler circuit ∧
      Within revisions ticks (operation.perform Scheduler.step scheduler circuit).1
        (operation.perform Scheduler.step scheduler circuit).2.1 := by
  cases operation with
  | step => exact within.step
  | tick =>
    simp only [Operation.perform]
    split
    · exact within.step
    · exact ⟨rfl, within.fewer⟩
  | control told =>
    have fewer := within.fewer
    cases told <;> exact ⟨rfl, fewer.passes, fewer.fitting, fewer.builds⟩
  | change made =>
    have kept := (made.related circuit).imp fun _ _ => And.left
    have fewer := within.fewer
    exact ⟨rfl, fewer.passes, fewer.fitting.of_blueprint_eq kept.blueprint_eq.symm, fewer.builds⟩

/-- No check fails in a run with room for all its operations.

Proof: by induction on the operations. -/
theorem Within.run {operations : List Operation}
    (within : Within revisions operations.length scheduler circuit) :
    Scheduler.run stepChecked operations scheduler circuit =
      Scheduler.run Scheduler.step operations scheduler circuit := by
  induction operations generalizing scheduler circuit with
  | nil => rfl
  | cons operation rest inductionHypothesis =>
    obtain ⟨same, later⟩ := within.perform operation
    simp only [Scheduler.run, same, inductionHypothesis later]

/-- From counts below the greatest number on, a tick does not fault and leaves them below it. -/
theorem step_of_countsBelow (counts : circuit.CountsBelow (wordLimit - 1)) (scheduler : Scheduler) :
    (scheduler.step circuit).2.2.isFault = false ∧
      (scheduler.step circuit).2.1.CountsBelow (wordLimit - 1) := by
  cases suspended : scheduler.suspended with
  | true =>
    refine ⟨isFault_step_of_suspended suspended circuit, ?_⟩
    rw [step, suspended, if_pos rfl]
    exact counts
  | false =>
    have calm : (scheduler.step circuit).2.2.isFault ≠ true := by
      rw [Ne, isFault_step_iff suspended, not_not]
      exact counts.advances
    refine ⟨Bool.eq_false_iff.mpr calm, ?_⟩
    have evaluated : Circuit.Related Node.KeepsCount circuit
        (circuit.evaluate scheduler.limits .top scheduler.cache).1 :=
      (Node.invariant_keepsCount.evaluate scheduler.limits .top trivial trivial).1
    have after := counts.of_related evaluated
    rw [step, suspended, if_neg (by decide)]
    revert after
    rcases circuit.evaluate scheduler.limits .top scheduler.cache with ⟨reached, cache, fault | report⟩
    · exact id
    · exact id

/-- From counts below the greatest number on, no operation faults, and all of them leave the counts
below it. -/
theorem perform_of_countsBelow (counts : circuit.CountsBelow (wordLimit - 1)) (operation : Operation)
    (scheduler : Scheduler) :
    (operation.perform step scheduler circuit).2.2.isFault = false ∧
      (operation.perform step scheduler circuit).2.1.CountsBelow (wordLimit - 1) := by
  cases operation with
  | step => exact step_of_countsBelow counts scheduler
  | tick =>
    simp only [Operation.perform]
    split
    · exact step_of_countsBelow counts scheduler
    · exact ⟨rfl, counts⟩
  | control told => exact ⟨rfl, counts⟩
  | change made => exact ⟨rfl, counts.of_related ((made.related circuit).imp fun _ _ => And.right)⟩

/-- From counts below the greatest number on, no operation of a run faults.

Proof: by induction on the operations. -/
theorem run_of_countsBelow (counts : circuit.CountsBelow (wordLimit - 1)) (operations : List Operation)
    (scheduler : Scheduler) :
    ∀ outcome ∈ (run step operations scheduler circuit).2.2, outcome.isFault = false := by
  induction operations generalizing scheduler circuit with
  | nil =>
    intro outcome member
    cases member
  | cons operation rest inductionHypothesis =>
    obtain ⟨calm, countsAfter⟩ := perform_of_countsBelow counts operation scheduler
    intro outcome member
    rcases List.mem_cons.mp member with rfl | later
    · exact calm
    · exact inductionHypothesis countsAfter _ outcome later

/-- A tick that is let through faults exactly if some running oscillator of the level has counted up to
the greatest number of 64 bits. No check of the evaluation fails in a tick that fits into the machine.
And from counts below the greatest number on, no run of ticks, drives, changes of frequency and starts
and stops of oscillators faults, nor does a check fail in a run that fits. -/
theorem faults_at_full_counts (scheduler : Scheduler) (circuit : Circuit) :
    (scheduler.suspended = false → circuit.CountsBelow wordLimit →
      ((scheduler.step circuit).2.2.isFault = true ↔ ∃ id node oscillator,
        circuit.node? id = some node ∧ node.part = .clock oscillator ∧ oscillator.running = true ∧
          oscillator.tick = wordLimit - 1)) ∧
    (∀ revisions, Within revisions 1 scheduler circuit →
      scheduler.stepChecked circuit = scheduler.step circuit ∧
        (circuit.evaluateChecked scheduler.limits scheduler.cache).2.2 ≠ .error failedCheck) ∧
    (circuit.CountsBelow (wordLimit - 1) → ∀ operations,
      (∀ outcome ∈ (run step operations scheduler circuit).2.2, outcome.isFault = false) ∧
      ∀ revisions, Within revisions operations.length scheduler circuit →
        run stepChecked operations scheduler circuit = run step operations scheduler circuit) := by
  refine ⟨fun active counts => ?_, fun revisions within => ⟨within.step.1, within.checks⟩,
    fun counts operations => ?_⟩
  · rw [isFault_step_iff active]
    constructor
    · intro stuck
      by_contra noneFull
      refine stuck fun id node oscillator found isClock running => ?_
      have below := counts id node found oscillator isClock
      by_contra full
      exact noneFull ⟨id, node, oscillator, found, isClock, running, by omega⟩
    · rintro ⟨id, node, oscillator, found, isClock, running, full⟩ advances
      have room := advances id node oscillator found isClock running
      omega
  · exact ⟨run_of_countsBelow counts operations scheduler, fun revisions within => within.run⟩

end Scheduler

namespace Circuit

/-- A running oscillator with a count, alone in a circuit. -/
def blinker (tick : Nat) : Circuit :=
  ⟨⟨[some (.ofPart (.clock { Oscillator.initial with tick }))]⟩, [], 1⟩

/-- The count of the blinker is below what its oscillator's count is below. -/
theorem countsBelow_blinker {tick limit : Nat} (below : tick < limit) :
    (blinker tick).CountsBelow limit := by
  intro id node found oscillator isClock
  cases id with
  | zero =>
    cases found
    cases isClock
    exact below
  | succ id => cases found

/-- The chipped lamp has no counts. -/
theorem countsBelow_chippedLamp (limit : Nat) : (chippedLamp true).CountsBelow limit := by
  have none : ∀ node ∈ (chippedLamp true).nodes.values, ∀ oscillator,
      node.part ≠ .clock oscillator := by
    simp [chippedLamp, Arena.values, Node.ofPart]
  intro id node found oscillator isClock
  exact absurd isClock (none node (Arena.mem_values.mpr ⟨id, found⟩) oscillator)

/-- The chipped lamp fits into the machine. -/
theorem fitting_chippedLamp : (chippedLamp true).Fitting {1, 2} 0 where
  wires := by
    rintro inner ⟨path, leads⟩
    rcases (inside?_chippedLamp leads).2 with rfl | rfl <;> decide
  revisions := by
    rintro inner ⟨path, leads⟩
    rcases (inside?_chippedLamp leads).2 with rfl | rfl <;> decide
  nesting := by
    intro path inner leads
    have shallow := (inside?_chippedLamp leads).1
    have room : 1 < handleLimit := by decide
    omega

end Circuit

/-- A tick of the blinker faults if its count is the greatest number. From count zero on, it may be
tuned and stopped between ticks, and no tick faults. No check fails in two ticks of the chipped lamp. -/
theorem Scheduler.blinker_faults_at_full_count :
    ((new .standard).step (.blinker (wordLimit - 1))).2.2.isFault = true ∧
      (∀ outcome ∈ (run step [.step, .change (.retune ⟨2.0⟩), .step, .change (.act 0 .toggle), .step]
        (new .standard) (.blinker 0)).2.2, outcome.isFault = false) ∧
      run stepChecked [.step, .step] (new .standard) (.chippedLamp true) =
        run step [.step, .step] (new .standard) (.chippedLamp true) := by
  have within : Within {1, 2} 2 (new .standard) (.chippedLamp true) :=
    ⟨by decide, Circuit.fitting_chippedLamp, by decide⟩
  obtain ⟨exact, _⟩ := faults_at_full_counts (new .standard) (.blinker (wordLimit - 1))
  obtain ⟨_, _, runs⟩ := faults_at_full_counts (new .standard) (.blinker 0)
  obtain ⟨_, _, checked⟩ := faults_at_full_counts (new .standard) (.chippedLamp true)
  refine ⟨?_, ?_, ?_⟩
  · refine (exact rfl (Circuit.countsBelow_blinker (by decide))).mpr ?_
    exact ⟨0, _, _, rfl, rfl, rfl, rfl⟩
  · exact (runs (Circuit.countsBelow_blinker (by decide)) _).1
  · exact (checked (Circuit.countsBelow_chippedLamp _) [.step, .step]).2 {1, 2} within

end Breadboard
