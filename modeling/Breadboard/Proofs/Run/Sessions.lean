import Breadboard.Proofs.Engine.Requests
import Breadboard.Proofs.Safety.Runs

/-!
# Sessions of a scheduler

In a session a scheduler is called for ticks and told things, and its circuit is changed meanwhile, at
whatever depth. Between calls the kept netlists are exactly those that the last tick asked for, and
nothing remembers that they were: every tick starts from a swept cache, or from a cleared one after a
fault or an invalidation.
-/

namespace Breadboard

namespace Scheduler

/-- What a scheduler is called for. -/
inductive Call where
  /-- A periodic tick. -/
  | tick
  /-- A manual tick. -/
  | step
  | control (told : Control)

/-- The scheduler and its circuit after a call, with the outcome if a tick was called for. -/
def call (scheduler : Scheduler) (circuit : Circuit) :
    Call → Scheduler × Circuit × Option TickOutcome
  | .tick =>
    let (scheduler, circuit, outcome) := scheduler.tick circuit
    (scheduler, circuit, some outcome)
  | .step =>
    let (scheduler, circuit, outcome) := scheduler.step circuit
    (scheduler, circuit, some outcome)
  | .control told => (told.apply scheduler, circuit, none)

/-- A tick is called for. -/
def Call.isTick : Call → Bool
  | .control _ => false
  | _ => true

/-- The tick that is called for is let through: none while suspended, and periodic ones only while the
scheduler runs. -/
def letsThrough (scheduler : Scheduler) : Call → Bool
  | .tick => scheduler.running && !scheduler.suspended
  | .step => !scheduler.suspended
  | .control _ => false

/-- What happens in a session. -/
inductive Event where
  | call (made : Call)
  /-- The circuit becomes another one, by edits or otherwise. -/
  | change (edited : Circuit → Circuit)

/-- A scheduler and its circuit after some events, one after the other. -/
def session : List Event → Scheduler → Circuit → Scheduler × Circuit
  | [], scheduler, circuit => (scheduler, circuit)
  | .call made :: rest, scheduler, circuit =>
    let (scheduler, circuit, _) := scheduler.call circuit made
    session rest scheduler circuit
  | .change edited :: rest, scheduler, circuit => session rest scheduler (edited circuit)

variable {scheduler : Scheduler} {circuit : Circuit}

/-- All that a call can do. A call for a tick is held back and changes nothing, or it evaluates the
circuit. If the evaluation settles, the netlists that it asked for are kept and the tick is counted; if
it faults, none is kept. -/
inductive Called (scheduler : Scheduler) (circuit : Circuit) :
    Call → Scheduler × Circuit × Option TickOutcome → Prop where
  | told (told : Control) : Called scheduler circuit (.control told) (told.apply scheduler, circuit, none)
  | skipped {made : Call} (isTick : made.isTick = true) (held : scheduler.letsThrough made = false) :
    Called scheduler circuit made (scheduler, circuit, some .skipped)
  | settled {made : Call} (through : scheduler.letsThrough made = true) {reached : Circuit}
    {after : NetlistCache} {report : Settling}
    (evaluates : circuit.evaluate scheduler.limits .top scheduler.cache = (reached, after, .ok report)) :
    Called scheduler circuit made
      ({ scheduler with cache := after.sweep, ticks := scheduler.ticks + 1 }, reached,
        some (.settled report.changed report.passes))
  | faulted {made : Call} (through : scheduler.letsThrough made = true) {reached : Circuit}
    {after : NetlistCache} {fault : Fault}
    (evaluates : circuit.evaluate scheduler.limits .top scheduler.cache = (reached, after, .error fault)) :
    Called scheduler circuit made
      ({ scheduler with cache := after.clear }, reached, some (.faulted (.ofFault fault)))

/-- A tick of a scheduler that is not suspended evaluates the circuit. -/
theorem called_of_active (active : scheduler.suspended = false) {made : Call}
    (through : scheduler.letsThrough made = true) (circuit : Circuit) :
    Called scheduler circuit made ((scheduler.step circuit).1, (scheduler.step circuit).2.1,
      some (scheduler.step circuit).2.2) := by
  unfold step
  rw [if_neg (by rw [active]; decide)]
  rcases evaluates : circuit.evaluate scheduler.limits .top scheduler.cache with
    ⟨reached, after, fault | report⟩
  · exact .faulted through evaluates
  · exact .settled through evaluates

/-- A call does what a call can do. -/
theorem called (scheduler : Scheduler) (circuit : Circuit) (made : Call) :
    Called scheduler circuit made (scheduler.call circuit made) := by
  cases made with
  | control told => exact .told told
  | step =>
    cases suspended : scheduler.suspended with
    | false =>
      have through : scheduler.letsThrough .step = true := by simp [letsThrough, suspended]
      exact called_of_active suspended through circuit
    | true =>
      simp only [call, step, suspended, if_true]
      exact .skipped rfl (by simp [letsThrough, suspended])
  | tick =>
    cases running : scheduler.running with
    | false =>
      simp only [call, tick, running, Bool.false_eq_true, if_false]
      exact .skipped rfl (by simp [letsThrough, running])
    | true =>
      simp only [call, tick, running, if_true]
      cases suspended : scheduler.suspended with
      | false => exact called_of_active suspended (by simp [letsThrough, running, suspended]) circuit
      | true =>
        simp only [step, suspended, if_true]
        exact .skipped rfl (by simp [letsThrough, suspended])

/-- The limits allow a pass, and the cache is swept. -/
structure Tidy (limits : Limits) (scheduler : Scheduler) : Prop where
  limited : scheduler.limits = limits
  allowed : 0 < limits.maxPasses
  swept : scheduler.cache.Swept

variable {limits : Limits}

/-- A new scheduler is tidy. -/
theorem tidy_new (allowed : 0 < limits.maxPasses) : (new limits).Tidy limits :=
  ⟨rfl, allowed, NetlistCache.swept_empty⟩

/-- What was asked for in an evaluation that settles is what the circuit contains down to the depth
limit, before and after. -/
theorem Tidy.requests (tidy : scheduler.Tidy limits) {reached : Circuit} {after : NetlistCache}
    {report : Settling}
    (evaluates : circuit.evaluate scheduler.limits .top scheduler.cache = (reached, after, .ok report)) :
    NetlistCache.Requests (circuit.revisionsWithin (limits.maxDepth + 1)) scheduler.cache after ∧
      circuit.revisionsWithin (limits.maxDepth + 1) = reached.revisionsWithin (limits.maxDepth + 1) := by
  rw [tidy.limited] at evaluates
  have requests := Circuit.requests_evaluate tidy.allowed circuit scheduler.cache report
  have related : Circuit.Related Node.KeepsBlueprint circuit
      (circuit.evaluate limits .top scheduler.cache).1 :=
    (invariant_blueprint.evaluate limits .top trivial trivial).1
  rw [evaluates] at requests related
  exact ⟨requests rfl, Circuit.revisionsWithin_of_blueprint_eq related.blueprint_eq.symm _⟩

/-- A call leaves a scheduler tidy. -/
theorem Tidy.call (tidy : scheduler.Tidy limits) (circuit : Circuit) (made : Call) :
    (scheduler.call circuit made).1.Tidy limits := by
  have called := scheduler.called circuit made
  revert called
  generalize scheduler.call circuit made = result
  rintro (told | held | ⟨_, evaluates⟩ | ⟨_, evaluates⟩)
  · cases told with
    | invalidate => exact ⟨tidy.limited, tidy.allowed, NetlistCache.swept_clear _⟩
    | _ => exact ⟨tidy.limited, tidy.allowed, tidy.swept⟩
  · exact tidy
  · exact ⟨tidy.limited, tidy.allowed, (tidy.requests evaluates).1.sweep tidy.swept⟩
  · exact ⟨tidy.limited, tidy.allowed, NetlistCache.swept_clear _⟩

/-- A session leaves a scheduler tidy.

Proof: by induction on the events. -/
theorem Tidy.session (tidy : scheduler.Tidy limits) (events : List Event) (circuit : Circuit) :
    (Scheduler.session events scheduler circuit).1.Tidy limits := by
  induction events generalizing scheduler circuit with
  | nil => exact tidy
  | cons event rest inductionHypothesis =>
    cases event with
    | call made => exact inductionHypothesis (tidy.call circuit made) _
    | change edited => exact inductionHypothesis tidy (edited circuit)

/-- At any time in a session of a new scheduler with at least one pass allowed, a tick that settles leaves
exactly the netlists of the circuit and of all circuits inside its chips down to the depth limit, by
their revisions, each once; it built as many netlists as there are among these revisions that were not
kept before it. A tick that faults leaves no netlist. -/
theorem cache_holds_last_tick (allowed : 0 < limits.maxPasses) (events : List Event) (start : Circuit)
    (made : Call) {before after : Scheduler} {circuit reached : Circuit} {outcome : TickOutcome}
    (happened : session events (new limits) start = (before, circuit))
    (called : before.call circuit made = (after, reached, some outcome)) :
    (∀ changed passes, outcome = .settled changed passes →
      after.cache.revisions.Nodup ∧
      (∀ revision, (revision ∈ after.cache.revisions ↔ ∃ path inner,
          circuit.inside? path = some inner ∧ path.length ≤ limits.maxDepth ∧ inner.revision = revision) ∧
        (revision ∈ after.cache.revisions ↔ ∃ path inner,
          reached.inside? path = some inner ∧ path.length ≤ limits.maxDepth ∧
            inner.revision = revision)) ∧
      after.cache.builds =
        before.cache.builds + (after.cache.revisions.filter (· ∉ before.cache.revisions)).length) ∧
    ∀ error, outcome = .faulted error → after.cache.entries = [] := by
  have tidy : before.Tidy limits := by
    have tidyAfter := (tidy_new allowed).session events start
    rwa [happened] at tidyAfter
  have member (circuit : Circuit) (revision : Revision) :
      revision ∈ circuit.revisionsWithin (limits.maxDepth + 1) ↔ ∃ path inner,
        circuit.inside? path = some inner ∧ path.length ≤ limits.maxDepth ∧ inner.revision = revision := by
    simp only [Circuit.revisionsWithin, Set.mem_ofPred_eq, Nat.lt_succ_iff]
  have results := before.called circuit made
  rw [called] at results
  constructor
  · rintro changed passes rfl
    cases results with
    | settled _ evaluates =>
      obtain ⟨requests, same⟩ := tidy.requests evaluates
      refine ⟨(requests.sweep tidy.swept).distinct, fun revision => ?_, requests.builds_eq tidy.swept⟩
      rw [← member, ← member, ← same]
      have kept := requests.mem_revisions_sweep tidy.swept revision
      exact ⟨kept, kept⟩
  · rintro error rfl
    cases results with
    | faulted => rfl

/-- The chipped lamp is ticked; then the circuit in its chip is edited, and a tick is skipped while the
scheduler is suspended. -/
def editedLamp : List Event :=
  [.call .step, .change fun circuit => circuit.modifyInside (·.touch 5) [1], .call (.control .suspend),
    .call .step, .call (.control .resume)]

/-- The next tick of the edited lamp settles. It keeps the netlists of the lamp and of the edited circuit in
its chip, and built only the latter. -/
theorem editedLamp_keeps_last_tick : ∃ before circuit after reached changed passes,
    session editedLamp (new .standard) (.chippedLamp true) = (before, circuit) ∧
      before.call circuit .step = (after, reached, some (.settled changed passes)) ∧
      2 ∈ after.cache.revisions ∧ 5 ∈ after.cache.revisions ∧
      after.cache.builds = before.cache.builds + 1 := by
  have ticked :
      let between := session editedLamp (new .standard) (.chippedLamp true)
      let called := between.1.call between.2 .step
      called.2.2 = some (.settled false 2) ∧
        (called.1.cache.revisions.filter (· ∉ between.1.cache.revisions)).length = 1 ∧
        between.2.revision = 2 ∧ (between.2.inside? [1]).map Circuit.revision = some 5 := by
    decide +kernel
  rcases happened : session editedLamp (new .standard) (.chippedLamp true) with ⟨before, circuit⟩
  simp only [happened] at ticked
  rcases called : before.call circuit .step with ⟨after, reached, outcome⟩
  simp only [called] at ticked
  obtain ⟨rfl, one, top, inside⟩ := ticked
  obtain ⟨inner, leads, revision⟩ := Option.map_eq_some_iff.mp inside
  have allowed : 0 < Limits.standard.maxPasses := by decide
  obtain ⟨settles, _⟩ := cache_holds_last_tick allowed editedLamp _ .step happened called
  obtain ⟨_, kept, built⟩ := settles false 2 rfl
  refine ⟨before, circuit, after, reached, false, 2, rfl, called, ?_, ?_, one ▸ built⟩
  · exact (kept 2).1.mpr ⟨[], circuit, by rw [Circuit.inside?], Nat.zero_le _, top⟩
  · exact (kept 5).1.mpr ⟨[1], inner, leads, by decide, revision⟩

end Scheduler

end Breadboard
