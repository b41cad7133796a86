import Breadboard.Proofs.Run.Sessions
import Breadboard.Proofs.Run.Ticking
import Breadboard.Proofs.Workshop.Stability

/-!
# A scheduler as a gate

On a testbed a scheduler ticks a circuit of a workshop, while the circuit is edited and driven and anything
else is done in the workshop. The scheduler adds nothing to the evaluations that it lets through: what it
keeps from one to the next is never stale, so every one of them goes as it would from an empty cache.
-/

namespace Breadboard

/-- The tick evaluated the circuit without a fault. -/
def TickOutcome.isSettled : TickOutcome → Bool
  | .settled _ _ => true
  | _ => false

/-- A workshop and a scheduler for the circuit at some place in it. -/
structure Testbed where
  workshop : Workshop
  scheduler : Scheduler

namespace Testbed

/-- What happens on a testbed. -/
inductive Event where
  | call (made : Scheduler.Call)
  | act (action : Action)

/-- The event suspends the scheduler or ends a suspension. -/
def Event.suspends : Event → Option Bool
  | .call (.control .suspend) => some true
  | .call (.control .resume) => some false
  | _ => none

/-- The event starts the scheduler or stops it. -/
def Event.starts : Event → Option Bool
  | .call (.control .start) => some true
  | .call (.control .stop) => some false
  | _ => none

/-- The testbed after an event, with the outcome if a tick was called for. -/
def perform (place : Nat) (testbed : Testbed) : Event → Testbed × Option TickOutcome
  | .call made =>
    match testbed.workshop.circuit? ⟨place, []⟩ with
    | some circuit =>
      let (scheduler, circuit, outcome) := testbed.scheduler.call circuit made
      (⟨testbed.workshop.modify ⟨place, []⟩ fun _ => circuit, scheduler⟩, outcome)
    | none => (testbed, none)
  | .act action => ({ testbed with workshop := testbed.workshop.perform action }, none)

/-- The testbed after some events, one after the other, with the outcomes of the ticks. -/
def run (place : Nat) : List Event → Testbed → Testbed × List TickOutcome
  | [], testbed => (testbed, [])
  | event :: rest, testbed =>
    let (testbed, outcome) := testbed.perform place event
    let (testbed, outcomes) := run place rest testbed
    (testbed, outcome.toList ++ outcomes)

end Testbed

namespace Workshop

variable {workshop : Workshop} {place : Nat} {circuit : Circuit}

/-- There is a circuit at every place that is taken. -/
theorem circuit?_of_lt (taken : place < workshop.circuits.length) :
    ∃ circuit, workshop.circuit? ⟨place, []⟩ = some circuit :=
  ⟨workshop.circuits[place], by simp [circuit?, taken, Circuit.inside?]⟩

/-- Replacing a circuit by itself leaves the workshop. -/
theorem modify_self (found : workshop.circuit? ⟨place, []⟩ = some circuit) :
    (workshop.modify ⟨place, []⟩ fun _ => circuit) = workshop := by
  obtain ⟨here, isHere, leads⟩ := Option.bind_eq_some_iff.mp found
  rw [Circuit.inside?, Option.some.injEq] at leads
  subst leads
  have same : workshop.circuits.modify place (fun around => around.modifyInside (fun _ => here) []) =
      workshop.circuits := by
    refine List.ext_getElem? fun other => ?_
    rw [List.getElem?_modify]
    split
    · next isPlace =>
      subst isPlace
      rw [isHere]
      rfl
    · cases workshop.circuits[other]? <;> rfl
  simp only [modify, same]

/-- No action takes a circuit out of the workshop. -/
theorem length_perform (workshop : Workshop) (action : Action) :
    workshop.circuits.length ≤ (workshop.perform action).circuits.length := by
  cases action with
  | read text =>
    simp only [perform]
    split <;> simp
  | edit target edit =>
    simp only [perform]
    split <;> simp [modify]
  | evaluate target limits context =>
    simp only [perform]
    split <;> simp [modify]
  | request target =>
    simp only [perform]
    split <;> simp
  | _ => simp [perform, modify]

end Workshop

namespace Testbed

open Scheduler (Call)

/-- A table tells the nets of the workshop, and those that the scheduler keeps. -/
structure Holds (table : Revision → List Net) (limits : Limits) (place : Nat) (testbed : Testbed) : Prop where
  sound : testbed.workshop.Sound table
  kept : Workshop.Sound table { testbed.workshop with cache := testbed.scheduler.cache }
  limited : testbed.scheduler.limits = limits
  taken : place < testbed.workshop.circuits.length

variable {table : Revision → List Net} {limits : Limits} {place : Nat} {testbed : Testbed}

/-- An action in the workshop leaves what the scheduler keeps told, by a continued table. -/
theorem Holds.act (holds : testbed.Holds table limits place) (action : Action) :
    ∃ continued, (testbed.perform place (.act action)).1.Holds continued limits place := by
  obtain ⟨continued, continues, notBefore, sound⟩ := holds.sound.perform action
  refine ⟨continued, sound, sound.recache ?_ ?_, holds.limited,
    Nat.lt_of_lt_of_le holds.taken (testbed.workshop.length_perform action)⟩
  · exact holds.kept.knows.extend holds.kept.recorded continues
  · exact holds.kept.recorded.mono notBefore

/-- An evaluation of the circuit leaves the workshop and what the scheduler keeps told. -/
theorem Holds.evaluated (holds : testbed.Holds table limits place) {circuit reached : Circuit}
    {after : NetlistCache} {outcome : Except Fault Settling}
    (found : testbed.workshop.circuit? ⟨place, []⟩ = some circuit)
    (evaluates : circuit.evaluate testbed.scheduler.limits .top testbed.scheduler.cache =
      (reached, after, outcome)) {cache : NetlistCache} (keeps : cache = after.sweep ∨ cache = after.clear)
    (ticks : Nat) :
    Holds table limits place ⟨testbed.workshop.modify ⟨place, []⟩ fun _ => reached,
      { testbed.scheduler with cache, ticks }⟩ := by
  have told := holds.kept.evaluate found testbed.scheduler.limits .top
  rw [evaluates] at told
  have workshop : Workshop.Sound table (testbed.workshop.modify ⟨place, []⟩ fun _ => reached) :=
    told.recache holds.sound.knows holds.sound.recorded
  refine ⟨workshop, ?_, holds.limited, by simpa [Workshop.modify] using holds.taken⟩
  rcases keeps with rfl | rfl
  · exact told.recache told.knows.sweep told.recorded.sweep
  · refine told.recache (NetlistCache.knows_clear table after) fun entry member => ?_
    cases member

/-- A call leaves the workshop and what the scheduler keeps told. -/
theorem Holds.call (holds : testbed.Holds table limits place) (made : Call) :
    (testbed.perform place (.call made)).1.Holds table limits place := by
  obtain ⟨circuit, found⟩ := Workshop.circuit?_of_lt holds.taken
  have called := testbed.scheduler.called circuit made
  simp only [perform, found]
  revert called
  generalize testbed.scheduler.call circuit made = result
  rintro (told | held | ⟨_, evaluates⟩ | ⟨_, evaluates⟩)
  · rw [Workshop.modify_self found]
    cases told with
    | invalidate =>
      refine ⟨holds.sound, holds.kept.recache (NetlistCache.knows_clear table _) ?_, holds.limited,
        holds.taken⟩
      intro entry member
      cases member
    | _ => exact ⟨holds.sound, holds.kept, holds.limited, holds.taken⟩
  · rw [Workshop.modify_self found]
    exact holds
  · exact holds.evaluated found evaluates (.inl rfl) _
  · exact holds.evaluated found evaluates (.inr rfl) _

/-- After every event some table tells the nets of the testbed. -/
theorem Holds.perform (holds : testbed.Holds table limits place) (event : Event) :
    ∃ continued, (testbed.perform place event).1.Holds continued limits place := by
  cases event with
  | call made => exact ⟨table, holds.call made⟩
  | act action => exact holds.act action

/-- After all events some table tells the nets of the testbed.

Proof: by induction on the events. -/
theorem Holds.run (holds : testbed.Holds table limits place) (events : List Event) :
    ∃ continued, (Testbed.run place events testbed).1.Holds continued limits place := by
  induction events generalizing testbed table with
  | nil => exact ⟨table, holds⟩
  | cons event rest inductionHypothesis =>
    obtain ⟨_, holdsAfter⟩ := holds.perform event
    exact inductionHypothesis holdsAfter

/-- Only what the scheduler is told decides which ticks it holds back, and it counts those that settle. -/
theorem gates_perform (taken : place < testbed.workshop.circuits.length) (event : Event) :
    (testbed.perform place event).1.scheduler.suspended = event.suspends.getD testbed.scheduler.suspended ∧
      (testbed.perform place event).1.scheduler.running = event.starts.getD testbed.scheduler.running ∧
      (testbed.perform place event).1.scheduler.ticks =
        testbed.scheduler.ticks + (testbed.perform place event).2.toList.countP TickOutcome.isSettled := by
  cases event with
  | act action => exact ⟨rfl, rfl, rfl⟩
  | call made =>
    obtain ⟨circuit, found⟩ := Workshop.circuit?_of_lt taken
    have called := testbed.scheduler.called circuit made
    simp only [perform, found]
    revert called
    generalize testbed.scheduler.call circuit made = result
    intro called
    cases called with
    | told told => cases told <;> exact ⟨rfl, rfl, rfl⟩
    | skipped isTick held =>
      cases made with
      | control told => cases isTick
      | _ => exact ⟨rfl, rfl, rfl⟩
    | settled through =>
      cases made with
      | control told => cases through
      | _ => exact ⟨rfl, rfl, rfl⟩
    | faulted through =>
      cases made with
      | control told => cases through
      | _ => exact ⟨rfl, rfl, rfl⟩

/-- No event takes the circuit off the testbed. -/
theorem taken_perform (taken : place < testbed.workshop.circuits.length) (event : Event) :
    place < (testbed.perform place event).1.workshop.circuits.length := by
  cases event with
  | act action => exact Nat.lt_of_lt_of_le taken (testbed.workshop.length_perform action)
  | call made =>
    obtain ⟨circuit, found⟩ := Workshop.circuit?_of_lt taken
    simpa [perform, found, Workshop.modify] using taken

/-- The last of what the scheduler was told decides which ticks it holds back, and it counts those that
settled.

Proof: by induction on the events. -/
theorem gates_run (taken : place < testbed.workshop.circuits.length) (events : List Event) :
    (run place events testbed).1.scheduler.suspended =
        (events.filterMap Event.suspends).getLastD testbed.scheduler.suspended ∧
      (run place events testbed).1.scheduler.running =
        (events.filterMap Event.starts).getLastD testbed.scheduler.running ∧
      (run place events testbed).1.scheduler.ticks =
        testbed.scheduler.ticks + (run place events testbed).2.countP TickOutcome.isSettled := by
  induction events generalizing testbed with
  | nil => exact ⟨rfl, rfl, rfl⟩
  | cons event rest inductionHypothesis =>
    obtain ⟨suspended, running, ticks⟩ := gates_perform taken event
    obtain ⟨suspendedLast, runningLast, ticksLast⟩ := inductionHypothesis (taken_perform taken event)
    have last (told : Event → Option Bool) (before : Bool) :
        ((event :: rest).filterMap told).getLastD before =
          (rest.filterMap told).getLastD ((told event).getD before) := by
      cases tells : told event with
      | none => rw [List.filterMap_cons_none tells, Option.getD_none]
      | some now => rw [List.filterMap_cons_some tells, List.getLastD_cons, Option.getD_some]
    refine ⟨?_, ?_, ?_⟩
    · rw [last, ← suspended, ← suspendedLast]
      rfl
    · rw [last, ← running, ← runningLast]
      rfl
    · simp only [run, List.countP_append]
      rw [ticksLast, ticks, Nat.add_assoc]

/-- A new scheduler for a circuit that was made in a workshop keeps nothing untold. -/
theorem holds_opened (building : List Action) (limits : Limits)
    (taken : place < (Workshop.opened.run building).circuits.length) :
    ∃ table, Holds table limits place ⟨Workshop.opened.run building, .new limits⟩ := by
  obtain ⟨table, sound⟩ := Workshop.sound_run building
  refine ⟨table, sound, sound.recache (NetlistCache.knows_empty table) fun entry member => ?_, rfl, taken⟩
  cases member

/-- Which ticks are held back. -/
theorem letsThrough_eq_false_iff {scheduler : Scheduler} {made : Call} (isTick : made.isTick = true) :
    scheduler.letsThrough made = false ↔
      scheduler.suspended = true ∨ made = .tick ∧ scheduler.running = false := by
  cases made with
  | control told => cases isTick
  | step => simp [Scheduler.letsThrough]
  | tick =>
    simp only [Scheduler.letsThrough, Bool.and_eq_false_iff, Bool.not_eq_false', true_and]
    exact or_comm

/-- What an evaluation without a fault is reported as, and what one with a fault. -/
def reported : Except Fault Settling → TickOutcome
  | .ok report => .settled report.changed report.passes
  | .error fault => .faulted (.ofFault fault)

/-- Where a table tells all nets, a call for a tick is held back and changes nothing, or it does what one
evaluation does that starts from an empty cache. -/
theorem Holds.gate (holds : testbed.Holds table limits place) {circuit : Circuit}
    (found : testbed.workshop.circuit? ⟨place, []⟩ = some circuit) {made : Call}
    (isTick : made.isTick = true) :
    ∃ after outcome, testbed.perform place (.call made) = (after, some outcome) ∧
      (outcome = .skipped ↔ testbed.scheduler.letsThrough made = false) ∧
      (outcome = .skipped → after = testbed) ∧
      (outcome ≠ .skipped → outcome = reported (circuit.evaluate limits .top .empty).2.2 ∧
        after.workshop =
          testbed.workshop.modify ⟨place, []⟩ fun _ => (circuit.evaluate limits .top .empty).1) := by
  have called := testbed.scheduler.called circuit made
  -- The netlists that the scheduler keeps make no difference.
  obtain ⟨sameCircuit, sameReport⟩ := Scheduler.evaluate_alike (holds.sound.tabled_of_circuit? found)
    holds.kept.knows (NetlistCache.knows_empty table) limits
  simp only [Testbed.perform, found]
  revert called
  generalize testbed.scheduler.call circuit made = result
  rintro (told | ⟨_, held⟩ | ⟨through, evaluates⟩ | ⟨through, evaluates⟩)
  · cases isTick
  · refine ⟨_, _, rfl, ⟨fun _ => held, fun _ => rfl⟩, fun _ => ?_,
      fun isLetThrough => absurd rfl isLetThrough⟩
    rw [Workshop.modify_self found]
  all_goals
    rw [holds.limited] at evaluates
    rw [evaluates] at sameCircuit sameReport
    refine ⟨_, _, rfl, ⟨nofun, fun held => absurd (through.symm.trans held) (by decide)⟩, nofun, fun _ => ?_⟩
    rw [← sameCircuit, ← sameReport]
    exact ⟨rfl, rfl⟩

/-- A scheduler is a gate around evaluations. Whatever was done on a testbed with a new scheduler and a
circuit made in a workshop, the scheduler is suspended or runs as it was last told, its count is the number
of ticks that settled, and the circuit is there. A call for a tick is skipped exactly while the scheduler
is suspended or, if the tick is a periodic one, does not run; then nothing changes. Every other one turns
the circuit into what one evaluation turns it into that starts from an empty cache, changes nothing else in
the workshop, and reports what that evaluation reports, or the fault that it ends with. -/
theorem gate_around_evaluation (building : List Action) (limits : Limits)
    (taken : place < (Workshop.opened.run building).circuits.length) (events : List Event)
    {outcomes : List TickOutcome}
    (happened : run place events ⟨Workshop.opened.run building, .new limits⟩ = (testbed, outcomes)) :
    testbed.scheduler.suspended = (events.filterMap Event.suspends).getLastD false ∧
    testbed.scheduler.running = (events.filterMap Event.starts).getLastD false ∧
    testbed.scheduler.ticks = outcomes.countP TickOutcome.isSettled ∧
    ∃ circuit, testbed.workshop.circuit? ⟨place, []⟩ = some circuit ∧
      ∀ made : Call, made.isTick = true → ∃ after outcome,
        testbed.perform place (.call made) = (after, some outcome) ∧
        (outcome = .skipped ↔
          testbed.scheduler.suspended = true ∨ made = .tick ∧ testbed.scheduler.running = false) ∧
        (outcome = .skipped → after = testbed) ∧
        (outcome ≠ .skipped → outcome = reported (circuit.evaluate limits .top .empty).2.2 ∧
          after.workshop =
            testbed.workshop.modify ⟨place, []⟩ fun _ => (circuit.evaluate limits .top .empty).1) := by
  obtain ⟨_, holdsBefore⟩ := holds_opened building limits taken
  obtain ⟨table, holds⟩ := holdsBefore.run events
  obtain ⟨suspended, running, ticks⟩ := gates_run holdsBefore.taken events
  rw [happened] at holds suspended running ticks
  obtain ⟨circuit, found⟩ := Workshop.circuit?_of_lt holds.taken
  refine ⟨suspended, running, ticks.trans (Nat.zero_add _), circuit, found, fun made isTick => ?_⟩
  rw [← letsThrough_eq_false_iff isTick]
  exact holds.gate found isTick

/-- The delayed lamp is ticked, switched off and ticked again, and the circuit in its chip is edited. Then a
periodic tick is skipped while the scheduler is suspended. -/
def gatedLamp : List Event :=
  [.call .step, .call (.control .start), .act (.drive ⟨1, []⟩ 0 (.bit false)), .call .tick,
    .act (.edit ⟨1, [1]⟩ (.disconnect ⟨0, "out"⟩ ⟨1, "a"⟩)), .call (.control .suspend), .call .tick]

/-- Two ticks of the gated lamp settled. While it is suspended a manual tick is skipped too and changes
nothing, and once it is resumed a periodic one does what an evaluation from an empty cache does. -/
theorem gatedLamp_skips_and_resumes :
    let opened : Testbed := ⟨Workshop.opened.run (Workshop.delayedLamp .standard), .new .standard⟩
    (∃ testbed outcomes, run 1 gatedLamp opened = (testbed, outcomes) ∧ testbed.scheduler.ticks = 2 ∧
      testbed.perform 1 (.call .step) = (testbed, some .skipped)) ∧
    ∃ testbed outcomes circuit after,
      run 1 (gatedLamp ++ [.call (.control .resume)]) opened = (testbed, outcomes) ∧
        testbed.workshop.circuit? ⟨1, []⟩ = some circuit ∧
        testbed.perform 1 (.call .tick) =
          (after, some (reported (circuit.evaluate .standard .top .empty).2.2)) := by
  intro opened
  have taken : 1 < (Workshop.opened.run (Workshop.delayedLamp .standard)).circuits.length := by
    decide +kernel
  have settles : (run 1 gatedLamp opened).2.countP TickOutcome.isSettled = 2 := by
    decide +kernel
  constructor
  · rcases happened : run 1 gatedLamp opened with ⟨testbed, outcomes⟩
    obtain ⟨suspended, _, ticks, _, _, gate⟩ :=
      gate_around_evaluation (Workshop.delayedLamp .standard) .standard taken gatedLamp happened
    obtain ⟨after, outcome, performed, skips, unchanged, _⟩ := gate .step rfl
    have skipped := skips.mpr (.inl suspended)
    rw [happened] at settles
    refine ⟨testbed, outcomes, rfl, ticks.trans settles, ?_⟩
    rw [performed, skipped, unchanged skipped]
  · rcases happened : run 1 (gatedLamp ++ [.call (.control .resume)]) opened with ⟨testbed, outcomes⟩
    obtain ⟨resumed, running, _, circuit, found, gate⟩ :=
      gate_around_evaluation (Workshop.delayedLamp .standard) .standard taken _ happened
    obtain ⟨after, outcome, performed, skips, _, evaluated⟩ := gate .tick rfl
    have through : outcome ≠ .skipped := by
      intro skipped
      rcases skips.mp skipped with suspended | ⟨_, stopped⟩
      · exact absurd (resumed.symm.trans suspended) (by decide)
      · exact absurd (running.symm.trans stopped) (by decide)
    exact ⟨testbed, outcomes, circuit, after, happened, found, by rw [performed, (evaluated through).1]⟩

end Testbed

end Breadboard
