import Breadboard.Engine.Settle

/-!
# Ticking a circuit

A scheduler keeps what lasts between ticks beside the circuit: the limits, the netlists, the count
of ticks, and whether ticks are let through. Periodic ticks pass while it runs; manual steps pass
always; nothing passes while it is suspended. A faulted tick does not count and drops every netlist.
-/

namespace Breadboard

/-- An internal failure, by its description. -/
structure InternalError where
  description : String
deriving DecidableEq

/-- The report of an internal failure. -/
def InternalError.message (error : InternalError) : String :=
  "internal simulator error: " ++ error.description

/-- The failure behind an abandoned evaluation, which may have left a text. -/
def InternalError.ofAbandoned (reason : Option String) : InternalError :=
  ⟨reason.getD "evaluation panicked"⟩

/-- The failure that a fault is reported as. -/
def InternalError.ofFault (fault : Fault) : InternalError :=
  .ofAbandoned (some fault.message)

/-- What became of a tick. -/
inductive TickOutcome where
  /-- The tick was not let through. -/
  | skipped
  /-- The circuit was evaluated. -/
  | settled (changed : Bool) (passes : Nat)
  /-- The evaluation was given up. -/
  | faulted (error : InternalError)
deriving DecidableEq

/-- The tick changed some output. -/
def TickOutcome.changed : TickOutcome → Bool
  | .settled changed _ => changed
  | _ => false

/-- The state between the ticks of a circuit. -/
structure Scheduler where
  limits : Limits
  cache : NetlistCache
  /-- Periodic ticks are let through. -/
  running : Bool
  /-- No tick is let through. -/
  suspended : Bool
  /-- The number of ticks evaluated. -/
  ticks : Nat
deriving DecidableEq

namespace Scheduler

/-- A stopped scheduler before its first tick. -/
def new (limits : Limits) : Scheduler :=
  ⟨limits, .empty, false, false, 0⟩

/-- Lets periodic ticks through. -/
def start (scheduler : Scheduler) : Scheduler :=
  { scheduler with running := true }

/-- Holds periodic ticks back. -/
def stop (scheduler : Scheduler) : Scheduler :=
  { scheduler with running := false }

/-- Holds every tick back. -/
def suspend (scheduler : Scheduler) : Scheduler :=
  { scheduler with suspended := true }

/-- Ends a suspension. -/
def resume (scheduler : Scheduler) : Scheduler :=
  { scheduler with suspended := false }

/-- Drops every netlist. -/
def invalidate (scheduler : Scheduler) : Scheduler :=
  { scheduler with cache := scheduler.cache.clear }

/-- Evaluates one tick, unless suspended. -/
def step (scheduler : Scheduler) (circuit : Circuit) : Scheduler × Circuit × TickOutcome :=
  if scheduler.suspended then (scheduler, circuit, .skipped)
  else
    match circuit.evaluate scheduler.limits .top scheduler.cache with
    | (circuit, cache, .ok report) =>
      ({ scheduler with cache := cache.sweep, ticks := scheduler.ticks + 1 }, circuit,
        .settled report.changed report.passes)
    | (circuit, cache, .error fault) =>
      ({ scheduler with cache := cache.clear }, circuit, .faulted (.ofFault fault))

/-- A periodic tick. -/
def tick (scheduler : Scheduler) (circuit : Circuit) : Scheduler × Circuit × TickOutcome :=
  if scheduler.running then scheduler.step circuit else (scheduler, circuit, .skipped)

/-- Steps a number of ticks and counts those that changed an output, on top of a count so far. -/
def stepMany (scheduler : Scheduler) (circuit : Circuit) (changed : Nat) :
    Nat → Scheduler × Circuit × Nat
  | 0 => (scheduler, circuit, changed)
  | left + 1 =>
    let (scheduler, circuit, outcome) := scheduler.step circuit
    scheduler.stepMany circuit (if outcome.changed then changed + 1 else changed) left

/-- Steps a number of ticks and counts those that changed an output. -/
def runTicks (scheduler : Scheduler) (circuit : Circuit) (ticks : Nat) :
    Scheduler × Circuit × Nat :=
  scheduler.stepMany circuit 0 ticks

end Scheduler

end Breadboard
