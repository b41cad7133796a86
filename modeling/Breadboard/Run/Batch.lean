import Breadboard.Circuit.Nesting
import Breadboard.Engine.Scheduler
import Breadboard.Run.Drive
import Breadboard.Wave.Tracer

/-!
# Batch runs

A batch run drives a circuit, ticks it a number of times and may record a dump. Drives are carried
out one after the other, and the first that is refused ends the run. The circuit is part of the
record in any case, as it was reached.
-/

namespace Breadboard

/-- What a batch run is asked to do. -/
structure RunOptions where
  ticks : Nat
  /-- Drives before the first tick, written `NAME=LITERAL`. -/
  drives : List String
  /-- A frequency for every oscillator at every depth. -/
  frequency : Option Frequency
  /-- Ticks are shown one interval apart; the run itself is the same. -/
  realtime : Bool
  /-- A dump of the visible nodes is recorded. -/
  record : Bool

/-- What a batch run did. -/
structure RunSummary where
  /-- Ticks evaluated. -/
  ticks : Nat
  /-- Ticks that changed some output. -/
  changed : Nat
  /-- Ticks given up. -/
  faulted : Nat
deriving DecidableEq

/-- The summary with one more tick. -/
def RunSummary.add (summary : RunSummary) : TickOutcome → RunSummary
  | .skipped => summary
  | .settled changed _ =>
    { summary with
      ticks := summary.ticks + 1
      changed := if changed then summary.changed + 1 else summary.changed }
  | .faulted _ => { summary with faulted := summary.faulted + 1 }

/-- What ends a batch run early. -/
inductive RunError where
  | drive (error : DriveError)
  | fault (fault : Fault)
deriving DecidableEq

/-- A recording in progress: the tracer and what was written so far. -/
structure Recording where
  tracer : Tracer
  text : String
deriving DecidableEq

namespace Recording

/-- Begins to record a circuit. -/
def start (circuit : Circuit) (interval : Nat) : Recording :=
  let (tracer, text) := Tracer.attach circuit "circuit" interval
  ⟨tracer, text⟩

/-- Samples after a tick. -/
def sample (recording : Recording) (tick : Nat) (circuit : Circuit) : Except Fault Recording :=
  (recording.tracer.sample tick circuit).map fun (tracer, text) =>
    ⟨tracer, recording.text ++ text⟩

/-- Ends the recording. -/
def finish (recording : Recording) : Recording :=
  { recording with text := recording.text ++ recording.tracer.finish }

end Recording

/-- Samples after a tick if there is a recording. -/
def sampleIf (recording : Option Recording) (tick : Nat) (circuit : Circuit) :
    Except Fault (Option Recording) :=
  match recording with
  | some recording => (recording.sample tick circuit).map some
  | none => .ok none

/-- A batch run at its end. -/
structure RunRecord where
  circuit : Circuit
  /-- The dump, as far as it was written. -/
  dump : Option String
  result : Except RunError RunSummary

/-- Carries out drives up to the first that is refused. -/
def applyDrives (circuit : Circuit) : List String → Circuit × Option DriveError
  | [] => (circuit, none)
  | assignment :: rest =>
    match circuit.applyDrive assignment with
    | .ok (_, driven) => applyDrives driven rest
    | .error error => (circuit, some error)

/-- Ticks a circuit so many times, after the tick of the given number. -/
def runTicksFrom (scheduler : Scheduler) (circuit : Circuit) (summary : RunSummary)
    (recording : Option Recording) (tick : Nat) : Nat → RunRecord
  | 0 =>
    let finished := recording.map Recording.finish
    ⟨circuit, finished.map Recording.text, .ok summary⟩
  | left + 1 =>
    let (scheduler, circuit, outcome) := scheduler.tick circuit
    match sampleIf recording (tick + 1) circuit with
    | .ok recording =>
      runTicksFrom scheduler circuit (summary.add outcome) recording (tick + 1) left
    | .error fault => ⟨circuit, recording.map Recording.text, .error (.fault fault)⟩

/-- Carries out a batch run. -/
def simulate (circuit : Circuit) (limits : Limits) (options : RunOptions) : RunRecord :=
  match applyDrives circuit options.drives with
  | (driven, some error) => ⟨driven, none, .error (.drive error)⟩
  | (driven, none) =>
    let tuned := match options.frequency with
      | some frequency => driven.retune frequency
      | none => driven
    let recording := if options.record then some (Recording.start tuned limits.interval) else none
    match sampleIf recording 0 tuned with
    | .ok sampled =>
      runTicksFrom (Scheduler.new limits).start tuned ⟨0, 0, 0⟩ sampled 0 options.ticks
    | .error fault => ⟨tuned, recording.map Recording.text, .error (.fault fault)⟩

end Breadboard
