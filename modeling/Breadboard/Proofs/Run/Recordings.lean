import Breadboard.Config
import Breadboard.Proofs.Run.Agreement

/-!
# Runs that are recorded

The time of a sample is the number of its tick times the interval, and it is written as a number of 64
bits. Ticks and interval come from different places, and neither bounds the product. So a recorded run is
the run that it records as far as the times go. At the first tick whose time is beyond, it is given up,
where the run without a recording goes on.
-/

namespace Breadboard

/-- The last tick whose time is a number of 64 bits, if ticks are some time apart. -/
def Limits.lastTimed (limits : Limits) : Nat :=
  (wordLimit - 1) / limits.interval

/-- The ticks up to the last timed one are those whose time is a number of 64 bits. -/
theorem Limits.le_lastTimed_iff {limits : Limits} (apart : 0 < limits.interval) (tick : Nat) :
    tick ≤ limits.lastTimed ↔ tick * limits.interval < wordLimit := by
  have positive : 0 < wordLimit := by decide
  rw [lastTimed, Nat.le_div_iff_mul_le apart, Nat.le_sub_one_iff_lt positive]

variable {scheduler : Scheduler} {circuit : Circuit}

/-- What is recorded is there at the end of a run, whether it is completed or not.

Proof: by induction on the ticks. -/
theorem dump_runTicksFrom (recording : Recording) (summary : RunSummary) (tick ticks : Nat) :
    ∃ text, (runTicksFrom scheduler circuit summary (some recording) tick ticks).dump = some text := by
  induction ticks generalizing scheduler circuit recording summary tick with
  | zero => exact ⟨_, rfl⟩
  | succ ticks inductionHypothesis =>
    simp only [runTicksFrom, sampleIf]
    cases recording.sample (tick + 1) (scheduler.tick circuit).2.1 with
    | error fault => exact ⟨_, rfl⟩
    | ok sampled => exact inductionHypothesis sampled _ _

/-- A recorded run whose times are all numbers of 64 bits is the run that it records, with a dump. -/
theorem runTicksFrom_timed (recording : Recording) (summary : RunSummary) {tick ticks : Nat}
    (inTime : (tick + ticks) * recording.tracer.interval < wordLimit) : ∃ text,
    runTicksFrom scheduler circuit summary (some recording) tick ticks =
      ⟨(runTicksFrom scheduler circuit summary none tick ticks).circuit, some text,
        (runTicksFrom scheduler circuit summary none tick ticks).result⟩ := by
  obtain ⟨sameCircuit, sameResult⟩ :=
    @runTicksFrom_recording scheduler circuit recording summary tick ticks inTime
  obtain ⟨text, written⟩ := @dump_runTicksFrom scheduler circuit recording summary tick ticks
  exact ⟨text, by rw [← sameCircuit, ← sameResult, ← written]⟩

/-- A recorded run is given up behind the first tick whose time is no number of 64 bits, however many ticks
were to follow. The circuit has made that tick, and the dump holds what the ticks before it left.

Proof: by induction on the ticks before that one. -/
theorem runTicksFrom_overflow (recording : Recording) (summary : RunSummary) {tick ticks : Nat}
    (inTime : (tick + ticks) * recording.tracer.interval < wordLimit)
    (beyond : wordLimit ≤ (tick + ticks + 1) * recording.tracer.interval) (further : Nat) :
    ∃ text rest,
      runTicksFrom scheduler circuit summary (some recording) tick (ticks + further + 1) =
        ⟨(runTicksFrom scheduler circuit summary none tick (ticks + 1)).circuit, some text,
          .error (.fault .timeOverflow)⟩ ∧
      (runTicksFrom scheduler circuit summary (some recording) tick ticks).dump = some (text ++ rest) := by
  induction ticks generalizing scheduler circuit recording summary tick with
  | zero =>
    have refused : recording.sample (tick + 1) (scheduler.tick circuit).2.1 = .error .timeOverflow := by
      simp only [Recording.sample, Tracer.sample, if_neg (Nat.not_lt.mpr beyond)]
      rfl
    refine ⟨recording.text, recording.tracer.finish, ?_, rfl⟩
    simp only [runTicksFrom, sampleIf, refused]
    rfl
  | succ ticks inductionHypothesis =>
    have early : (tick + 1) * recording.tracer.interval < wordLimit :=
      Nat.lt_of_le_of_lt (Nat.mul_le_mul_right _ (by omega)) inTime
    obtain ⟨sampled, isSampled, sameInterval⟩ :=
      recording.sample_of_lt (scheduler.tick circuit).2.1 early
    have sameTick : tick + 1 + ticks = tick + (ticks + 1) := by omega
    have later := @inductionHypothesis (scheduler.tick circuit).1 (scheduler.tick circuit).2.1 sampled
      (summary.add (scheduler.tick circuit).2.2) (tick + 1)
      (by rwa [sameInterval, sameTick]) (by rwa [sameInterval, sameTick])
    rw [show ticks + 1 + further + 1 = ticks + further + 1 + 1 by omega]
    simp only [runTicksFrom, sampleIf, isSampled] at later ⊢
    exact later

/-- A run whose drives are carried out makes its ticks from one circuit, recorded or not, and the recording
has the interval of the run. -/
theorem simulate_of_driven {driven : Circuit} {options : RunOptions}
    (applied : applyDrives circuit options.drives = (driven, none)) (limits : Limits) :
    ∃ tuned recording, recording.tracer.interval = limits.interval ∧ ∀ ticks,
      simulate circuit limits { options with ticks := ticks, record := false } =
          runTicksFrom (Scheduler.new limits).start tuned ⟨0, 0, 0⟩ none 0 ticks ∧
        simulate circuit limits { options with ticks := ticks, record := true } =
          runTicksFrom (Scheduler.new limits).start tuned ⟨0, 0, 0⟩ (some recording) 0 ticks := by
  obtain ⟨_, drives, frequency, realtime, record⟩ := options
  cases frequency with
  | none =>
    obtain ⟨recording, sampled, atInterval⟩ := sampleIf_start driven limits.interval
    refine ⟨driven, recording, atInterval, fun ticks => ⟨?_, ?_⟩⟩
    · simp only [simulate, applied]
      rfl
    · simp only [simulate, applied, if_true, sampled]
  | some frequency =>
    obtain ⟨recording, sampled, atInterval⟩ := sampleIf_start (driven.retune frequency) limits.interval
    refine ⟨driven.retune frequency, recording, atInterval, fun ticks => ⟨?_, ?_⟩⟩
    · simp only [simulate, applied]
      rfl
    · simp only [simulate, applied, if_true, sampled]

/-- A run whose drives are carried out is completed if nothing is recorded, whatever its ticks do. If a
dump is recorded, the same run is completed, with the same result and circuit, as long as all times are
numbers of 64 bits. Otherwise the run is given up, and exactly behind the first tick whose time is no such
number: the circuit is what so many ticks make of it, and the dump breaks off behind what the ticks before
that one left. -/
theorem recorded_run_ends_at_overflow (circuit : Circuit) (limits : Limits) (options : RunOptions)
    (carriedOut : (applyDrives circuit options.drives).2 = none) : ∃ summary : RunSummary,
    (simulate circuit limits { options with record := false }).result = .ok summary ∧
      summary.ticks + summary.faulted = options.ticks ∧
      (options.ticks * limits.interval < wordLimit → ∃ text,
        simulate circuit limits { options with record := true } =
          ⟨(simulate circuit limits { options with record := false }).circuit, some text, .ok summary⟩) ∧
      (wordLimit ≤ options.ticks * limits.interval → limits.lastTimed < options.ticks ∧ ∃ text rest,
        simulate circuit limits { options with record := true } =
          ⟨(simulate circuit limits
              { options with ticks := limits.lastTimed + 1, record := false }).circuit,
            some text, .error (.fault .timeOverflow)⟩ ∧
        (simulate circuit limits { options with ticks := limits.lastTimed, record := true }).dump =
          some (text ++ rest)) := by
  obtain ⟨tuned, recording, atInterval, runs⟩ :=
    simulate_of_driven (Prod.ext rfl carriedOut : applyDrives circuit options.drives = (_, none)) limits
  have started : (Scheduler.new limits).start.running = true := rfl
  have active : (Scheduler.new limits).start.suspended = false := rfl
  have unrecorded := runTicksFrom_eq started tuned ⟨0, 0, 0⟩ 0 options.ticks
  refine ⟨_, by rw [(runs options.ticks).1, unrecorded], ?_, fun inTime => ?_, fun beyond => ?_⟩
  · simp only [RunSummary.join, Nat.zero_add]
    exact Scheduler.accounts_steps active tuned options.ticks
  · rw [← atInterval, ← Nat.zero_add options.ticks] at inTime
    obtain ⟨text, recorded⟩ := runTicksFrom_timed recording ⟨0, 0, 0⟩ inTime
    refine ⟨text, ?_⟩
    rw [(runs options.ticks).2, (runs options.ticks).1, recorded, unrecorded]
  · have apart : 0 < limits.interval := by
      refine Nat.pos_of_ne_zero fun together => ?_
      rw [together, Nat.mul_zero] at beyond
      exact absurd beyond (by decide)
    have late : limits.lastTimed < options.ticks := by
      rw [← Nat.not_le, Limits.le_lastTimed_iff apart, Nat.not_lt]
      exact beyond
    obtain ⟨further, split⟩ := Nat.exists_eq_add_of_lt late
    have last := (Limits.le_lastTimed_iff apart _).mp (Nat.le_refl limits.lastTimed)
    have next : wordLimit ≤ (limits.lastTimed + 1) * limits.interval := by
      rw [← Nat.not_lt, ← Limits.le_lastTimed_iff apart]
      exact Nat.not_succ_le_self _
    rw [← atInterval, ← Nat.zero_add limits.lastTimed] at last next
    obtain ⟨text, rest, givenUp, written⟩ := runTicksFrom_overflow recording ⟨0, 0, 0⟩ last next further
    refine ⟨late, text, rest, ?_, ?_⟩
    · rw [(runs (limits.lastTimed + 1)).1, ← givenUp, ← split, ← (runs options.ticks).2]
    · rw [(runs limits.lastTimed).2, written]

/-- Ticks of the blinker that are 2 ^ 62 milliseconds apart are recorded up to the third. Of five ticks
the fourth is made and the fifth is not, while all five are made if nothing is recorded. -/
theorem blinker_recorded : ∃ three five,
    (∃ text, simulate (.blinker 0) ⟨10, 20, 2 ^ 62⟩ ⟨3, [], none, false, true⟩ =
        ⟨(simulate (.blinker 0) ⟨10, 20, 2 ^ 62⟩ ⟨3, [], none, false, false⟩).circuit, some text,
          .ok three⟩) ∧
      three.ticks + three.faulted = 3 ∧
      (simulate (.blinker 0) ⟨10, 20, 2 ^ 62⟩ ⟨5, [], none, false, false⟩).result = .ok five ∧
      five.ticks + five.faulted = 5 ∧
      ∃ text, simulate (.blinker 0) ⟨10, 20, 2 ^ 62⟩ ⟨5, [], none, false, true⟩ =
        ⟨(simulate (.blinker 0) ⟨10, 20, 2 ^ 62⟩ ⟨4, [], none, false, false⟩).circuit, some text,
          .error (.fault .timeOverflow)⟩ := by
  obtain ⟨three, _, threeTicks, completed, _⟩ :=
    recorded_run_ends_at_overflow (.blinker 0) ⟨10, 20, 2 ^ 62⟩ ⟨3, [], none, false, true⟩ rfl
  obtain ⟨five, unrecorded, fiveTicks, _, givenUp⟩ :=
    recorded_run_ends_at_overflow (.blinker 0) ⟨10, 20, 2 ^ 62⟩ ⟨5, [], none, false, true⟩ rfl
  obtain ⟨_, text, _, ended, _⟩ := givenUp (by decide)
  exact ⟨three, five, completed (by decide), threeTicks, unrecorded, fiveTicks, text, ended⟩

/-- Three ticks that are 2 ^ 63 - 1 milliseconds apart. -/
def Config.patient : Config :=
  ⟨⟨10, 20, 2 ^ 63 - 1⟩, none, 3, false⟩

/-- A lamp on its own. -/
def Circuit.loneLamp : Circuit :=
  ⟨⟨[some (.ofPart (.light true))]⟩, [], 1⟩

/-- The patient configuration is accepted, and the run of its ticks is given up if it is recorded, where
it is completed otherwise. -/
theorem Config.patient_ends_recording :
    patient.check = .ok patient ∧
      (simulate .loneLamp patient.limits
        ⟨patient.ticks, [], patient.frequency, patient.realtime, false⟩).result.toOption = some ⟨3, 0, 0⟩ ∧
      (simulate .loneLamp patient.limits
        ⟨patient.ticks, [], patient.frequency, patient.realtime, true⟩).result =
          .error (.fault .timeOverflow) := by
  refine ⟨rfl, by decide +kernel, ?_⟩
  have reported : (match (simulate .loneLamp patient.limits
      ⟨patient.ticks, [], patient.frequency, patient.realtime, true⟩).result with
    | .error error => some error
    | .ok _ => none) = some (.fault .timeOverflow) := by
    decide +kernel
  split at reported
  · next error ended => rw [ended, Option.some.inj reported]
  · cases reported

end Breadboard
