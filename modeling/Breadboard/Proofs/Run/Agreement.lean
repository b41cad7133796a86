import Breadboard.Console.Session
import Breadboard.Proofs.Json.Numerals
import Breadboard.Proofs.Run.Ticking
import Breadboard.Proofs.Workshop.Stability

/-!
# All ways to tick agree

Batch runs, the scheduler's own loop and the commands of a session each tick a circuit and count on their
own what its ticks did. All of them make the ticks of a scheduler one after the other. Only a batch run
that continues another one starts with a new scheduler, and with a circuit of a workshop that makes no
difference.
-/

namespace Breadboard

/-- The options of a batch run that does nothing but tick. -/
def RunOptions.only (ticks : Nat) : RunOptions :=
  ⟨ticks, [], none, false, false⟩

/-- The reply tells that a tick changed some output: behind the first colon stands `changed`. -/
def Reply.tellsChange : Reply → Bool
  | .shown text => ": changed".toList.isPrefixOf (text.toList.dropWhile (· != ':'))
  | .quit => false

/-- Carries out commands one after the other, up to the first that is refused. -/
def Session.executeAll (session : Session) : List Command → Except DriveError (Session × List Reply)
  | [] => .ok (session, [])
  | command :: rest => do
    let (next, reply) ← session.execute command
    let (last, replies) ← next.executeAll rest
    return (last, reply :: replies)

variable {scheduler : Scheduler} {circuit : Circuit}

/-- The scheduler's own loop makes ticks one after the other and counts those that changed an output.

Proof: by induction on the ticks. -/
theorem Scheduler.stepMany_eq (scheduler : Scheduler) (circuit : Circuit) (changed ticks : Nat) :
    scheduler.stepMany circuit changed ticks =
      ((scheduler.steps circuit ticks).1, (scheduler.steps circuit ticks).2.1,
        changed + (RunSummary.total (scheduler.steps circuit ticks).2.2).changed) := by
  induction ticks generalizing scheduler circuit changed with
  | zero => rfl
  | succ ticks inductionHypothesis =>
    have joined := RunSummary.total_cons (scheduler.step circuit).2.2
      ((scheduler.step circuit).1.steps (scheduler.step circuit).2.1 ticks).2.2
    have counted : (if (scheduler.step circuit).2.2.changed then changed + 1 else changed) =
        changed + (RunSummary.total [(scheduler.step circuit).2.2]).changed := by
      cases (scheduler.step circuit).2.2 with
      | settled changed passes => cases changed <;> rfl
      | _ => rfl
    rw [show scheduler.stepMany circuit changed (ticks + 1) =
        (scheduler.step circuit).1.stepMany (scheduler.step circuit).2.1
          (if (scheduler.step circuit).2.2.changed then changed + 1 else changed) ticks from rfl,
      inductionHypothesis, counted, steps_succ, joined, Nat.add_assoc]
    rfl

/-- A batch run that records nothing makes ticks one after the other and sums up their outcomes.

Proof: by induction on the ticks. -/
theorem runTicksFrom_eq (running : scheduler.running = true) (circuit : Circuit) (summary : RunSummary)
    (tick ticks : Nat) :
    runTicksFrom scheduler circuit summary none tick ticks =
      ⟨(scheduler.steps circuit ticks).2.1, none,
        .ok (summary.join (.total (scheduler.steps circuit ticks).2.2))⟩ := by
  induction ticks generalizing scheduler circuit summary tick with
  | zero => rfl
  | succ ticks inductionHypothesis =>
    obtain ⟨_, stillRunning, _, _⟩ := scheduler.step_frame circuit
    have ticked : scheduler.tick circuit = scheduler.step circuit := by
      rw [Scheduler.tick, if_pos running]
    rw [runTicksFrom, ticked]
    simp only [sampleIf]
    rw [inductionHypothesis (stillRunning.trans running), ← RunSummary.foldl_add,
      ← RunSummary.foldl_add]
    rfl

/-- A batch run that only ticks makes the ticks of a new scheduler. -/
theorem simulate_only (circuit : Circuit) (limits : Limits) (ticks : Nat) :
    simulate circuit limits (.only ticks) =
      ⟨((Scheduler.new limits).start.steps circuit ticks).2.1, none,
        .ok (.total ((Scheduler.new limits).start.steps circuit ticks).2.2)⟩ := by
  have started : (Scheduler.new limits).start.running = true := rfl
  have zero (summary : RunSummary) : RunSummary.join ⟨0, 0, 0⟩ summary = summary := by
    simp only [RunSummary.join, Nat.zero_add]
  rw [← zero (.total _), ← runTicksFrom_eq started circuit ⟨0, 0, 0⟩ 0 ticks]
  rfl

/-- A recording takes a sample whose time is a number of 64 bits, and goes on at the same interval. -/
theorem Recording.sample_of_lt (recording : Recording) {tick : Nat} (circuit : Circuit)
    (inTime : tick * recording.tracer.interval < wordLimit) :
    ∃ sampled, recording.sample tick circuit = .ok sampled ∧
      sampled.tracer.interval = recording.tracer.interval := by
  simp only [sample, Tracer.sample, if_pos inTime]
  exact ⟨_, rfl, rfl⟩

/-- A recording takes a sample before the first tick. -/
theorem sampleIf_start (circuit : Circuit) (interval : Nat) : ∃ recording,
    sampleIf (some (.start circuit interval)) 0 circuit = .ok (some recording) ∧
      recording.tracer.interval = interval := by
  obtain ⟨recording, isSampled, atInterval⟩ :=
    (Recording.start circuit interval).sample_of_lt circuit (by rw [Nat.zero_mul]; decide)
  exact ⟨recording, by rw [sampleIf, isSampled]; rfl, atInterval⟩

/-- A recording has no say in what the ticks of a batch run do, as long as all times are numbers of 64
bits.

Proof: by induction on the ticks. -/
theorem runTicksFrom_recording (recording : Recording) (summary : RunSummary) {tick ticks : Nat}
    (inTime : (tick + ticks) * recording.tracer.interval < wordLimit) :
    (runTicksFrom scheduler circuit summary (some recording) tick ticks).circuit =
        (runTicksFrom scheduler circuit summary none tick ticks).circuit ∧
      (runTicksFrom scheduler circuit summary (some recording) tick ticks).result =
        (runTicksFrom scheduler circuit summary none tick ticks).result := by
  induction ticks generalizing scheduler circuit recording summary tick with
  | zero => exact ⟨rfl, rfl⟩
  | succ ticks inductionHypothesis =>
    have early : (tick + 1) * recording.tracer.interval < wordLimit :=
      Nat.lt_of_le_of_lt (Nat.mul_le_mul_right _ (by omega)) inTime
    obtain ⟨sampled, isSampled, sameInterval⟩ :=
      recording.sample_of_lt (scheduler.tick circuit).2.1 early
    have rest : (tick + 1 + ticks) * sampled.tracer.interval < wordLimit := by
      rwa [sameInterval, Nat.add_assoc, Nat.add_comm 1 ticks]
    have further := @inductionHypothesis (scheduler.tick circuit).1 (scheduler.tick circuit).2.1 sampled
      (summary.add (scheduler.tick circuit).2.2) (tick + 1) rest
    simp only [runTicksFrom, sampleIf, isSampled]
    exact further

/-- What a batch run makes of a circuit, and its result, do not depend on whether ticks are shown in real
time; nor on whether a dump is recorded, as long as all times are numbers of 64 bits. -/
theorem simulate_unobserved (circuit : Circuit) (limits : Limits) (options : RunOptions)
    (inTime : options.record = true → options.ticks * limits.interval < wordLimit) :
    (simulate circuit limits options).circuit =
        (simulate circuit limits { options with realtime := false, record := false }).circuit ∧
      (simulate circuit limits options).result =
        (simulate circuit limits { options with realtime := false, record := false }).result := by
  obtain ⟨ticks, drives, frequency, realtime, record⟩ := options
  cases record with
  | false => exact ⟨rfl, rfl⟩
  | true =>
    have recorded (tuned : Circuit) : ∃ sampled,
        sampleIf (some (.start tuned limits.interval)) 0 tuned = .ok (some sampled) ∧
        (runTicksFrom (Scheduler.new limits).start tuned ⟨0, 0, 0⟩ (some sampled) 0 ticks).circuit =
            (runTicksFrom (Scheduler.new limits).start tuned ⟨0, 0, 0⟩ none 0 ticks).circuit ∧
          (runTicksFrom (Scheduler.new limits).start tuned ⟨0, 0, 0⟩ (some sampled) 0 ticks).result =
            (runTicksFrom (Scheduler.new limits).start tuned ⟨0, 0, 0⟩ none 0 ticks).result := by
      obtain ⟨sampled, isSampled, atInterval⟩ := sampleIf_start tuned limits.interval
      refine ⟨sampled, isSampled, runTicksFrom_recording sampled ⟨0, 0, 0⟩ ?_⟩
      rw [atInterval, Nat.zero_add]
      exact inTime rfl
    simp only [simulate, if_true]
    rcases applyDrives circuit drives with ⟨driven, _ | error⟩
    · cases frequency with
      | none =>
        obtain ⟨sampled, isSampled, same⟩ := recorded driven
        simp only [isSampled]
        exact same
      | some frequency =>
        obtain ⟨sampled, isSampled, same⟩ := recorded (driven.retune frequency)
        simp only [isSampled]
        exact same
    · exact ⟨rfl, rfl⟩

namespace Reply

/-- The reply to a tick that was not let through tells no change. -/
theorem tellsChange_skipped : tellsChange (.shown "Tick skipped") = false := by
  simp only [tellsChange, String.reduceToList]
  rfl

/-- The reply to a tick that settled tells whether it changed some output. -/
theorem tellsChange_settled (tick passes : Nat) (changed : Bool) :
    tellsChange (.shown ("Tick " ++ decimalText tick ++ ": " ++
      (if changed then "changed" else "stable") ++ " after " ++ decimalText passes ++ " pass(es)")) =
      changed := by
  have digits : ∀ c ∈ Text.decimal tick, (c != ':') = true := by
    intro c member
    have digit := Text.isDigit_of_mem_decimal tick c member
    by_contra colon
    simp only [bne_iff_ne, Ne, Decidable.not_not] at colon
    subst colon
    revert digit
    decide
  cases changed with
  | true =>
    simp only [tellsChange, decimalText, String.toList_append, String.reduceToList, String.toList_ofList,
      if_true, List.append_assoc]
    rw [List.dropWhile_append_of_pos (by simp), List.dropWhile_append_of_pos digits]
    rfl
  | false =>
    simp only [tellsChange, decimalText, String.toList_append, String.reduceToList, String.toList_ofList,
      Bool.false_eq_true, if_false, List.append_assoc]
    rw [List.dropWhile_append_of_pos (by simp), List.dropWhile_append_of_pos digits]
    rfl

/-- The reply to a tick that was given up tells no change. -/
theorem tellsChange_faulted (error : InternalError) :
    tellsChange (.shown ("Tick abandoned: " ++ error.message)) = false := by
  have spelled : error.message = "internal simulator error: " ++ error.description := rfl
  rw [spelled]
  simp only [tellsChange, String.toList_append, String.reduceToList]
  rfl

end Reply

namespace Session

/-- A step of a session makes a tick, and the reply tells whether it changed some output. -/
theorem step_eq (session : Session) : ∃ reply,
    session.step = ({ session with
      circuit := (session.scheduler.step session.circuit).2.1
      scheduler := (session.scheduler.step session.circuit).1 }, reply) ∧
      reply.tellsChange = (session.scheduler.step session.circuit).2.2.changed := by
  rw [Session.step]
  rcases session.scheduler.step session.circuit with ⟨next, reached, outcome⟩
  cases outcome with
  | skipped => exact ⟨_, rfl, Reply.tellsChange_skipped⟩
  | settled changed passes => exact ⟨_, rfl, Reply.tellsChange_settled next.ticks passes changed⟩
  | faulted error => exact ⟨_, rfl, Reply.tellsChange_faulted error⟩

/-- Steps of a session make ticks one after the other, and the replies tell which of them changed some
output.

Proof: by induction on the steps. -/
theorem executeAll_steps (session : Session) (ticks : Nat) : ∃ replies,
    session.executeAll (List.replicate ticks .step) =
        .ok ({ session with
          circuit := (session.scheduler.steps session.circuit ticks).2.1
          scheduler := (session.scheduler.steps session.circuit ticks).1 }, replies) ∧
      replies.countP Reply.tellsChange =
        (RunSummary.total (session.scheduler.steps session.circuit ticks).2.2).changed := by
  induction ticks generalizing session with
  | zero => exact ⟨[], rfl, rfl⟩
  | succ ticks inductionHypothesis =>
    obtain ⟨reply, stepped, tells⟩ := session.step_eq
    obtain ⟨replies, executed, told⟩ := inductionHypothesis { session with
      circuit := (session.scheduler.step session.circuit).2.1
      scheduler := (session.scheduler.step session.circuit).1 }
    refine ⟨reply :: replies, ?_, ?_⟩
    · rw [List.replicate_succ, executeAll, execute, stepped]
      simp only [bind, Except.bind, executed]
      rfl
    · have joined := RunSummary.total_cons (session.scheduler.step session.circuit).2.2
        ((session.scheduler.step session.circuit).1.steps
          (session.scheduler.step session.circuit).2.1 ticks).2.2
      rw [List.countP_cons, told, Scheduler.steps_succ, joined, tells, Nat.add_comm]
      cases (session.scheduler.step session.circuit).2.2 with
      | settled changed passes => cases changed <;> rfl
      | _ => rfl

end Session

namespace Workshop

/-- However a circuit of a workshop is ticked, it comes to the same. A batch run of some ticks that is
continued by another one, one batch run of all the ticks, the scheduler's own loop, the command for so many
ticks and as many commands for one tick leave the same circuit; every tick is counted as evaluated or as
given up; and what they tell of the ticks that changed an output agrees. To record a dump, as long as all
times are numbers of 64 bits, or to show ticks in real time changes neither circuit nor result of any batch
run.

Proof: all of them make the ticks of a scheduler one after the other. The second batch run starts with a
new scheduler where the first one kept netlists, which makes no difference since no netlist is stale. -/
theorem drivers_agree (actions : List Action) {address : Address} {circuit : Circuit}
    (found : (opened.run actions).circuit? address = some circuit) (limits : Limits) (m n : Nat) :
    ∃ halfway final first second scheduler replies,
      simulate circuit limits (.only m) = ⟨halfway, none, .ok first⟩ ∧
      simulate halfway limits (.only n) = ⟨final, none, .ok second⟩ ∧
      simulate circuit limits (.only (m + n)) = ⟨final, none, .ok (first.join second)⟩ ∧
      first.ticks + first.faulted = m ∧ second.ticks + second.faulted = n ∧
      (Scheduler.new limits).runTicks circuit (m + n) =
        (scheduler, final, first.changed + second.changed) ∧
      scheduler.ticks = first.ticks + second.ticks ∧
      (Session.new circuit limits).execute (.run (m + n)) = .ok (⟨final, scheduler, []⟩,
        .shown ("Ran " ++ decimalText (m + n) ++ " tick(s), " ++
          decimalText (first.changed + second.changed) ++ " with changes; now at tick " ++
          decimalText (first.ticks + second.ticks))) ∧
      (Session.new circuit limits).executeAll (List.replicate (m + n) .step) =
        .ok (⟨final, scheduler, []⟩, replies) ∧
      replies.countP Reply.tellsChange = first.changed + second.changed ∧
      ∀ (other : Circuit) (options : RunOptions),
        (options.record = true → options.ticks * limits.interval < wordLimit) →
          (simulate other limits options).circuit =
              (simulate other limits { options with realtime := false, record := false }).circuit ∧
            (simulate other limits options).result =
              (simulate other limits { options with realtime := false, record := false }).result := by
  obtain ⟨table, sound⟩ := sound_run actions
  have tabled := sound.tabled_of_circuit? found
  have fresh := Scheduler.ready_new table limits
  have started : (Scheduler.new limits).start.Ready table limits := ⟨rfl, rfl, fresh.knows⟩
  let halfway := (Scheduler.new limits).start.steps circuit m
  let rest := (Scheduler.new limits).start.steps halfway.2.1 n
  have whole : ((Scheduler.new limits).start.steps circuit (m + n)).2 =
      (rest.2.1, halfway.2.2 ++ rest.2.2) :=
    Scheduler.steps_handed_over tabled started started m n
  -- the loop and the session do not start their schedulers
  have unstarted : ((Scheduler.new limits).steps circuit (m + n)).2 =
      (rest.2.1, halfway.2.2 ++ rest.2.2) := by
    rw [Scheduler.steps_alike tabled fresh started, whole]
  have summed : RunSummary.total (halfway.2.2 ++ rest.2.2) =
      (RunSummary.total halfway.2.2).join (.total rest.2.2) :=
    RunSummary.total_append halfway.2.2 rest.2.2
  obtain ⟨replies, executed, told⟩ := (Session.new circuit limits).executeAll_steps (m + n)
  have looped : (Scheduler.new limits).runTicks circuit (m + n) =
      (((Scheduler.new limits).steps circuit (m + n)).1, rest.2.1,
        (RunSummary.total halfway.2.2).changed + (RunSummary.total rest.2.2).changed) := by
    rw [Scheduler.runTicks, Scheduler.stepMany_eq, unstarted, summed, Nat.zero_add]
    rfl
  have ticks : ((Scheduler.new limits).steps circuit (m + n)).1.ticks =
      (RunSummary.total halfway.2.2).ticks + (RunSummary.total rest.2.2).ticks := by
    rw [Scheduler.ticks_steps, unstarted, summed]
    exact Nat.zero_add _
  refine ⟨halfway.2.1, rest.2.1, .total halfway.2.2, .total rest.2.2,
    ((Scheduler.new limits).steps circuit (m + n)).1, replies, simulate_only circuit limits m,
    simulate_only halfway.2.1 limits n, ?_, Scheduler.accounts_steps started.active circuit m,
    Scheduler.accounts_steps started.active halfway.2.1 n, looped, ticks, ?_, ?_, ?_,
    fun other options inTime => simulate_unobserved other limits options inTime⟩
  · rw [simulate_only, whole, summed]
  · rw [Session.execute, Session.run, Session.new, looped, ← ticks]
  · rw [executed]
    change Except.ok ((⟨((Scheduler.new limits).steps circuit (m + n)).2.1,
      ((Scheduler.new limits).steps circuit (m + n)).1, []⟩ : Session), replies) = _
    rw [unstarted]
  · rw [told]
    change (RunSummary.total ((Scheduler.new limits).steps circuit (m + n)).2.2).changed = _
    rw [unstarted, summed]
    rfl

/-- A switch and a clock whose count is full. -/
def stuckClock : List Action :=
  [.create,
    .edit ⟨0, []⟩ (.add (.ofPart (.switch true))),
    .edit ⟨0, []⟩ (.add (.ofPart (.clock ⟨⟨10.0⟩, true, false, wordLimit - 1⟩)))]

/-- Three ticks of the delayed lamp, of which the first changes it, and three ticks that the stuck clock
makes fault come to the same, whether they are made in one run, in two, or by commands. -/
theorem delayedLamp_agrees :
    (∃ circuit final scheduler replies,
      (opened.run (delayedLamp .standard).dropLast).circuit? ⟨1, []⟩ = some circuit ∧
        simulate circuit .standard (.only 3) = ⟨final, none, .ok ⟨3, 1, 0⟩⟩ ∧
        (Scheduler.new .standard).runTicks circuit 3 = (scheduler, final, 1) ∧
        (Session.new circuit .standard).executeAll (List.replicate 3 .step) =
          .ok (⟨final, scheduler, []⟩, replies) ∧
        replies.countP Reply.tellsChange = 1) ∧
      ∃ circuit halfway final, (opened.run stuckClock).circuit? ⟨0, []⟩ = some circuit ∧
        simulate circuit .standard (.only 1) = ⟨halfway, none, .ok ⟨0, 0, 1⟩⟩ ∧
        simulate halfway .standard (.only 2) = ⟨final, none, .ok ⟨0, 0, 2⟩⟩ ∧
        simulate circuit .standard (.only 3) = ⟨final, none, .ok ⟨0, 0, 3⟩⟩ ∧
        (simulate circuit .standard ⟨3, [], none, true, true⟩).circuit = final := by
  constructor
  · have summary : ((opened.run (delayedLamp .standard).dropLast).circuit? ⟨1, []⟩).map (fun circuit =>
        (simulate circuit .standard (.only 3)).result.toOption) = some (some ⟨3, 1, 0⟩) := by
      decide +kernel
    obtain ⟨circuit, found, sums⟩ := Option.map_eq_some_iff.mp summary
    obtain ⟨_, final, first, second, scheduler, replies, _, _, whole, _, _, looped, _, _, executed, told,
      _⟩ := drivers_agree _ found .standard 1 2
    rw [whole] at sums
    have joined : first.join second = ⟨3, 1, 0⟩ := Option.some.inj sums
    have changed : first.changed + second.changed = 1 := congrArg RunSummary.changed joined
    rw [joined] at whole
    rw [changed] at looped told
    exact ⟨circuit, final, scheduler, replies, found, whole, looped, executed, told⟩
  · have summaries : ((opened.run stuckClock).circuit? ⟨0, []⟩).map (fun circuit =>
        ((simulate circuit .standard (.only 1)).result.toOption,
          (simulate circuit .standard (.only 3)).result.toOption)) =
        some (some ⟨0, 0, 1⟩, some ⟨0, 0, 3⟩) := by
      decide +kernel
    obtain ⟨circuit, found, sums⟩ := Option.map_eq_some_iff.mp summaries
    obtain ⟨sumFirst, sumWhole⟩ := Prod.mk.inj sums
    obtain ⟨halfway, final, first, second, _, _, start, rest, whole, _, _, _, _, _, _, _, unobserved⟩ :=
      drivers_agree _ found .standard 1 2
    rw [start] at sumFirst
    rw [whole] at sumWhole
    obtain rfl : first = ⟨0, 0, 1⟩ := Option.some.inj sumFirst
    have joined : RunSummary.join ⟨0, 0, 1⟩ second = ⟨0, 0, 3⟩ := Option.some.inj sumWhole
    obtain ⟨ticks, changed, faulted⟩ := second
    simp only [RunSummary.join, RunSummary.mk.injEq] at joined
    obtain ⟨rfl, rfl, rfl⟩ : ticks = 0 ∧ changed = 0 ∧ faulted = 2 := by omega
    obtain ⟨recorded, _⟩ := unobserved circuit ⟨3, [], none, true, true⟩ fun _ => by decide
    refine ⟨circuit, halfway, final, found, start, rest, whole, recorded.trans ?_⟩
    exact congrArg RunRecord.circuit whole

end Workshop

end Breadboard
