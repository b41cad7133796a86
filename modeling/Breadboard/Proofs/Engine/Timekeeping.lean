import Breadboard.Proofs.Circuit.Editing
import Breadboard.Proofs.Engine.Clockwork
import Breadboard.Proofs.Safety.Runs

/-!
# Clocks keep exact time

A tick that reports moves every running oscillator of its level by one, whatever the wires, the other
nodes and the limits are, and no oscillator inside a chip. Drives, structural edits at any depth and what
the scheduler is told move none. So over a run an oscillator of the level moves by the number of ticks
that were counted, and once a tick was counted it drives its output.
-/

namespace Breadboard

/-- The oscillator at the end of a path after some ticks. On the level itself it has gone on by all of
them, and inside a chip it stands. -/
def Oscillator.moved (interval ticks : Nat) (path : List NodeId) (o : Oscillator) : Oscillator :=
  match path with
  | [] => (next interval)^[ticks] o
  | _ :: _ => o

/-- After no tick an oscillator is what it was. -/
@[simp] theorem Oscillator.moved_zero (interval : Nat) (path : List NodeId) (o : Oscillator) :
    o.moved interval 0 path = o := by
  cases path <;> rfl

namespace Circuit

/-- The node under a handle drives the output of its oscillator, if it is one. -/
def DrivesClock (circuit : Circuit) (id : NodeId) : Prop :=
  ∀ node, circuit.node? id = some node → node.DrivesClock

/-- For the oscillator at an address the second circuit is the first one some ticks later. On the level
it drives its output after any tick, and goes on to do so. -/
structure Later (interval ticks : Nat) (path : List NodeId) (id : NodeId) (before after : Circuit) :
    Prop where
  moved : ∀ oscillator, before.oscillator? path id = some oscillator →
    after.oscillator? path id = some (oscillator.moved interval ticks path)
  drives : ∀ oscillator, before.oscillator? path id = some oscillator → path = [] →
    0 < ticks ∨ before.DrivesClock id → after.DrivesClock id

variable {interval few more : Nat} {path : List NodeId} {id : NodeId} {before between after : Circuit}

/-- Where the node that an address begins with has kept time, no tick has gone by at the address. -/
theorem later_of_kept
    (kept : ∀ node, before.node? (path.headD id) = some node →
      ∃ other, after.node? (path.headD id) = some other ∧ node.KeepsTime other) :
    Later interval 0 path id before after := by
  refine ⟨fun oscillator found => ?_, fun oscillator found level drives => ?_⟩
  · rw [Oscillator.moved_zero]
    refine oscillator?_of_clockwork (fun node here => ?_) found
    obtain ⟨other, foundOther, keeps⟩ := kept node here
    exact ⟨other, foundOther, keeps.1.symm⟩
  · subst level
    rw [oscillator?_level, Option.bind_eq_some_iff] at found
    obtain ⟨node, here, _⟩ := found
    obtain ⟨other, foundOther, keeps⟩ := kept node here
    intro reached foundReached
    obtain rfl : other = reached := Option.some.inj (foundOther.symm.trans foundReached)
    exact keeps.2 (drives.resolve_left (Nat.lt_irrefl 0) node here)

/-- Where nothing changed no tick has gone by. -/
theorem Later.refl (circuit : Circuit) : Later interval 0 path id circuit circuit :=
  later_of_kept fun node found => ⟨node, found, .refl node⟩

/-- Between circuits whose nodes kept time no tick has gone by anywhere. -/
theorem Related.later (related : Related Node.KeepsTime before after) :
    Later interval 0 path id before after :=
  later_of_kept fun _ found => related.node? found

/-- Ticks after ticks add up. -/
theorem Later.trans (one : Later interval few path id before between)
    (two : Later interval more path id between after) :
    Later interval (few + more) path id before after := by
  refine ⟨fun oscillator found => ?_, fun oscillator found level drives => ?_⟩
  · rw [two.moved _ (one.moved oscillator found)]
    cases path with
    | nil => rw [Oscillator.moved, Oscillator.moved, Oscillator.moved, Nat.add_comm,
        Function.iterate_add_apply]
    | cons first path => rfl
  · refine two.drives _ (one.moved oscillator found) level ?_
    by_cases further : 0 < more
    · exact .inl further
    · refine .inr (one.drives oscillator found level (drives.imp_left fun positive => ?_))
      omega

/-- The beginning of a tick that meets no fault is one tick. -/
theorem later_beginTick {circuit : Circuit} (faultless : (circuit.beginTick interval).2 = none) :
    Later interval 1 path id circuit (circuit.beginTick interval).1 := by
  have begins := beginTick_none_iff.mp faultless
  rw [beginTick_exact faultless]
  have nodes (id : NodeId) :
      Circuit.node? { circuit with nodes := circuit.nodes.map (Node.begun interval) } id =
        (circuit.node? id).map (Node.begun interval) := Arena.get?_map ..
  refine ⟨fun oscillator found => ?_, fun oscillator found level _ node here => ?_⟩
  · cases path with
    | nil =>
      rw [oscillator?_level, Option.bind_eq_some_iff] at found
      obtain ⟨node, here, isClock⟩ := found
      rw [oscillator?_level, nodes, here, Option.map_some, Option.bind_some,
        Node.oscillator?_begun (begins id node here), isClock]
      rfl
    | cons first path =>
      obtain ⟨node, body, here, isChip, inside⟩ := oscillator?_inside.mp found
      refine oscillator?_inside.mpr
        ⟨node.begun interval, body, ?_, Node.chip_begun_iff.mpr isChip, inside⟩
      rw [nodes, here, Option.map_some]
  · rw [nodes] at here
    obtain ⟨original, foundBefore, rfl⟩ := Option.map_eq_some_iff.mp here
    exact Node.drivesClock_begun (begins id original foundBefore)

/-- An evaluation at the top that reports is one tick, whatever the wires, the other nodes and the limits
are and whatever netlists and pins it goes by. -/
theorem later_evaluate {limits : Limits} {circuit : Circuit} {cache : NetlistCache} {report : Settling}
    (reported : (circuit.evaluate limits .top cache).2.2 = .ok report) :
    Later limits.interval 1 path id circuit (circuit.evaluate limits .top cache).1 := by
  have faultless : (circuit.beginTick limits.interval).2 = none :=
    faultless_of_evaluate (show EvalContext.top.depth ≤ limits.maxDepth from Nat.zero_le _) reported
  have settled : Related Node.KeepsTime (circuit.beginTick limits.interval).1
      (circuit.evaluate limits .top cache).1 := by
    rw [evaluate_of_begun cache faultless]
    exact (Node.passInvariant_keepsTime.settle limits.maxPasses limits.maxDepth _ trivial trivial).1
  exact (later_beginTick faultless).trans settled.later

/-- Where there is no oscillator at an address, any number of ticks may have gone by. -/
theorem later_of_none {ticks : Nat} (missing : before.oscillator? path id = none) :
    Later interval ticks path id before after :=
  ⟨fun _ found => absurd (missing.symm.trans found) nofun,
    fun _ found => absurd (missing.symm.trans found) nofun⟩

/-- A change of the circuit that some path leads into moves no oscillator on the level. -/
theorem later_refit {circuit : Circuit} {change : Circuit → Circuit} {chip : NodeId} :
    Later interval 0 [] id circuit (circuit.modifyNode chip (Node.refit change)) := by
  cases found : circuit.oscillator? [] id with
  | none => exact later_of_none found
  | some oscillator =>
    refine later_of_kept fun node here => ⟨node, ?_, .refl node⟩
    have here : circuit.node? id = some node := here
    have unchanged : node.refit change = node := by
      rw [oscillator?_level, here] at found
      obtain ⟨label, position, part, inputs, outputs⟩ := node
      cases part with
      | chip body => cases found
      | _ => rfl
    rw [List.headD_nil, node?_modifyNode, here, Option.map_some, unchanged, ite_self]

/-- A change of the circuit that some path leads into moves an oscillator inside a chip no further than it
does inside this chip. -/
theorem later_refit_inside {circuit : Circuit} {change : Circuit → Circuit} {chip first : NodeId}
    (inner : chip = first → ∀ circuit, Later interval 0 path id circuit (change circuit)) :
    Later interval 0 (first :: path) id circuit (circuit.modifyNode chip (Node.refit change)) := by
  refine ⟨fun oscillator found => ?_, fun _ _ level => nomatch level⟩
  obtain ⟨node, body, here, isChip, inside⟩ := oscillator?_inside.mp found
  rw [Oscillator.moved_zero]
  by_cases same : chip = first
  · refine oscillator?_inside.mpr
      ⟨node.refit change, { body with circuit := change body.circuit }, ?_, ?_, ?_⟩
    · rw [node?_modifyNode, if_pos same, here, Option.map_some]
    · rw [Node.refit, isChip]
    · exact ((inner same body.circuit).moved oscillator inside).trans (by rw [Oscillator.moved_zero])
  · refine oscillator?_inside.mpr ⟨node, body, ?_, isChip, inside⟩
    rw [node?_modifyNode, if_neg same, here]

/-- A change of the circuit that some path leads into moves the oscillator at an address no further than
it does where the path leads on to the address.

Proof: by induction on the path that the change is made at. -/
theorem later_modifyInside {circuit : Circuit} {change : Circuit → Circuit} {target : List NodeId}
    (kept : ∀ rest inner, path = target ++ rest → Later interval 0 rest id inner (change inner)) :
    Later interval 0 path id circuit (circuit.modifyInside change target) := by
  induction target generalizing circuit path with
  | nil => exact kept path circuit rfl
  | cons chip target inductionHypothesis =>
    rw [modifyInside_cons]
    cases path with
    | nil => exact later_refit
    | cons first path =>
      refine later_refit_inside fun same inner => inductionHypothesis fun rest inner leads => ?_
      exact kept rest inner (by rw [same, leads, List.cons_append])

end Circuit

/-- A node that is driven has kept time. -/
theorem Node.keepsTime_driven (signal : Signal) (node : Node Circuit) :
    node.KeepsTime ((node.drive? signal).getD node) := by
  obtain ⟨label, position, part, inputs, outputs⟩ := node
  cases part with
  | inputPin width state => exact .of_plain rfl nofun
  | switch on => exact .of_plain rfl nofun
  | _ => exact .refl _

namespace Edit

/-- A node that an edit does not remove is there afterwards, and only its position may have changed. -/
theorem node?_apply {edit : Edit Circuit} {fresh : Revision} {circuit : Circuit} {id : NodeId}
    {node : Node Circuit} (spared : edit ≠ .remove id) (found : circuit.node? id = some node) :
    ∃ other, (edit.apply fresh circuit).node? id = some other ∧ other.part = node.part ∧
      other.outputs = node.outputs := by
  cases edit with
  | touch => exact ⟨node, found, rfl, rfl⟩
  | add added =>
    refine ⟨node, ?_, rfl, rfl⟩
    have inSlots : id < circuit.nodes.next := Arena.lt_of_get? found
    rw [apply, Circuit.node?, Circuit.addNode, Arena.get?_alloc, if_neg (Nat.ne_of_gt inSlots)]
    exact found
  | remove removed =>
    have other : removed ≠ id := fun same => spared (congrArg remove same)
    refine ⟨node, ?_, rfl, rfl⟩
    rw [apply, Circuit.removeNode]
    split
    · rw [Circuit.node?, Arena.get?_remove, if_neg other]
      exact found
    · exact found
  | connect first second => exact ⟨node, found, rfl, rfl⟩
  | disconnect a b =>
    refine ⟨node, ?_, rfl, rfl⟩
    rw [apply, Circuit.disconnect]
    split
    · exact found
    · exact found
  | move moved place =>
    rw [apply, Circuit.moveNode]
    split
    · have here : ((circuit.modifyNode moved fun node => { node with position := place }).touch fresh).node?
          id = if moved = id then (circuit.node? id).map fun node => { node with position := place }
            else circuit.node? id := Circuit.node?_modifyNode ..
      rw [here, found]
      split
      · exact ⟨_, rfl, rfl, rfl⟩
      · exact ⟨node, rfl, rfl, rfl⟩
    · exact ⟨node, found, rfl, rfl⟩

end Edit

/-- What is done to a scheduler and its circuit, but for commands to oscillators. -/
inductive Handling where
  /-- A manual tick. -/
  | step
  /-- A periodic tick. -/
  | tick
  | control (told : Control)
  /-- A drive in the circuit that a path leads into. -/
  | drive (target : List NodeId) (id : NodeId) (signal : Signal)
  /-- A structural edit of the circuit that a path leads into, with the revision that it is given. -/
  | edit (target : List NodeId) (edit : Edit Circuit) (fresh : Revision)

namespace Handling

/-- Carries out what is done. Only ticks that are let through have an outcome of their own. -/
def perform (scheduler : Scheduler) (circuit : Circuit) :
    Handling → Scheduler × Circuit × TickOutcome
  | step => scheduler.step circuit
  | tick => scheduler.tick circuit
  | control told => (told.apply scheduler, circuit, .skipped)
  | drive target id signal =>
    (scheduler,
      circuit.modifyInside (fun inner => inner.modifyNode id fun node =>
        (node.drive? signal).getD node) target,
      .skipped)
  | edit target made fresh => (scheduler, circuit.modifyInside (made.apply fresh) target, .skipped)

/-- Neither the node at an address nor a chip around it is removed. -/
def Spares (path : List NodeId) (id : NodeId) : Handling → Prop
  | edit target made _ =>
    ∀ removed, made = .remove removed → ¬target ++ [removed] <+: path ++ [id]
  | _ => True

end Handling

/-- Carries out one thing after the other and collects the outcomes. -/
def Scheduler.handle :
    List Handling → Scheduler → Circuit → Scheduler × Circuit × List TickOutcome
  | [], scheduler, circuit => (scheduler, circuit, [])
  | handling :: rest, scheduler, circuit =>
    let (scheduler, circuit, outcome) := handling.perform scheduler circuit
    let (scheduler, circuit, outcomes) := handle rest scheduler circuit
    (scheduler, circuit, outcome :: outcomes)

section Handling

variable {scheduler : Scheduler} {circuit : Circuit} {path : List NodeId} {id : NodeId}

/-- A tick that is let through and does not fault is counted. -/
theorem Scheduler.step_of_calm {next : Scheduler} {reached : Circuit} {outcome : TickOutcome}
    (stepped : scheduler.step circuit = (next, reached, outcome))
    (active : scheduler.suspended = false) (calm : outcome.isFault = false) :
    ∃ cache report,
      (circuit.evaluate scheduler.limits .top scheduler.cache) = (reached, cache, .ok report) ∧
        next = { scheduler with cache := cache.sweep, ticks := scheduler.ticks + 1 } := by
  rw [step, if_neg (by rw [active]; decide)] at stepped
  revert stepped
  rcases circuit.evaluate scheduler.limits .top scheduler.cache with ⟨left, cache, fault | report⟩
  · intro stepped
    cases stepped
    cases calm
  · intro stepped
    cases stepped
    exact ⟨cache, report, rfl, rfl⟩

/-- Between two states of a scheduler and its circuit so many ticks were counted, and the oscillator at an
address has gone through them. -/
structure Scheduler.Elapsed (path : List NodeId) (id : NodeId) (ticks : Nat) (scheduler : Scheduler)
    (circuit : Circuit) (later : Scheduler) (reached : Circuit) : Prop where
  limits : later.limits = scheduler.limits
  count : later.ticks = scheduler.ticks + ticks
  clock : Circuit.Later scheduler.limits.interval ticks path id circuit reached

namespace Scheduler

/-- Ticks after ticks add up. -/
theorem Elapsed.trans {between later : Scheduler} {halfway reached : Circuit} {few more : Nat}
    (one : Elapsed path id few scheduler circuit between halfway)
    (two : Elapsed path id more between halfway later reached) :
    Elapsed path id (few + more) scheduler circuit later reached where
  limits := two.limits.trans one.limits
  count := by rw [two.count, one.count, Nat.add_assoc]
  clock := one.clock.trans (one.limits ▸ two.clock)

/-- While a circuit is only changed where its clocks keep time no tick goes by. -/
theorem elapsed_of_later {reached : Circuit}
    (clock : Circuit.Later scheduler.limits.interval 0 path id circuit reached) :
    Elapsed path id 0 scheduler circuit scheduler reached :=
  ⟨rfl, rfl, clock⟩

/-- A tick without a fault is counted, or it is not let through. -/
theorem elapsed_step (calm : (scheduler.step circuit).2.2.isFault = false) :
    ∃ ticks, Elapsed path id ticks scheduler circuit (scheduler.step circuit).1
      (scheduler.step circuit).2.1 := by
  cases suspended : scheduler.suspended with
  | true =>
    rw [step, suspended, if_pos rfl]
    exact ⟨0, elapsed_of_later (.refl circuit)⟩
  | false =>
    rcases stepped : scheduler.step circuit with ⟨next, reached, outcome⟩
    rw [stepped] at calm
    obtain ⟨cache, report, evaluated, rfl⟩ := step_of_calm stepped suspended calm
    refine ⟨1, rfl, rfl, ?_⟩
    have clock : Circuit.Later scheduler.limits.interval 1 path id circuit
        (circuit.evaluate scheduler.limits .top scheduler.cache).1 :=
      Circuit.later_evaluate (congrArg (·.2.2) evaluated)
    rwa [evaluated] at clock

/-- What is done without a fault, and without removing the oscillator at an address, lets it go through
the ticks that are counted. -/
theorem elapsed_perform {handling : Handling} (spared : handling.Spares path id)
    (calm : (handling.perform scheduler circuit).2.2.isFault = false) :
    ∃ ticks, Elapsed path id ticks scheduler circuit (handling.perform scheduler circuit).1
      (handling.perform scheduler circuit).2.1 := by
  cases handling with
  | step => exact elapsed_step calm
  | tick =>
    simp only [Handling.perform, tick] at calm ⊢
    split at calm
    · next running =>
      rw [if_pos running]
      exact elapsed_step calm
    · next stopped =>
      rw [if_neg stopped]
      exact ⟨0, elapsed_of_later (.refl circuit)⟩
  | control told => exact ⟨0, by cases told <;> exact ⟨rfl, rfl, .refl circuit⟩⟩
  | drive target pin signal =>
    refine ⟨0, elapsed_of_later (Circuit.later_modifyInside fun rest inner _ => ?_)⟩
    exact (Circuit.related_modifyNode Node.KeepsTime.refl inner pin _ fun node _ =>
      Node.keepsTime_driven signal node).later
  | edit target made fresh =>
    refine ⟨0, elapsed_of_later (Circuit.later_modifyInside fun rest inner leads => ?_)⟩
    have stays : made ≠ .remove (rest.headD id) := by
      intro removes
      refine spared _ removes ?_
      rw [leads, List.append_assoc]
      cases rest with
      | nil => exact List.prefix_rfl
      | cons first rest => exact ⟨rest ++ [id], by simp⟩
    refine Circuit.later_of_kept fun node found => ?_
    obtain ⟨other, foundOther, part, outputs⟩ := Edit.node?_apply stays found
    exact ⟨other, foundOther, .of_part part (by rw [outputs])⟩

/-- In a run without a fault that does not remove the oscillator at an address it goes through the ticks
that are counted.

Proof: by induction on what is done. -/
theorem elapsed_handle {handlings : List Handling}
    (spared : ∀ handling ∈ handlings, handling.Spares path id)
    (calm : ∀ outcome ∈ (scheduler.handle handlings circuit).2.2, outcome.isFault = false) :
    ∃ ticks, Elapsed path id ticks scheduler circuit (scheduler.handle handlings circuit).1
      (scheduler.handle handlings circuit).2.1 := by
  induction handlings generalizing scheduler circuit with
  | nil => exact ⟨0, elapsed_of_later (.refl circuit)⟩
  | cons handling rest inductionHypothesis =>
    simp only [handle, List.forall_mem_cons] at spared calm ⊢
    obtain ⟨few, first⟩ := elapsed_perform spared.1 calm.1
    obtain ⟨more, further⟩ := inductionHypothesis spared.2 calm.2
    exact ⟨few + more, first.trans further⟩

/-- Clocks keep exact time. Take any run without a fault in which oscillators are given no commands, and
the number of ticks that it counts. A running oscillator of the level that is not removed is then as far
in its half period, and has toggled as many times, as its count and these ticks make it; one that began
with a full count toggled in the first tick and counts from there. A stopped one, and one inside a chip
at any depth, is what it was. And after the first tick counted a clock of the level drives its state
while it runs and a low signal otherwise. -/
theorem clocks_keep_time {handlings : List Handling} {scheduler final : Scheduler}
    {circuit reached : Circuit} {outcomes : List TickOutcome} {ticks : Nat}
    (handled : scheduler.handle handlings circuit = (final, reached, outcomes))
    (calm : ∀ outcome ∈ outcomes, outcome.isFault = false)
    (counted : final.ticks = scheduler.ticks + ticks) :
    (∀ id o, circuit.oscillator? [] id = some o →
      (∀ handling ∈ handlings, handling.Spares [] id) →
        (o.running = true → o.tick < o.frequency.halfPeriod scheduler.limits.interval →
          reached.oscillator? [] id = some { o with
            tick := (o.tick + ticks) % o.frequency.halfPeriod scheduler.limits.interval
            state :=
              not^[(o.tick + ticks) / o.frequency.halfPeriod scheduler.limits.interval] o.state }) ∧
        (o.running = true → 1 ≤ o.frequency.halfPeriod scheduler.limits.interval →
          o.frequency.halfPeriod scheduler.limits.interval ≤ o.tick → ∀ more, ticks = more + 1 →
            reached.oscillator? [] id = some { o with
              tick := more % o.frequency.halfPeriod scheduler.limits.interval
              state :=
                not^[more / o.frequency.halfPeriod scheduler.limits.interval + 1] o.state }) ∧
        (o.running = false → reached.oscillator? [] id = some o) ∧
        (0 < ticks → ∃ node now, reached.node? id = some node ∧ node.part = .clock now ∧
          node.outputs.get? "out" = some (.bit (now.running && now.state)))) ∧
    ∀ first path id o, circuit.oscillator? (first :: path) id = some o →
      (∀ handling ∈ handlings, handling.Spares (first :: path) id) →
        reached.oscillator? (first :: path) id = some o := by
  have gone (path : List NodeId) (id : NodeId)
      (spared : ∀ handling ∈ handlings, handling.Spares path id) :
      Circuit.Later scheduler.limits.interval ticks path id circuit reached := by
    have calmRun : ∀ outcome ∈ (scheduler.handle handlings circuit).2.2, outcome.isFault = false := by
      rw [handled]
      exact calm
    obtain ⟨passed, elapsed⟩ := elapsed_handle spared calmRun
    rw [handled] at elapsed
    obtain rfl : passed = ticks := Nat.add_left_cancel (elapsed.count.symm.trans counted)
    exact elapsed.clock
  refine ⟨fun id o found spared => ?_, fun first path id o found spared => ?_⟩
  · have later := gone [] id spared
    have moved := later.moved o found
    rw [Oscillator.moved] at moved
    refine ⟨fun running below => ?_, fun running positive full more some => ?_, fun stopped => ?_,
      fun positive => ?_⟩
    · rw [moved, Oscillator.next_iterate running below]
    · rw [moved, some, Oscillator.next_iterate_of_full running positive full]
    · rw [moved, Oscillator.next_iterate_of_stopped stopped]
    · rw [Circuit.oscillator?_level, Option.bind_eq_some_iff] at moved
      obtain ⟨node, here, isClock⟩ := moved
      have part := Node.oscillator?_eq_some.mp isClock
      exact ⟨node, _, here, part, later.drives o found rfl (.inl positive) node here _ part⟩
  · exact (gone (first :: path) id spared).moved o found

end Scheduler

end Handling

/-- A running oscillator with a count, a stopped one in its high phase, the blinker inside a chip, and a
switch. -/
def Circuit.clocks (tick : Nat) : Circuit :=
  ⟨⟨[some (.ofPart (.clock { Oscillator.initial with tick })),
      some (.ofPart (.clock { Oscillator.initial with running := false, state := true, tick })),
      some (.ofPart (.chip (.ofCircuit "BLINKER" (.blinker tick)))),
      some (.ofPart (.switch false))]⟩, [], 2⟩

/-- The counts of the clocks are below what their common count is below. -/
theorem Circuit.countsBelow_clocks {tick limit : Nat} (below : tick < limit) :
    (clocks tick).CountsBelow limit := by
  intro id node found oscillator isClock
  rcases id with _ | _ | _ | _ | id
  · cases found
    cases isClock
    exact below
  · cases found
    cases isClock
    exact below
  · cases found
    cases isClock
  · cases found
    cases isClock
  · cases found

/-- From counts below the greatest number on, a tick that is not skipped is counted and does not fault, and
the next one may follow. -/
theorem Scheduler.exists_step_of_countsBelow (scheduler : Scheduler) {circuit : Circuit}
    (counts : circuit.CountsBelow (wordLimit - 1)) (active : scheduler.suspended = false) :
    ∃ next reached outcome, scheduler.step circuit = (next, reached, outcome) ∧
      outcome.isFault = false ∧ reached.CountsBelow (wordLimit - 1) ∧ next.suspended = false ∧
        next.ticks = scheduler.ticks + 1 := by
  have safe := step_of_countsBelow counts scheduler
  rcases stepped : scheduler.step circuit with ⟨next, reached, outcome⟩
  rw [stepped] at safe
  obtain ⟨cache, report, _, rfl⟩ := step_of_calm stepped active safe.1
  exact ⟨_, reached, outcome, rfl, safe.1, safe.2, active, rfl⟩

/-- Without any time between ticks half a period is one tick. So in three ticks of the clocks, with a drive
in between, the running one toggles three times and drives the high phase that it ends in, and the others
stand. -/
theorem Scheduler.clocks_keep_time_in_three_ticks : ∃ final reached outcomes,
    (new ⟨10, 20, 0⟩).handle [.step, .drive [] 3 (.bit true), .step, .step] (.clocks 0) =
        (final, reached, outcomes) ∧
      (∀ outcome ∈ outcomes, outcome.isFault = false) ∧ final.ticks = 3 ∧
      reached.oscillator? [] 0 = some { Oscillator.initial with state := true } ∧
      ((reached.node? 0).bind fun node => node.outputs.get? "out") = some (.bit true) ∧
      reached.oscillator? [] 1 = some { Oscillator.initial with running := false, state := true } ∧
      reached.oscillator? [2] 0 = some Oscillator.initial := by
  have room : (Circuit.clocks 0).CountsBelow (wordLimit - 1) := Circuit.countsBelow_clocks (by decide)
  obtain ⟨scheduler, circuit, one, stepped, calmOne, counts, active, countOne⟩ :=
    exists_step_of_countsBelow (new ⟨10, 20, 0⟩) room rfl
  have driven : ((Change.drive 3 (.bit true)).apply circuit).CountsBelow (wordLimit - 1) :=
    counts.of_related (((Change.drive 3 (.bit true)).related circuit).imp fun _ _ => And.right)
  obtain ⟨middle, between, two, steppedAgain, calmTwo, counts, active, countTwo⟩ :=
    exists_step_of_countsBelow scheduler driven active
  obtain ⟨final, reached, three, steppedLast, calmThree, _, _, countThree⟩ :=
    exists_step_of_countsBelow middle counts active
  have handled : (new ⟨10, 20, 0⟩).handle [.step, .drive [] 3 (.bit true), .step, .step] (.clocks 0) =
      (final, reached, [one, .skipped, two, three]) := by
    simp only [handle, Handling.perform, stepped]
    rw [show circuit.modifyInside (fun inner => inner.modifyNode 3 fun node =>
      (node.drive? (.bit true)).getD node) [] = (Change.drive 3 (.bit true)).apply circuit from rfl,
      steppedAgain, steppedLast]
  have calm : ∀ outcome ∈ [one, .skipped, two, three], outcome.isFault = false := by
    simp only [List.forall_mem_cons]
    exact ⟨calmOne, rfl, calmTwo, calmThree, nofun⟩
  have counted : final.ticks = (new ⟨10, 20, 0⟩).ticks + 3 := by rw [countThree, countTwo, countOne]
  obtain ⟨level, inside⟩ := clocks_keep_time handled calm counted
  have spared (path : List NodeId) (id : NodeId) :
      ∀ handling ∈ [Handling.step, .drive [] 3 (.bit true), .step, .step], handling.Spares path id := by
    simp [Handling.Spares]
  have halfPeriod : Oscillator.initial.frequency.halfPeriod 0 = 1 := by simp [Frequency.halfPeriod]
  obtain ⟨running, _, _, drives⟩ := level 0 _ rfl (spared [] 0)
  have toggled : reached.oscillator? [] 0 = some { Oscillator.initial with state := true } := by
    have moved := running rfl (halfPeriod ▸ Nat.one_pos)
    rw [show (new ⟨10, 20, 0⟩).limits.interval = 0 from rfl, halfPeriod] at moved
    exact moved
  have high : ((reached.node? 0).bind fun node => node.outputs.get? "out") = some (.bit true) := by
    obtain ⟨node, now, here, isClock, shows⟩ := drives (by decide)
    rw [Circuit.oscillator?_level, here, Option.bind_some, Node.oscillator?_eq_some.mpr isClock] at toggled
    obtain rfl := Option.some.inj toggled
    rw [here, Option.bind_some, shows]
    rfl
  refine ⟨final, reached, _, handled, calm, counted, toggled, high, ?_, ?_⟩
  · exact (level 1 _ rfl (spared [] 1)).2.2.1 rfl
  · exact inside 2 [] 0 _ rfl (spared [2] 0)

end Breadboard
