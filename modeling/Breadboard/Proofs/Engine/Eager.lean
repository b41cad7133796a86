import Breadboard.Proofs.Engine.Repetition

/-!
# Chips settled in every pass

The engine settles the circuit inside a chip only when it is due: in the initial pass, when a declared
input is another than the last time, and in every pass if it contains an oscillator. An eager evaluation
settles it in every pass, on all levels. Nobody can tell the two apart: they reach the same circuit, what
chips remember included, and report the same, unless the limit on passes stops an evaluation inside a
chip.

The reason is the same on every level. A circuit inside a chip that was settled and not stopped does not
change when it is settled again, and neither when it is settled again eagerly. So a chip that is not due
loses nothing by being settled: it is driven to what it was driven to before, and that stands still.
-/

namespace Breadboard

namespace Settling

variable {moves other : Nat → Bool}

/-- The passes that are left add to those that were made. -/
theorem le_passes_follow (moves : Nat → Bool) (left : Nat) (report : Settling) :
    report.passes ≤ (follow moves left report).passes := by
  induction left generalizing report with
  | zero => exact Nat.le_refl _
  | succ left inductionHypothesis =>
    simp only [follow]
    split
    · exact Nat.le_succ _
    · exact Nat.le_of_succ_le (inductionHypothesis ⟨_, report.passes + 1, _, _⟩)

/-- What passes that are left make of a report depends on the passes that are made alone.

Proof: by induction on the passes left. -/
theorem follow_congr {left : Nat} {report : Settling}
    (same : ∀ pass, report.passes ≤ pass → pass < (follow moves left report).passes →
      other pass = moves pass) : follow other left report = follow moves left report := by
  induction left generalizing report with
  | zero => rfl
  | succ left inductionHypothesis =>
    have here : other report.passes = moves report.passes := by
      apply same _ (Nat.le_refl _)
      simp only [follow]
      split
      · exact Nat.lt_succ_self _
      · exact le_passes_follow moves left ⟨_, report.passes + 1, _, _⟩
    simp only [follow, here] at same ⊢
    split
    · rfl
    · next goesOn =>
      rw [if_neg goesOn] at same
      exact inductionHypothesis fun pass atLeast below => same pass (Nat.le_of_succ_le atLeast) below

end Settling

/-- Two ways to settle a circuit agree on it, and neither changes what they make of it. -/
structure Circuit.SettlesAlike (inner other : Circuit → Circuit) (circuit : Circuit) : Prop where
  same : other circuit = inner circuit
  again : inner (inner circuit) = inner circuit
  otherAgain : other (inner circuit) = inner circuit

variable {inner other : Circuit → Circuit} {initial : Bool}

namespace Chip

variable {chip : Chip Circuit} {inputs : PortMap}

/-- A chip that is not due is driven to what it was driven to before, if that is steady. Then the pass is
not the initial one. -/
theorem Steady.drivenAsBound_of_idle (steady : initial = false → chip.Steady inner)
    (idle : chip.isDue initial inputs = false) :
    initial = false ∧ chip.drivenAsBound inputs = chip.circuit := by
  simp only [isDue, Bool.or_eq_false_iff, bne_eq_false_iff_eq] at idle
  obtain ⟨⟨_, seen⟩, later⟩ := idle
  exact ⟨later, (steady later).driven _ seen⟩

/-- Settling a chip in a pass, in the other way, makes of its circuit what settling it when it is due makes
of it, and that stands still. -/
theorem settled_eager
    (told : chip.isDue initial inputs = true →
      Circuit.SettlesAlike inner other (chip.drivenAsBound inputs))
    (wasSettled : initial = false → chip.Steady inner ∧ other chip.circuit = chip.circuit) :
    chip.reachedAsBound other true inputs = chip.reachedAsBound inner initial inputs ∧
      other (chip.reachedAsBound inner initial inputs).circuit =
        (chip.reachedAsBound inner initial inputs).circuit := by
  have always : chip.isDue true inputs = true := by simp [isDue]
  simp only [reachedAsBound, if_pos always, holding]
  cases due : chip.isDue initial inputs with
  | true =>
    have alike := told due
    simp only [if_true, alike.same]
    exact ⟨trivial, alike.otherAgain⟩
  | false =>
    obtain ⟨later, asBefore⟩ := Steady.drivenAsBound_of_idle (fun later => (wasSettled later).1) due
    have fixed := (wasSettled later).2
    simp only [Bool.false_eq_true, if_false, asBefore, fixed]
    exact ⟨trivial, trivial⟩

end Chip

namespace Node

variable {node : Node Circuit}

/-- The circuit of a node that is a chip does not change when it is settled. -/
def Fixed (other : Circuit → Circuit) (node : Node Circuit) : Prop :=
  ∀ body, node.part = .chip body → other body.circuit = body.circuit

/-- Settling every chip in a pass, in the other way, makes of a node what settling the chips that are
due makes of it, and that stands still. -/
theorem boundStep_eager (told : node.ToldInside (Circuit.SettlesAlike inner other) initial)
    (wasSettled : initial = false → node.Steady inner ∧ node.Fixed other) :
    node.boundStep other true = node.boundStep inner initial ∧
      (node.boundStep inner initial).Fixed other := by
  cases part : node.part with
  | chip body =>
    obtain ⟨same, fixed⟩ := Chip.settled_eager (told body part) fun later =>
      ⟨(wasSettled later).1 body part, (wasSettled later).2 body part⟩
    rw [boundStep_of_chip other true part, boundStep_of_chip inner initial part, same]
    refine ⟨rfl, fun reached isReached => ?_⟩
    obtain rfl := Part.chip.inj isReached
    exact fixed
  | _ =>
    have notChip : ∀ body, node.part ≠ .chip body := by simp [part]
    rw [boundStep_of_not_chip other true notChip, boundStep_of_not_chip inner initial notChip]
    refine ⟨rfl, fun reached isReached => ?_⟩
    rw [step_eq] at isReached
    simp [displayed, part] at isReached

end Node

namespace Circuit

variable {circuit : Circuit}

/-- Passes that step every node of a level alike are the same. -/
theorem plainPass_congr {step again : Node Circuit → Node Circuit}
    (same : circuit.ToldInPass fun node => again node = step node) :
    circuit.plainPass again = circuit.plainPass step ∧
      circuit.passMoves again = circuit.passMoves step := by
  constructor
  · refine ext_node? (by simp [plainPass]) (fun id => ?_) rfl rfl
    rw [node?_plainPass, node?_plainPass]
    exact Option.map_congr fun node found => by rw [same id node found]
  · rw [Bool.eq_iff_iff, passMoves_iff, passMoves_iff]
    refine exists_congr fun id => exists_congr fun node => and_congr_right fun found => ?_
    rw [same id node found]

/-- A level at a standstill stands still in the other way of settling too, if that leaves the circuits
inside its chips. -/
theorem Still.otherwise (still : circuit.Still inner)
    (settled : ∀ id node, circuit.node? id = some node → node.Steady inner ∧ node.Fixed other) :
    circuit.Still other := by
  refine ⟨still.rebuilt, fun id node found again => ?_⟩
  have stepped := still.stepped id node found again
  cases part : node.part with
  | chip body =>
    rw [Node.boundStep_of_chip inner again part] at stepped
    have isReached := Part.chip.inj ((congrArg Node.part stepped).trans part)
    have seen : body.seen node.inputs = body.lastInputs := congrArg Chip.lastInputs isReached
    have steady := (settled id node found).1 body part
    have steadyOther : body.Steady other :=
      ⟨steady.bound, (settled id node found).2 body part, steady.driven⟩
    rw [isReached] at stepped
    rw [Node.boundStep_of_chip other again part, steadyOther.reached seen]
    exact stepped
  | _ =>
    have notChip : ∀ body, node.part ≠ .chip body := by simp [part]
    rw [Node.boundStep_of_not_chip other again notChip]
    rwa [Node.boundStep_of_not_chip inner again notChip] at stepped

/-- Where circuits inside chips are settled alike, they do not change when they are settled again. -/
theorem SettlesAlike.toldAgain {first past : Nat}
    (told : circuit.ToldInPasses (Node.ToldInside (SettlesAlike inner other)) (Node.boundStep inner) first
      past) :
    circuit.ToldInPasses (Node.ToldInside fun circuit => inner (inner circuit) = inner circuit)
      (Node.boundStep inner) first past :=
  fun pass atLeast below id node found body isChip due =>
    (told pass atLeast below id node found body isChip due).again

section

variable (blueprints : ∀ circuit, Related Node.KeepsBlueprint circuit (inner circuit))
  (drives : ∀ circuit, Related Node.KeepsDriven circuit (inner circuit))
include blueprints drives

section

variable {past : Nat}
  (told : circuit.ToldInPasses (Node.ToldInside (SettlesAlike inner other)) (Node.boundStep inner) 0 past)
include told

/-- Before every pass but the initial one the circuits inside chips stand still, in either way of settling
them, so the pass that settles all chips in the other way is the one that settles those that are due.

Proof: by induction on the passes; the initial one settles every chip. -/
theorem toldInPass_eager {passes : Nat} (below : passes < past) :
    (circuit.afterPasses (Node.boundStep inner) passes).ToldInPass fun node =>
      node.boundStep other true = node.boundStep inner (passes == 0) ∧
        (node.boundStep inner (passes == 0)).Fixed other := by
  have toldAgain := SettlesAlike.toldAgain told
  induction passes with
  | zero =>
    intro id node found
    exact Node.boundStep_eager (told 0 (Nat.le_refl 0) below id node found) fun later => by cases later
  | succ passes inductionHypothesis =>
    have earlier := Nat.lt_of_succ_lt below
    intro id node found
    refine Node.boundStep_eager (told (passes + 1) (Nat.zero_le _) below id node found) fun _ => ?_
    have steady := steady_afterPasses blueprints drives toldAgain earlier found
    refine ⟨steady.staged _, fun body isChip => ?_⟩
    obtain ⟨previous, before, isMade⟩ := origin_plainPass found
    rw [Node.staged_part, isMade, Node.part_showing] at isChip
    exact (inductionHypothesis earlier id previous before).2 body isChip

/-- The circuits that a level goes through are the same if every pass settles all chips in the other way.
-/
theorem afterPasses_eager {passes : Nat} (made : passes ≤ past) :
    circuit.afterPasses (fun _ => Node.boundStep other true) passes =
      circuit.afterPasses (Node.boundStep inner) passes := by
  induction passes with
  | zero => rfl
  | succ passes inductionHypothesis =>
    rw [afterPasses, inductionHypothesis (Nat.le_of_succ_le made)]
    exact (plainPass_congr fun id node found =>
      (toldInPass_eager blueprints drives told made id node found).1).1

/-- The passes that change some output are the same if every pass settles all chips in the other way. -/
theorem moves_eager {pass : Nat} (below : pass < past) :
    circuit.moves (fun _ => Node.boundStep other true) pass = circuit.moves (Node.boundStep inner) pass := by
  rw [moves, afterPasses_eager blueprints drives told (Nat.le_of_lt below)]
  exact (plainPass_congr fun id node found =>
    (toldInPass_eager blueprints drives told below id node found).1).2

end

/-- A level is settled alike, and reports alike, if every pass settles all chips in the other way. -/
theorem plainSettle_eager {maxPasses : Nat}
    (told : circuit.ToldInPasses (Node.ToldInside (SettlesAlike inner other)) (Node.boundStep inner) 0
      (circuit.plainReport (Node.boundStep inner) maxPasses).passes) :
    circuit.plainReport (fun _ => Node.boundStep other true) maxPasses =
        circuit.plainReport (Node.boundStep inner) maxPasses ∧
      circuit.plainSettle (fun _ => Node.boundStep other true) maxPasses =
        circuit.plainSettle (Node.boundStep inner) maxPasses := by
  have reports : circuit.plainReport (fun _ => Node.boundStep other true) maxPasses =
      circuit.plainReport (Node.boundStep inner) maxPasses :=
    Settling.follow_congr fun pass _ below => moves_eager blueprints drives told below
  refine ⟨reports, ?_⟩
  rw [plainSettle, reports]
  exact afterPasses_eager blueprints drives told (Nat.le_refl _)

/-- A level that was settled and not stopped does not change when it is settled once more and every pass
settles all chips in the other way. -/
theorem plainSettle_eager_again (maxPasses : Nat)
    (uncapped : (circuit.quieted.plainReport (Node.boundStep inner) maxPasses).capped = false)
    (told : circuit.quieted.ToldInPasses (Node.ToldInside (SettlesAlike inner other))
      (Node.boundStep inner) 0 (circuit.quieted.plainReport (Node.boundStep inner) maxPasses).passes) :
    (circuit.quieted.plainSettle (Node.boundStep inner) maxPasses).quieted.plainSettle
        (fun _ => Node.boundStep other true) maxPasses =
      circuit.quieted.plainSettle (Node.boundStep inner) maxPasses := by
  cases maxPasses with
  | zero => exact circuit.quieted_quieted
  | succ left =>
    have somePass : 1 ≤ left + 1 := Nat.le_add_left 1 left
    have toldAgain := SettlesAlike.toldAgain told
    have still := still_plainSettle blueprints drives somePass circuit.primed_quieted uncapped toldAgain
    obtain ⟨last, passes, _⟩ := Settling.quiet_of_uncapped somePass uncapped
    have below : last < (circuit.quieted.plainReport (Node.boundStep inner) (left + 1)).passes := by
      rw [plainReport, passes]
      exact Nat.lt_succ_self last
    refine (still.otherwise fun id node found => ?_).plainSettle (fun _ => true) somePass
    rw [plainSettle, plainReport, passes] at found
    refine ⟨steady_afterPasses blueprints drives toldAgain below found, fun body isChip => ?_⟩
    obtain ⟨previous, before, isMade⟩ := origin_plainPass found
    rw [isMade, Node.part_showing] at isChip
    exact (toldInPass_eager blueprints drives told below id previous before).2 body isChip

end

/-- The circuit inside a chip settled by the pins that chips go by, all chips in every pass, with so many
levels left. -/
def eagerWithin (maxPasses : Nat) : Nat → Circuit → Circuit
  | 0, circuit => circuit
  | levels + 1, circuit =>
    circuit.quieted.plainSettle (fun _ => Node.boundStep (eagerWithin maxPasses levels) true) maxPasses

/-- What a demanding evaluation settles inside a chip is settled alike when all chips are settled in every
pass, if it accepts nothing that the limit on passes stopped. -/
theorem settleDemanding_eager {accepts : Settling → Bool}
    (uncapped : ∀ report, accepts report = true → report.capped = false)
    (table : Revision → List Net) (maxPasses : Nat) (below : Except Fault Settling) (levels : Nat) :
    SettlesAsBound table True
      (SettlesAlike (boundWithin maxPasses levels) (eagerWithin maxPasses levels))
      (boundWithin maxPasses levels) (settleDemanding accepts maxPasses below levels) := by
  refine settleDemanding_induction
    (fun levels => SettlesAlike (boundWithin maxPasses levels) (eagerWithin maxPasses levels)) table
    maxPasses below (fun _ => ⟨rfl, rfl, rfl⟩) ?_ levels
  intro levels circuit accepted inside
  have blueprints := keepsBlueprint_boundWithin maxPasses levels
  have drives := keepsDriven_boundWithin maxPasses levels
  exact ⟨(plainSettle_eager blueprints drives inside).2,
    plainSettle_again blueprints drives maxPasses (uncapped _ accepted) (SettlesAlike.toldAgain inside),
    plainSettle_eager_again blueprints drives maxPasses (uncapped _ accepted) inside⟩

/-- Settles a level whose tick has begun, and settles the circuits inside all its chips in every pass. -/
def settleEager (settleInner : InnerSettling) (maxPasses : Nat) (circuit : Circuit)
    (cache : NetlistCache) : Circuit × NetlistCache × Except Fault Settling :=
  let (netlist, cache) := cache.getOrBuild circuit
  passes (fun _ => pass (Node.stepIn settleInner true) netlist) maxPasses .idle circuit cache

/-- Settles the circuit inside a chip, all chips in every pass, with so many levels left down to the depth
limit and a given outcome for the circuits below it. -/
def settleEagerWithin (maxPasses : Nat) (below : Except Fault Settling) : Nat → InnerSettling
  | 0, circuit, cache => (circuit, cache, below)
  | levels + 1, circuit, cache =>
    circuit.quieted.settleEager (settleEagerWithin maxPasses below levels) maxPasses cache

/-- Evaluates a circuit for one tick and settles the circuit inside every chip in every pass, at any
depth. -/
def evaluateEager (limits : Limits) (context : EvalContext) (circuit : Circuit)
    (cache : NetlistCache) : Circuit × NetlistCache × Except Fault Settling :=
  match limits.maxDepth + 1 - context.depth with
  | 0 => (circuit, cache, .ok .tooDeep)
  | levels + 1 =>
    let (begun, fault) :=
      if context.advance then circuit.beginTick limits.interval else (circuit.quieted, none)
    match fault with
    | some fault => (begun, cache, .error fault)
    | none =>
      let settleInner := settleEagerWithin limits.maxPasses (context.below limits) levels
      begun.settleEager settleInner limits.maxPasses cache

variable {table : Revision → List Net}

/-- Settling all chips in every pass keeps the blueprints of nodes.

Proof: by induction on the levels left. -/
theorem keepsBlueprint_eagerWithin (maxPasses levels : Nat) (circuit : Circuit) :
    Related Node.KeepsBlueprint circuit (eagerWithin maxPasses levels circuit) := by
  have invariant := invariant_tabled fun _ => []
  induction levels generalizing circuit with
  | zero => exact .refl invariant.refl circuit
  | succ levels inductionHypothesis =>
    exact (invariant.related_quieted circuit).trans invariant.trans
      (invariant.afterPasses (fun _ => invariant.boundStep inductionHypothesis true) _ _)

/-- A level whose nets a table tells is settled by the pins that chips go by, all chips in every pass. -/
theorem settleEager_bound {faults : Prop} {settleInner : InnerSettling} {told : Circuit → Prop}
    (settles : SettlesAsBound table faults told inner settleInner)
    (kept : ∀ circuit, Related Node.KeepsBlueprint circuit (inner circuit)) (maxPasses : Nat)
    (tabled : circuit.Tabled table) {cache : NetlistCache} (knows : cache.Knows table) :
    Plainly table faults (circuit.plainSettle (fun _ => Node.boundStep inner true) maxPasses)
      (· = circuit.plainReport (fun _ => Node.boundStep inner true) maxPasses)
      (circuit.settleEager settleInner maxPasses cache) := by
  obtain ⟨nets, knowsAfter⟩ := NetlistCache.getOrBuild_exact knows (tabled _ (.refl circuit))
  exact (passes_bound settles kept (fun _ => true) maxPasses tabled nets knowsAfter).imp
    fun _ told => told.1

/-- Circuits inside chips are settled by the pins that chips go by, all chips in every pass.

Proof: by induction on the levels left. -/
theorem settleEagerWithin_bound (table : Revision → List Net) (maxPasses : Nat) (below : Settling)
    (levels : Nat) :
    SettlesAsBound table False (fun _ => True) (eagerWithin maxPasses levels)
      (settleEagerWithin maxPasses (.ok below) levels) := by
  have invariant := invariant_tabled table
  induction levels with
  | zero => exact fun circuit cache _ knows => ⟨rfl, trivial, knows⟩
  | succ levels inductionHypothesis =>
    intro circuit cache tabled knows
    exact (settleEager_bound inductionHypothesis (keepsBlueprint_eagerWithin maxPasses levels) maxPasses
      (invariant.lasts (invariant.related_quieted circuit) tabled) knows).imp fun _ _ => trivial

/-- At the top an eager evaluation settles the circuit that the tick has begun for, unless a fault arose.
-/
theorem evaluateEager_eq (limits : Limits) (circuit : Circuit) (cache : NetlistCache) :
    circuit.evaluateEager limits .top cache =
      match (circuit.beginTick limits.interval).2 with
      | some fault => ((circuit.beginTick limits.interval).1, cache, .error fault)
      | none => (circuit.beginTick limits.interval).1.settleEager
        (settleEagerWithin limits.maxPasses (.ok .tooDeep) limits.maxDepth) limits.maxPasses cache := by
  unfold evaluateEager
  rw [show limits.maxDepth + 1 - EvalContext.top.depth = limits.maxDepth + 1 from rfl,
    show EvalContext.top.below limits = .ok .tooDeep from if_pos (.inl rfl)]
  rfl

/-- At the top an eager evaluation settles the circuit by the pins that its chips go by, all chips in
every pass. -/
theorem evaluateEager_bound {limits : Limits} {cache : NetlistCache} (tabled : circuit.Tabled table)
    (knows : cache.Knows table) (faultless : (circuit.beginTick limits.interval).2 = none) :
    ∃ after, circuit.evaluateEager limits .top cache =
      ((circuit.beginTick limits.interval).1.plainSettle
          (fun _ => Node.boundStep (eagerWithin limits.maxPasses limits.maxDepth) true) limits.maxPasses,
        after, .ok ((circuit.beginTick limits.interval).1.plainReport
          (fun _ => Node.boundStep (eagerWithin limits.maxPasses limits.maxDepth) true)
          limits.maxPasses)) := by
  have invariant := invariant_tabled table
  have settled := settleEager_bound
    (settleEagerWithin_bound table limits.maxPasses .tooDeep limits.maxDepth)
    (keepsBlueprint_eagerWithin limits.maxPasses limits.maxDepth) limits.maxPasses
    (invariant.lasts (invariant.related_beginTick limits.interval circuit) tabled) knows
  rw [evaluateEager_eq, faultless]
  revert settled
  rcases settleEager _ limits.maxPasses (circuit.beginTick limits.interval).1 cache with
    ⟨reached, after, fault | report⟩
  · exact False.elim
  · rintro ⟨rfl, rfl, _⟩
    exact ⟨after, rfl⟩

/-- That a chip is settled only when it is due cannot be told from outside. If the limit on passes stops
no evaluation inside a chip in a tick of a circuit that a coherent one has become, the tick that settles
the circuit inside every chip in every pass reaches the same circuit, with all that its chips remember, at
every depth, and ends with the same report; where the tick does not begin, it ends with the same fault. -/
theorem evaluate_eager {start : Circuit} {limits : Limits} {cache : NetlistCache}
    (coherent : start.Coherent) (evolves : start.Evolves circuit cache)
    (inside : (circuit.beginTick limits.interval).2 = none → circuit.settlesInside limits cache = true) :
    (circuit.evaluateEager limits .top cache).1 = (circuit.evaluate limits .top cache).1 ∧
      (circuit.evaluateEager limits .top cache).2.2 = (circuit.evaluate limits .top cache).2.2 := by
  cases begins : (circuit.beginTick limits.interval).2 with
  | some fault =>
    rw [evaluate_of_fault cache begins, evaluateEager_eq, begins]
    exact ⟨rfl, rfl⟩
  | none =>
    obtain ⟨table, faithful⟩ := coherent.faithful
    obtain ⟨tabled, knows⟩ := evolves.sound faithful.tabled
    have uncapped (report : Settling) : (!report.capped) = true → report.capped = false := by simp
    have told := toldInPasses_of_settlesInside
      (settleDemanding_eager uncapped table limits.maxPasses (EvalContext.top.below limits)
        limits.maxDepth) tabled knows (inside begins)
    obtain ⟨reports, circuits⟩ := plainSettle_eager
      (keepsBlueprint_boundWithin limits.maxPasses limits.maxDepth)
      (keepsDriven_boundWithin limits.maxPasses limits.maxDepth) told
    obtain ⟨_, evaluated, _⟩ := evaluate_bound tabled knows begins
    obtain ⟨_, eagerly⟩ := evaluateEager_bound tabled knows begins
    rw [evaluated, eagerly]
    exact ⟨circuits, congrArg Except.ok reports⟩

/-- The lit lamp behind a chip, which is not due in the last pass of the first tick. -/
theorem chippedLamp_eager :
    ((chippedLamp true).evaluateEager .standard .top .empty).1 =
        ((chippedLamp true).evaluate .standard .top .empty).1 ∧
      ((chippedLamp true).evaluateEager .standard .top .empty).2.2 =
        ((chippedLamp true).evaluate .standard .top .empty).2.2 :=
  evaluate_eager (coherent_chippedLamp true) .start fun _ => by decide +kernel

end Circuit

end Breadboard
