import Breadboard.Proofs.Engine.Demanding
import Breadboard.Proofs.Engine.Settlement

/-!
# Limits that are not reached

The limits of an evaluation are a guard against circuits that do not settle and against chips nested
without end. Where they stop nothing they decide nothing: a tick in which no evaluation, at any depth,
was stopped by the limit on passes or by the limit on depth comes out the same with every larger limits.

The induction is on the levels left. A demanding evaluation that accepts no report of a limit is
followed by the evaluation with larger limits call by call: what the one brings to an end, the other
brings to the same end. On one level the passes are the same ones, because they end by themselves.
-/

namespace Breadboard

/-- No limit stopped the evaluation that this is the report of. -/
def Settling.unhindered (report : Settling) : Bool :=
  !report.capped && !report.depthLimited

/-- Where the one settling ends with a report, the other ends with the same report, has reached the same
circuit and keeps the same netlists. -/
def InnerSettling.CarriesOver (given larger : InnerSettling) : Prop :=
  ∀ circuit cache reached after report, given circuit cache = (reached, after, .ok report) →
    larger circuit cache = (reached, after, .ok report)

namespace Circuit

/-- The tick does not begin, or it is evaluated and no limit stops an evaluation, on the top level or
inside a chip, at any depth. -/
def unhindered (limits : Limits) (circuit : Circuit) (cache : NetlistCache) : Bool :=
  (circuit.beginTick limits.interval).2.isSome ||
    (evaluateDemanding Settling.unhindered limits .top circuit cache).2.2.toOption.any
      Settling.unhindered

end Circuit

variable {given larger : InnerSettling}

/-- A step of a node without a fault is the same with a settling that carries over. -/
theorem Node.stepIn_carriesOver (carries : given.CarriesOver larger) {initial : Bool}
    {node stepped : Node Circuit} {cache after : NetlistCache}
    (stepsTo : node.stepIn given initial cache = (stepped, after, none)) :
    node.stepIn larger initial cache = (stepped, after, none) := by
  cases part : node.part with
  | chip chip =>
    simp only [stepIn, part, Chip.step] at stepsTo ⊢
    split at stepsTo
    · rename_i due
      rw [if_pos due]
      -- the circuit inside the chip is settled, and only a report leaves the step without a fault
      split at stepsTo
      · rename_i outcome
        rcases settles : given _ cache with ⟨reached, later, result⟩
        rw [settles] at stepsTo outcome
        subst outcome
        rw [carries _ _ _ _ _ settles]
        exact stepsTo
      · cases stepsTo
    · rename_i idle
      rw [if_neg idle]
      exact stepsTo
  | _ => simpa only [stepIn, part] using stepsTo

namespace Circuit

variable {circuit reached : Circuit} {cache after : NetlistCache}

/-- Stepping nodes in their order comes out the same where each step without a fault does.

Proof: by induction on the slots. -/
theorem stepSlots_carriesOver
    {step other : Node Circuit → NetlistCache → Node Circuit × NetlistCache × Option Fault}
    (each : ∀ node cache stepped after, step node cache = (stepped, after, none) →
      other node cache = (stepped, after, none))
    {slots reached : List (Option (Node Circuit))} {cache after : NetlistCache} {changed : Bool}
    (stepsTo : stepSlots step slots cache = (reached, after, .ok changed)) :
    stepSlots other slots cache = (reached, after, .ok changed) := by
  induction slots generalizing reached cache changed with
  | nil => exact stepsTo
  | cons slot rest inductionHypothesis =>
    cases slot with
    | none =>
      rcases later : stepSlots step rest cache with ⟨slots, kept, outcome⟩
      simp only [stepSlots, later, Prod.mk.injEq] at stepsTo ⊢
      obtain ⟨rfl, rfl, rfl⟩ := stepsTo
      rw [inductionHypothesis later]
      exact ⟨rfl, rfl, rfl⟩
    | some node =>
      rcases first : step node cache with ⟨stepped, kept, fault | fault⟩
      · rcases later : stepSlots step rest kept with ⟨slots, final, outcome⟩
        simp only [stepSlots, first, later, Prod.mk.injEq] at stepsTo
        obtain ⟨rfl, rfl, mapped⟩ := stepsTo
        cases outcome with
        | error fault => cases mapped
        | ok differs =>
          cases mapped
          simp only [stepSlots, each _ _ _ _ first, inductionHypothesis later]
          rfl
      · simp only [stepSlots, first] at stepsTo
        cases stepsTo

/-- A pass without a fault is the same with a settling that carries over. -/
theorem pass_carriesOver (carries : given.CarriesOver larger) {initial changed : Bool} {netlist : Netlist}
    (ends : pass (Node.stepIn given initial) netlist circuit cache = (reached, after, .ok changed)) :
    pass (Node.stepIn larger initial) netlist circuit cache = (reached, after, .ok changed) := by
  simp only [pass] at ends ⊢
  rcases steps : stepSlots (Node.stepIn given initial)
    (circuit.stage (netlist.nets.map fun net => (net, net.resolve circuit))).nodes.slots cache with
    ⟨slots, kept, fault | differs⟩
  · rw [steps] at ends
    cases ends
  · rw [steps] at ends
    have carried := stepSlots_carriesOver
      (fun _ _ _ _ stepsTo => Node.stepIn_carriesOver carries stepsTo) steps
    rw [carried]
    exact ends

/-- Passes that end by themselves are the same ones when more are allowed: they do not end for want of
passes, unless the report says that the limit stopped them.

Proof: by induction on the passes left. No pass is left only if the last one has changed something, for
the initial pass was not the last one allowed; and then the report says so. -/
theorem passes_carriesOver
    {given larger : Bool → Circuit → NetlistCache → Circuit × NetlistCache × Except Fault Bool}
    (each : ∀ initial circuit cache reached after changed,
      given initial circuit cache = (reached, after, .ok changed) →
        larger initial circuit cache = (reached, after, .ok changed))
    {left more : Nat} {report final : Settling} (allowed : left ≤ more)
    (initialLeft : report.passes = 0 → 2 ≤ left) (stopped : left = 0 → report.capped = true)
    (ends : passes given left report circuit cache = (reached, after, .ok final))
    (uncapped : final.capped = false) :
    passes larger more report circuit cache = (reached, after, .ok final) := by
  induction left generalizing more report circuit cache with
  | zero =>
    simp only [passes, Prod.mk.injEq, Except.ok.injEq] at ends
    obtain ⟨_, _, rfl⟩ := ends
    rw [stopped rfl] at uncapped
    cases uncapped
  | succ left inductionHypothesis =>
    obtain ⟨more, rfl⟩ : ∃ others, more = others + 1 := ⟨more - 1, by omega⟩
    rcases passed : given (report.passes == 0) circuit cache with ⟨stepped, kept, fault | changed⟩
    · simp only [passes, passed] at ends
      cases ends
    · simp only [passes, passed] at ends
      simp only [passes, each _ _ _ _ _ _ passed]
      split at ends
      · rename_i concludes
        rw [if_pos concludes]
        exact ends
      · rename_i continues
        rw [if_neg continues]
        by_cases none : left = 0
        · -- the last pass allowed is not the initial one, so it has changed something
          have begun : (report.passes == 0) = false := by
            apply beq_false_of_ne
            intro initial
            have twoLeft := initialLeft initial
            omega
          have moved : changed = true := by simpa [begun] using continues
          subst none
          simp only [passes, moved, Prod.mk.injEq, Except.ok.injEq] at ends
          obtain ⟨_, _, rfl⟩ := ends
          cases uncapped
        · have notLast : (left == 0) = false := beq_false_of_ne none
          have notLastEither : (more == 0) = false := beq_false_of_ne (by omega)
          rw [notLast] at ends
          rw [notLastEither]
          exact inductionHypothesis (by omega) (fun initial => absurd initial (Nat.succ_ne_zero _))
            (fun last => absurd last none) ends

/-- A level that is settled and not stopped is settled alike when more passes are allowed and what is
inside its chips carries over. -/
theorem settle_carriesOver (carries : given.CarriesOver larger) {allowed more : Nat} {report : Settling}
    (twice : 2 ≤ allowed) (atLeast : allowed ≤ more)
    (ends : circuit.settle given allowed cache = (reached, after, .ok report))
    (uncapped : report.capped = false) :
    circuit.settle larger more cache = (reached, after, .ok report) :=
  passes_carriesOver (fun _ _ _ _ _ _ passed => pass_carriesOver carries passed) atLeast
    (fun _ => twice) (fun none => by omega) ends uncapped

/-- What an evaluation settles inside a chip, if no limit stops it there or deeper, is settled alike with
more passes and more levels.

Proof: by induction on the levels left. With no level left the circuit lies too deep. -/
theorem settleDemanding_carriesOver {allowed more : Nat} (twice : 2 ≤ allowed) (atLeast : allowed ≤ more)
    {levels deeper : Nat} (below : Except Fault Settling) (within : levels ≤ deeper) :
    (settleDemanding Settling.unhindered allowed (.ok .tooDeep) levels).CarriesOver
      (settleWithin more below deeper) := by
  induction levels generalizing deeper with
  | zero =>
    intro circuit cache reached after report ends
    cases ends
  | succ levels inductionHypothesis =>
    obtain ⟨deeper, rfl⟩ : ∃ others, deeper = others + 1 := ⟨deeper - 1, by omega⟩
    intro circuit cache reached after report ends
    simp only [settleDemanding, InnerSettling.demanding] at ends
    rcases settles : circuit.quieted.settle
      (settleDemanding Settling.unhindered allowed (.ok .tooDeep) levels) allowed cache with
      ⟨inside, kept, fault | told⟩
    · rw [settles] at ends
      cases ends
    · rw [settles] at ends
      cases accepted : told.unhindered with
      | false => simp [accepted] at ends
      | true =>
        simp only [accepted, if_true, Prod.mk.injEq, Except.ok.injEq] at ends
        obtain ⟨rfl, rfl, rfl⟩ := ends
        have uncapped : told.capped = false := by
          simpa using (Bool.and_eq_true_iff.mp accepted).1
        exact settle_carriesOver (inductionHypothesis (by omega)) twice atLeast settles uncapped

/-- The limits are only a guard. If a tick with at least two passes allowed is stopped by no limit, at
any depth, then with any larger limits on passes and on depth it reaches the same circuit, keeps the same
netlists and ends with the same report; where the tick does not begin, it ends with the same fault. -/
theorem evaluate_of_unhindered {limits wider : Limits} (twice : 2 ≤ limits.maxPasses)
    (morePasses : limits.maxPasses ≤ wider.maxPasses) (deeper : limits.maxDepth ≤ wider.maxDepth)
    (sameInterval : wider.interval = limits.interval)
    (unhindered : circuit.unhindered limits cache = true) :
    circuit.evaluate wider .top cache = circuit.evaluate limits .top cache := by
  cases begins : (circuit.beginTick limits.interval).2 with
  | some fault =>
    have beginsWider : (circuit.beginTick wider.interval).2 = some fault := by rw [sameInterval, begins]
    rw [evaluate_of_fault cache begins, evaluate_of_fault cache beginsWider, sameInterval]
  | none =>
    have beginsWider : (circuit.beginTick wider.interval).2 = none := by rw [sameInterval, begins]
    rw [evaluate_of_begun cache begins, evaluate_of_begun cache beginsWider, sameInterval]
    unfold Circuit.unhindered evaluateDemanding at unhindered
    rw [show limits.maxDepth + 1 - EvalContext.top.depth = limits.maxDepth + 1 from rfl] at unhindered
    simp only [show EvalContext.top.advance = true from rfl, if_true, begins, Option.isSome_none,
      Bool.false_or, show EvalContext.top.below limits = .ok .tooDeep from if_pos (.inl rfl)] at unhindered
    rcases settles : settle (settleDemanding Settling.unhindered limits.maxPasses (.ok .tooDeep)
      limits.maxDepth) limits.maxPasses (circuit.beginTick limits.interval).1 cache with
      ⟨reached, after, fault | report⟩
    · rw [settles] at unhindered
      cases unhindered
    · rw [settles] at unhindered
      have uncapped : report.capped = false := by
        simpa using (Bool.and_eq_true_iff.mp unhindered).1
      -- the demanding evaluation is followed by the one with these limits and by the one with larger ones
      have withThese := settle_carriesOver
        (settleDemanding_carriesOver twice le_rfl (.ok .tooDeep) le_rfl) twice le_rfl settles uncapped
      have withWider := settle_carriesOver
        (settleDemanding_carriesOver twice morePasses (.ok .tooDeep) deeper) twice morePasses settles
        uncapped
      rw [withThese, withWider]

/-- No limit stops the lit lamp behind a chip with three passes and a depth of one, so the standard
limits make no difference to it. -/
theorem chippedLamp_unhindered : (chippedLamp true).unhindered ⟨3, 1, 50⟩ .empty = true ∧
    (chippedLamp true).evaluate .standard .top .empty =
      (chippedLamp true).evaluate ⟨3, 1, 50⟩ .top .empty := by
  have unhindered : (chippedLamp true).unhindered ⟨3, 1, 50⟩ .empty = true := by decide +kernel
  exact ⟨unhindered, evaluate_of_unhindered (by decide) (by decide) (by decide) rfl unhindered⟩

/-- A depth of zero keeps its chip from being evaluated. -/
example : (chippedLamp true).unhindered ⟨3, 0, 50⟩ .empty = false := by
  decide +kernel

end Circuit

end Breadboard
