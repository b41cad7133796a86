import Breadboard.Proofs.Engine.Stillness

/-!
# Demanding evaluations

A demanding evaluation is given up as soon as an evaluation inside a chip ends with a report that is not
accepted. So a tick in which no evaluation inside a chip was stopped by the limit on passes is one that
a demanding evaluation, which accepts no such report, comes through. The circuits inside chips that it
settles do not change when they are settled again: a level that is not stopped stands still, if what it
settled inside its chips does not change when it is settled again.
-/

namespace Breadboard

/-- Settling that is given up where its report is not accepted. Giving up is a fault; which one does not
matter. -/
def InnerSettling.demanding (accepts : Settling → Bool) (settleInner : InnerSettling) : InnerSettling :=
  fun circuit cache =>
    match settleInner circuit cache with
    | (reached, after, .ok report) =>
      (reached, after, if accepts report then .ok report else .error .depthOverflow)
    | abandoned => abandoned

namespace Circuit

/-- Settles the circuit inside a chip and gives up where a report is not accepted. -/
def settleDemanding (accepts : Settling → Bool) (maxPasses : Nat) (below : Except Fault Settling) :
    Nat → InnerSettling
  | 0 => InnerSettling.demanding accepts fun circuit cache => (circuit, cache, below)
  | levels + 1 =>
    InnerSettling.demanding accepts fun circuit cache =>
      circuit.quieted.settle (settleDemanding accepts maxPasses below levels) maxPasses cache

/-- Evaluates a circuit for one tick and gives up where a report from inside a chip is not accepted. -/
def evaluateDemanding (accepts : Settling → Bool) (limits : Limits) (context : EvalContext)
    (circuit : Circuit) (cache : NetlistCache) : Circuit × NetlistCache × Except Fault Settling :=
  match limits.maxDepth + 1 - context.depth with
  | 0 => (circuit, cache, .ok .tooDeep)
  | levels + 1 =>
    let (begun, fault) :=
      if context.advance then circuit.beginTick limits.interval else (circuit.quieted, none)
    match fault with
    | some fault => (begun, cache, .error fault)
    | none =>
      let settleInner := settleDemanding accepts limits.maxPasses (context.below limits) levels
      begun.settle settleInner limits.maxPasses cache

/-- The tick is evaluated, and the limit on passes stops no evaluation inside a chip, at any depth. -/
def settlesInside (limits : Limits) (circuit : Circuit) (cache : NetlistCache) : Bool :=
  (evaluateDemanding (fun report => !report.capped) limits .top circuit cache).2.2.isOk

variable {table : Revision → List Net} {inner : Circuit → Circuit} {circuit : Circuit}

/-- Settling a level that is quiet already, and settling what it came to once more, ends alike if no
limit stopped the level or what is inside its chips. The second time nothing moves. -/
theorem plainSettle_again (blueprints : ∀ circuit, Related Node.KeepsBlueprint circuit (inner circuit))
    (drives : ∀ circuit, Related Node.KeepsDriven circuit (inner circuit)) (maxPasses : Nat)
    (uncapped : (circuit.quieted.plainReport (Node.boundStep inner) maxPasses).capped = false)
    (told : circuit.quieted.ToldInPasses
      (Node.ToldInside fun circuit => inner (inner circuit) = inner circuit) (Node.boundStep inner) 0
      (circuit.quieted.plainReport (Node.boundStep inner) maxPasses).passes) :
    (circuit.quieted.plainSettle (Node.boundStep inner) maxPasses).quieted.plainSettle
      (Node.boundStep inner) maxPasses = circuit.quieted.plainSettle (Node.boundStep inner) maxPasses := by
  cases maxPasses with
  | zero => exact circuit.quieted_quieted
  | succ left =>
    have somePass : 1 ≤ left + 1 := Nat.le_add_left 1 left
    exact (still_plainSettle blueprints drives somePass circuit.primed_quieted uncapped told).plainSettle
      id somePass

/-- An evaluation keeps the blueprints of nodes when circuits inside chips are settled. -/
theorem keepsBlueprint_boundWithin (maxPasses levels : Nat) (circuit : Circuit) :
    Related Node.KeepsBlueprint circuit (boundWithin maxPasses levels circuit) :=
  (invariant_tabled fun _ => []).boundWithin maxPasses levels circuit

/-- An evaluation leaves driven nodes driven when circuits inside chips are settled. -/
theorem keepsDriven_boundWithin (maxPasses levels : Nat) (circuit : Circuit) :
    Related Node.KeepsDriven circuit (boundWithin maxPasses levels circuit) :=
  Node.invariant_keepsDriven.boundWithin maxPasses levels circuit

/-- What holds of the circuits that a demanding evaluation settles inside chips, if it holds of a level
whenever the report on the level is accepted and it holds inside the chips on it.

Proof: by induction on the levels left. -/
theorem settleDemanding_induction {accepts : Settling → Bool} (told : Nat → Circuit → Prop)
    (table : Revision → List Net) (maxPasses : Nat) (below : Except Fault Settling)
    (deepest : ∀ circuit, told 0 circuit)
    (higher : ∀ levels (circuit : Circuit),
      accepts (circuit.quieted.plainReport (Node.boundStep (boundWithin maxPasses levels)) maxPasses) =
        true →
      circuit.quieted.ToldInPasses (Node.ToldInside (told levels))
        (Node.boundStep (boundWithin maxPasses levels)) 0
        (circuit.quieted.plainReport (Node.boundStep (boundWithin maxPasses levels)) maxPasses).passes →
      told (levels + 1) circuit) (levels : Nat) :
    SettlesAsBound table True (told levels) (boundWithin maxPasses levels)
      (settleDemanding accepts maxPasses below levels) := by
  have invariant := invariant_tabled table
  induction levels with
  | zero =>
    intro circuit cache _ knows
    simp only [settleDemanding, InnerSettling.demanding]
    cases below with
    | error fault => trivial
    | ok report =>
      simp only
      cases accepts report with
      | false => trivial
      | true => exact ⟨rfl, deepest circuit, knows⟩
  | succ levels inductionHypothesis =>
    intro circuit cache tabled knows
    have settled := settle_bound inductionHypothesis (keepsBlueprint_boundWithin maxPasses levels)
      maxPasses (invariant.lasts (invariant.related_quieted circuit) tabled) knows
    simp only [settleDemanding, InnerSettling.demanding]
    revert settled
    rcases settle (settleDemanding accepts maxPasses below levels) maxPasses circuit.quieted cache with
      ⟨reached, after, fault | report⟩
    · exact id
    · rintro ⟨rfl, ⟨rfl, inside⟩, knowsAfter⟩
      simp only
      cases accepted : accepts (circuit.quieted.plainReport (Node.boundStep (boundWithin maxPasses levels))
        maxPasses) with
      | false => trivial
      | true => exact ⟨rfl, higher levels circuit accepted inside, knowsAfter⟩

/-- What a demanding evaluation settles inside a chip does not change when it is settled again, if it
accepts nothing that the limit on passes stopped. -/
theorem settleDemanding_bound {accepts : Settling → Bool}
    (uncapped : ∀ report, accepts report = true → report.capped = false)
    (table : Revision → List Net) (maxPasses : Nat) (below : Except Fault Settling) (levels : Nat) :
    SettlesAsBound table True
      (fun circuit => boundWithin maxPasses levels (boundWithin maxPasses levels circuit) =
        boundWithin maxPasses levels circuit)
      (boundWithin maxPasses levels) (settleDemanding accepts maxPasses below levels) := by
  refine settleDemanding_induction
    (fun levels circuit => boundWithin maxPasses levels (boundWithin maxPasses levels circuit) =
      boundWithin maxPasses levels circuit) table maxPasses below (fun _ => rfl) ?_ levels
  intro levels circuit accepted inside
  exact plainSettle_again (keepsBlueprint_boundWithin maxPasses levels)
    (keepsDriven_boundWithin maxPasses levels) maxPasses (uncapped _ accepted) inside

/-- What holds of the circuits that a demanding evaluation settles inside chips holds in a tick in which
the limit on passes stops no evaluation inside a chip. -/
theorem toldInPasses_of_settlesInside {limits : Limits} {cache : NetlistCache} {told : Circuit → Prop}
    (settles : SettlesAsBound table True told (boundWithin limits.maxPasses limits.maxDepth)
      (settleDemanding (fun report => !report.capped) limits.maxPasses (EvalContext.top.below limits)
        limits.maxDepth))
    (tabled : circuit.Tabled table) (knows : cache.Knows table)
    (inside : circuit.settlesInside limits cache = true) :
    (circuit.beginTick limits.interval).1.ToldInPasses (Node.ToldInside told)
      (Node.boundStep (boundWithin limits.maxPasses limits.maxDepth)) 0
      ((circuit.beginTick limits.interval).1.plainReport
        (Node.boundStep (boundWithin limits.maxPasses limits.maxDepth)) limits.maxPasses).passes := by
  have invariant := invariant_tabled table
  have settled := settle_bound settles
    (keepsBlueprint_boundWithin limits.maxPasses limits.maxDepth) limits.maxPasses
    (invariant.lasts (invariant.related_beginTick limits.interval circuit) tabled) knows
  unfold settlesInside evaluateDemanding at inside
  rw [show limits.maxDepth + 1 - EvalContext.top.depth = limits.maxDepth + 1 from rfl] at inside
  simp only [show EvalContext.top.advance = true from rfl, if_true] at inside
  cases faultless : (circuit.beginTick limits.interval).2 with
  | some fault =>
    rw [faultless] at inside
    cases inside
  | none =>
    rw [faultless] at inside
    simp only at inside
    revert settled inside
    rcases settle (settleDemanding (fun report => !report.capped) limits.maxPasses
      (EvalContext.top.below limits) limits.maxDepth) limits.maxPasses
      (circuit.beginTick limits.interval).1 cache with ⟨reached, after, fault | report⟩
    · intro _ inside
      cases inside
    · rintro ⟨rfl, ⟨rfl, told⟩, _⟩ _
      exact told

/-- In a tick in which the limit on passes stops no evaluation inside a chip, what is settled inside
chips does not change when it is settled again. -/
theorem told_of_settlesInside {limits : Limits} {cache : NetlistCache} (tabled : circuit.Tabled table)
    (knows : cache.Knows table) (inside : circuit.settlesInside limits cache = true) :
    (circuit.beginTick limits.interval).1.ToldInPasses
      (Node.ToldInside fun circuit =>
        boundWithin limits.maxPasses limits.maxDepth
            (boundWithin limits.maxPasses limits.maxDepth circuit) =
          boundWithin limits.maxPasses limits.maxDepth circuit)
      (Node.boundStep (boundWithin limits.maxPasses limits.maxDepth)) 0
      ((circuit.beginTick limits.interval).1.plainReport
        (Node.boundStep (boundWithin limits.maxPasses limits.maxDepth)) limits.maxPasses).passes :=
  toldInPasses_of_settlesInside (settleDemanding_bound (fun report => by simp) table limits.maxPasses
    (EvalContext.top.below limits) limits.maxDepth) tabled knows inside

end Circuit

end Breadboard
