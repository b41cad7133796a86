import Breadboard.Proofs.Engine.Repetition
import Breadboard.Proofs.Workshop.Soundness

/-!
# Ticks that change nothing

Whatever was done in a workshop, a tick that changes no output is followed by ticks that change none
either, and nothing else that is observed, unless the limit on passes stopped an evaluation inside a
chip. What goes on inside a chip is not reported on the level around it: there, a chip that the limit
stops again and again looks quiet until a signal arrives at one of its output pins.
-/

namespace Breadboard

namespace Workshop

/-- Whatever was done in a workshop, a tick of one of its circuits that changes no output is stable, if
the limit on passes stops no evaluation inside a chip during this tick: if no oscillator toggles, the
next tick changes no output either, and all that is observed stays as it was, at every depth. -/
theorem quiet_tick_again (actions : List Action) {address : Address} {circuit final : Circuit}
    {limits : Limits} {after kept : NetlistCache} {report : Settling}
    (found : (opened.run actions).circuit? address = some circuit)
    (evaluated : circuit.evaluate limits .top (opened.run actions).cache = (final, after, .ok report))
    (unchanged : report.changed = false)
    (inside : circuit.settlesInside limits (opened.run actions).cache = true)
    (keeps : final.keepsPhase limits.interval = true) (keptAfter : kept = after ∨ kept = after.sweep) :
    ∃ next later repeated, final.evaluate limits .top kept = (next, later, .ok repeated) ∧
      repeated.changed = false ∧ next.observed = final.observed := by
  obtain ⟨table, sound⟩ := sound_run actions
  have tabled := sound.tabled_of_circuit? found
  obtain ⟨_, _, _, _, knowsAfter⟩ := Circuit.settled_of_evaluate tabled sound.knows evaluated
  have uncapped := Circuit.uncapped_of_evaluate tabled sound.knows evaluated unchanged
  have knowsKept : kept.Knows table := by
    rcases keptAfter with rfl | rfl
    · exact knowsAfter
    · exact knowsAfter.sweep
  obtain ⟨later, again⟩ :=
    Circuit.evaluate_again tabled sound.knows evaluated uncapped inside keeps knowsKept
  exact ⟨final.ticked, later, _, again, rfl, final.observed_ticked⟩

/-- A switch, a chip in which a gate passes a signal on, and a light, after one tick. -/
def delayedLamp (limits : Limits) : List Action :=
  [.create,
    .edit ⟨0, []⟩ (.add (.ofPart (.inputPin .one (.bit false)))),
    .edit ⟨0, []⟩ (.add (.ofPart (.gate .or))),
    .edit ⟨0, []⟩ (.add (.ofPart (.outputPin .one (.bit false)))),
    .edit ⟨0, []⟩ (.connect ⟨0, "out"⟩ ⟨1, "a"⟩),
    .edit ⟨0, []⟩ (.connect ⟨1, "out"⟩ ⟨2, "in"⟩),
    .create,
    .edit ⟨1, []⟩ (.add (.ofPart (.switch true))),
    .edit ⟨1, []⟩ (.add (.ofPart (.chip
      ⟨"DELAY", [.ofBit "in0" "in"], [.ofBit "out0" "out"], ⟨0, []⟩, none, .empty⟩))),
    .edit ⟨1, []⟩ (.add (.ofPart (.light false))),
    .edit ⟨1, []⟩ (.connect ⟨0, "out"⟩ ⟨1, "in0"⟩),
    .edit ⟨1, []⟩ (.connect ⟨1, "out0"⟩ ⟨2, "in"⟩),
    .evaluate ⟨1, []⟩ limits .top]

/-- With the standard limits the second tick of the delayed lamp changes nothing, nor does the third. -/
theorem delayedLamp_again : ∃ circuit final after next later repeated,
    (opened.run (delayedLamp .standard)).circuit? ⟨1, []⟩ = some circuit ∧
      circuit.evaluate .standard .top (opened.run (delayedLamp .standard)).cache =
        (final, after, .ok ⟨false, 2, false, false⟩) ∧
      final.evaluate .standard .top after = (next, later, .ok repeated) ∧
      repeated.changed = false ∧ next.observed = final.observed := by
  have second : ((opened.run (delayedLamp .standard)).circuit? ⟨1, []⟩).map (fun circuit =>
      let outcome := circuit.evaluate .standard .top (opened.run (delayedLamp .standard)).cache
      (outcome.2.2.toOption, outcome.1.keepsPhase 50,
        circuit.settlesInside .standard (opened.run (delayedLamp .standard)).cache)) =
      some (some ⟨false, 2, false, false⟩, true, true) := by
    decide +kernel
  obtain ⟨circuit, found, facts⟩ := Option.map_eq_some_iff.mp second
  simp only [Prod.mk.injEq] at facts
  obtain ⟨reports, keeps, inside⟩ := facts
  rcases outcome : circuit.evaluate .standard .top (opened.run (delayedLamp .standard)).cache with
    ⟨final, after, fault | report⟩
  · rw [outcome] at reports
    cases reports
  · rw [outcome] at reports keeps
    cases reports
    obtain ⟨next, later, repeated, again⟩ :=
      quiet_tick_again (delayedLamp .standard) found outcome rfl inside keeps (.inl rfl)
    exact ⟨circuit, final, after, next, later, repeated, found, outcome, again⟩

/-- One pass on every level. -/
def onePass : Limits :=
  { Limits.standard with maxPasses := 1 }

/-- With one pass allowed on every level, the second tick of the delayed lamp changes no output, though
its circuits are acyclic on every level and lie within the depth limit; but the third tick does, since
the limit stopped the chip before the signal reached its output pin. -/
theorem delayedLamp_moves : ∃ circuit final after next later,
    (opened.run (delayedLamp onePass)).circuit? ⟨1, []⟩ = some circuit ∧
      (∀ path inner, circuit.inside? path = some inner →
        inner.Acyclic ∧ path.length ≤ onePass.maxDepth) ∧
      circuit.evaluate onePass .top (opened.run (delayedLamp onePass)).cache =
        (final, after, .ok ⟨false, 1, false, false⟩) ∧
      final.keepsPhase onePass.interval = true ∧
      final.evaluate onePass .top after = (next, later, .ok ⟨true, 1, true, false⟩) ∧
      ((final.node? 1).map fun node => node.outputs.bitAt "out0") = some false ∧
      ((next.node? 1).map fun node => node.outputs.bitAt "out0") = some true := by
  have ticks : ((opened.run (delayedLamp onePass)).circuit? ⟨1, []⟩).map (fun circuit =>
      let second := circuit.evaluate onePass .top (opened.run (delayedLamp onePass)).cache
      let third := second.1.evaluate onePass .top second.2.1
      (circuit.risesWithin 2 && second.1.keepsPhase 50, second.2.2.toOption, third.2.2.toOption,
        (second.1.node? 1).map fun node => node.outputs.bitAt "out0",
        (third.1.node? 1).map fun node => node.outputs.bitAt "out0")) =
      some (true, some ⟨false, 1, false, false⟩, some ⟨true, 1, true, false⟩,
        some false, some true) := by
    decide +kernel
  obtain ⟨circuit, found, facts⟩ := Option.map_eq_some_iff.mp ticks
  simp only [Prod.mk.injEq, Bool.and_eq_true] at facts
  obtain ⟨⟨rises, keeps⟩, second, third, before, moved⟩ := facts
  have acyclic (path : List NodeId) (inner : Circuit) (leads : circuit.inside? path = some inner) :
      inner.Acyclic ∧ path.length ≤ onePass.maxDepth := by
    obtain ⟨isAcyclic, shallow⟩ := Circuit.acyclic_of_risesWithin rises leads
    exact ⟨isAcyclic, by change path.length ≤ 20; omega⟩
  rcases outcome : circuit.evaluate onePass .top (opened.run (delayedLamp onePass)).cache with
    ⟨final, after, fault | report⟩
  · rw [outcome] at second
    cases second
  · rw [outcome] at second keeps third before moved
    cases second
    rcases next : final.evaluate onePass .top after with ⟨reached, later, fault | report⟩
    · rw [next] at third
      cases third
    · rw [next] at third moved
      cases third
      exact ⟨circuit, final, after, reached, later, found, acyclic, outcome, keeps, next, before, moved⟩

end Workshop

end Breadboard
