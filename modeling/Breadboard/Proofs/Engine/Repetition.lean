import Breadboard.Proofs.Engine.Demanding
import Breadboard.Proofs.Engine.Settlement
import Breadboard.Proofs.Part.Counting

/-!
# Evaluating a settled circuit again

A tick in which no limit on passes stopped an evaluation, on any level, leaves a circuit that stands
still on every level. If no oscillator toggles, the beginning of the next tick only quiets the circuit
and counts on; so the next tick rebuilds the circuit and finds in its first two passes that nothing
changes.
-/

namespace Breadboard

namespace Node

/-- A node is no oscillator that the next tick toggles. -/
def keepsPhase {Inner : Type} (interval : Nat) (node : Node Inner) : Bool :=
  match node.part with
  | .clock oscillator => oscillator.keepsPhase interval
  | _ => true

variable {node : Node Circuit}

/-- A node is quieted and counts on in either order. -/
theorem quieted_adjusted (node : Node Circuit) :
    (node.adjusted Oscillator.ticked).quieted = node.quieted.adjusted Oscillator.ticked := by
  obtain ⟨label, position, part, inputs, outputs⟩ := node
  cases part with
  | clock oscillator => simp [quieted, adjusted]
  | _ => rfl

/-- A node receives and shows the same while it counts on. -/
theorem showing_adjusted (node : Node Circuit) (arriving : PortMap) (shown : Option Signal) :
    ((node.adjusted Oscillator.ticked).staged arriving).showing shown =
      ((node.staged arriving).showing shown).adjusted Oscillator.ticked := by
  obtain ⟨label, position, part, inputs, outputs⟩ := node
  cases shown <;> cases part <;> rfl

/-- Steps have no say in the count of an oscillator. -/
theorem boundStep_adjusted (inner : Circuit → Circuit) (initial : Bool) (node : Node Circuit) :
    (node.adjusted Oscillator.ticked).boundStep inner initial =
      (node.boundStep inner initial).adjusted Oscillator.ticked := by
  obtain ⟨label, position, part, inputs, outputs⟩ := node
  cases part with
  | resize direction => cases direction <;> rfl
  | _ => rfl

/-- For a node that no tick toggles, a tick begins with a further count. -/
theorem beginTick_of_keepsPhase {interval : Nat} (keeps : node.keepsPhase interval = true) :
    node.beginTick interval = .ok (node.adjusted Oscillator.ticked).quieted := by
  obtain ⟨label, position, part, inputs, outputs⟩ := node
  cases part with
  | clock oscillator =>
    simp only [beginTick, Oscillator.advance_of_keepsPhase (o := oscillator) keeps]
    rfl
  | _ => rfl

end Node

namespace Circuit

/-- The circuit in which the running oscillators of the top level have counted on. -/
def ticked (circuit : Circuit) : Circuit :=
  { circuit with nodes := circuit.nodes.map (Node.adjusted Oscillator.ticked) }

/-- The next tick toggles no oscillator. -/
def keepsPhase (interval : Nat) (circuit : Circuit) : Bool :=
  circuit.nodes.values.all (Node.keepsPhase interval)

variable {table : Revision → List Net} {inner : Circuit → Circuit} {circuit : Circuit}

/-- A handle names the node that it named, counted on. -/
theorem node?_ticked (circuit : Circuit) (id : NodeId) :
    circuit.ticked.node? id = (circuit.node? id).map (Node.adjusted Oscillator.ticked) :=
  Arena.get?_map ..

/-- A circuit is quieted and counts on in either order. -/
theorem quieted_ticked (circuit : Circuit) : circuit.ticked.quieted = circuit.quieted.ticked := by
  refine ext_node? (by simp [quieted, ticked, Arena.map]) (fun id => ?_) rfl rfl
  rw [node?_quieted, node?_ticked, node?_ticked, node?_quieted, Option.map_map, Option.map_map]
  exact Option.map_congr fun node _ => Node.quieted_adjusted node

/-- Where no oscillator toggles, a tick begins with a further count. -/
theorem beginTick_of_keepsPhase {interval : Nat} (keeps : circuit.keepsPhase interval = true) :
    circuit.beginTick interval = (circuit.ticked.quieted, none) := by
  have each {id : NodeId} {node : Node Circuit} (found : circuit.node? id = some node) :=
    Node.beginTick_of_keepsPhase (List.all_eq_true.mp keeps node (Arena.mem_values.mpr ⟨id, found⟩))
  have faultless : (circuit.beginTick interval).2 = none := by
    refine beginTick_none_iff.mpr fun id node found => ?_
    rw [Node.begins, each found]
    rfl
  refine Prod.ext ?_ faultless
  rw [beginTick_exact faultless]
  refine ext_node? (by simp [quieted, ticked, Arena.map]) (fun id => ?_) rfl rfl
  rw [node?_quieted, node?_ticked, Option.map_map, node?, Arena.get?_map]
  refine Option.map_congr fun node found => ?_
  rw [Node.begun, each found]
  rfl

/-- A tick that begins without a fault leaves nothing to quiet. -/
theorem quieted_beginTick {interval : Nat} (faultless : (circuit.beginTick interval).2 = none) :
    (circuit.beginTick interval).1.quieted = (circuit.beginTick interval).1 := by
  rw [beginTick_exact faultless]
  refine ext_node? (by simp [quieted, Arena.map]) (fun id => ?_) rfl rfl
  rw [node?_quieted, node?, Arena.get?_map, Option.map_map]
  refine Option.map_congr fun node found => ?_
  obtain ⟨original, begun⟩ :=
    Node.exists_quieted_of_begins (beginTick_none_iff.mp faultless id node found)
  rw [Function.comp_apply, begun, Node.quieted_quieted]

/-- Counting on leaves the signals of the nets. -/
theorem sameSignals_ticked (circuit : Circuit) : circuit.ticked.SameSignals circuit := by
  have related : Related Node.KeepsBlueprint circuit circuit.ticked :=
    .of_map ⟨rfl, rfl, by simp [ticked, Arena.map]⟩ (fun _ => Node.adjusted Oscillator.ticked)
      (node?_ticked circuit) fun _ node _ => Node.blueprint_adjusted _ node
  refine ⟨nets_of_blueprint_eq related.blueprint_eq, fun net _ source _ => ?_⟩
  rw [Net.driven?, Net.driven?, node?_ticked]
  cases circuit.node? source.node with
  | none => rfl
  | some node => simp

/-- A level at a standstill stands still while oscillators count on. -/
theorem Still.ticked (still : circuit.Still inner) : circuit.ticked.Still inner := by
  have same := circuit.sameSignals_ticked
  constructor
  all_goals
    intro id node found
    rw [node?_ticked] at found
    obtain ⟨original, here, rfl⟩ := Option.map_eq_some_iff.mp found
  · rw [same.arriving, same.jointSignal?, Node.quieted_adjusted, Node.showing_adjusted,
      still.rebuilt id original here]
  · intro initial
    rw [Node.boundStep_adjusted, still.stepped id original here initial]

/-- Settling a level that was quiet, and settling what it came to once more after oscillators counted
on, ends alike but for the counts, if no limit stopped the level or what is inside its chips. The second
time nothing moves. -/
theorem plainSettle_ticked (blueprints : ∀ circuit, Related Node.KeepsBlueprint circuit (inner circuit))
    (drives : ∀ circuit, Related Node.KeepsDriven circuit (inner circuit)) {maxPasses : Nat}
    (quiet : circuit.quieted = circuit)
    (uncapped : (circuit.plainReport (Node.boundStep inner) maxPasses).capped = false)
    (told : circuit.ToldInPasses (Node.ToldInside fun circuit => inner (inner circuit) = inner circuit)
      (Node.boundStep inner) 0 (circuit.plainReport (Node.boundStep inner) maxPasses).passes)
    {settled : Circuit} (isSettled : settled = circuit.plainSettle (Node.boundStep inner) maxPasses) :
    settled.ticked.quieted.plainSettle (Node.boundStep inner) maxPasses = settled.ticked ∧
      settled.ticked.quieted.plainReport (Node.boundStep inner) maxPasses =
        ⟨false, min 2 maxPasses, false, false⟩ := by
  subst isSettled
  cases maxPasses with
  | zero =>
    refine ⟨?_, rfl⟩
    change circuit.ticked.quieted = circuit.ticked
    rw [quieted_ticked, quiet]
  | succ left =>
    have somePass : 1 ≤ left + 1 := Nat.le_add_left 1 left
    have primed := circuit.primed_quieted
    rw [quiet] at primed
    have still := (still_plainSettle blueprints drives somePass primed uncapped told).ticked
    exact ⟨still.plainSettle id somePass, still.plainReport id (left + 1)⟩

section

variable {limits : Limits} {final : Circuit} {cache after : NetlistCache} {report : Settling}
  (tabled : circuit.Tabled table) (knows : cache.Knows table)
  (evaluated : circuit.evaluate limits .top cache = (final, after, .ok report))
include tabled knows evaluated

/-- A tick that is evaluated began without a fault, and was settled by the pins that chips go by. -/
theorem settled_of_evaluate :
    (circuit.beginTick limits.interval).2 = none ∧
      final = (circuit.beginTick limits.interval).1.plainSettle
        (Node.boundStep (boundWithin limits.maxPasses limits.maxDepth)) limits.maxPasses ∧
      report = (circuit.beginTick limits.interval).1.plainReport
        (Node.boundStep (boundWithin limits.maxPasses limits.maxDepth)) limits.maxPasses ∧
      final.Tabled table ∧ after.Knows table := by
  have reported : (circuit.evaluate limits .top cache).2.2 = .ok report := by rw [evaluated]
  have faultless : (circuit.beginTick limits.interval).2 = none :=
    faultless_of_evaluate (Nat.zero_le _) reported
  obtain ⟨_, plain, knowsAfter⟩ := evaluate_bound tabled knows faultless
  have related := ((invariant_tabled table).evaluate limits .top tabled knows).1
  rw [evaluated] at plain related
  simp only [Prod.mk.injEq, Except.ok.injEq] at plain
  obtain ⟨isFinal, rfl, isReport⟩ := plain
  exact ⟨faultless, isFinal, isReport, (invariant_tabled table).lasts related tabled, knowsAfter⟩

/-- Where a tick changes no output, the limit on passes does not stop its top level. -/
theorem uncapped_of_evaluate (unchanged : report.changed = false) : report.capped = false := by
  obtain ⟨_, _, rfl, _⟩ := settled_of_evaluate tabled knows evaluated
  exact Settling.uncapped_of_unchanged unchanged

/-- Where a limit on passes stopped no evaluation of a tick, on any level, and no oscillator toggles,
the next tick changes nothing but the counts of running oscillators. -/
theorem evaluate_again (uncapped : report.capped = false)
    (inside : circuit.settlesInside limits cache = true)
    (keeps : final.keepsPhase limits.interval = true) {kept : NetlistCache}
    (knowsKept : kept.Knows table) :
    ∃ later, final.evaluate limits .top kept =
      (final.ticked, later, .ok ⟨false, min 2 limits.maxPasses, false, false⟩) := by
  obtain ⟨faultless, isFinal, isReport, tabledFinal, _⟩ := settled_of_evaluate tabled knows evaluated
  rw [isReport] at uncapped
  have begins := beginTick_of_keepsPhase keeps
  obtain ⟨later, again, _⟩ := evaluate_bound tabledFinal knowsKept (congrArg Prod.snd begins)
  obtain ⟨same, reports⟩ := plainSettle_ticked (keepsBlueprint_boundWithin _ _)
    (keepsDriven_boundWithin _ _) (quieted_beginTick faultless) uncapped
    (told_of_settlesInside tabled knows inside) isFinal
  rw [begins, same, reports] at again
  exact ⟨later, again⟩

end

/-- The tick after a circuit was settled shows what was shown: counts are not observed. -/
theorem observed_ticked (circuit : Circuit) : circuit.ticked.observed = circuit.observed := by
  have related : Related (fun before after => after.observed = before.observed) circuit circuit.ticked :=
    .of_map ⟨rfl, rfl, by simp [ticked, Arena.map]⟩ (fun _ => Node.adjusted Oscillator.ticked)
      (node?_ticked circuit) fun _ node _ => by
        obtain ⟨label, position, part, inputs, outputs⟩ := node
        cases part with
        | clock oscillator =>
          simp only [Node.adjusted, Node.observed, Node.viewed, Node.map, Part.map, Part.observable,
            Oscillator.output_ticked]
        | _ => rfl
  exact related.viewed_eq fun _ _ same => same

/-- A table tells the nets of a coherent circuit on every level. -/
theorem Faithful.tabled (faithful : circuit.Faithful table) : circuit.Tabled table := by
  induction faithful with
  | intro circuit nets _ _ inductionHypothesis =>
    exact throughout_iff.mpr ⟨nets, fun id node body found isChip =>
      inductionHypothesis id node body found isChip⟩

/-- What becomes of a circuit, and of a cache that is empty at first, by ticks, between which pins and
switches are driven, oscillators changed and netlists dropped. -/
inductive Evolves (start : Circuit) : Circuit → NetlistCache → Prop
  | start : Evolves start start .empty
  | tick {circuit : Circuit} {cache : NetlistCache} (limits : Limits) (evolves : Evolves start circuit cache) :
      Evolves start (circuit.evaluate limits .top cache).1 (circuit.evaluate limits .top cache).2.1
  | drive {circuit : Circuit} {cache : NetlistCache} (id : NodeId) (signal : Signal)
      (evolves : Evolves start circuit cache) :
      Evolves start (circuit.modifyNode id fun node => (node.drive? signal).getD node) cache
  | adjust {circuit : Circuit} {cache : NetlistCache} (id : NodeId) (change : Oscillator → Oscillator)
      (evolves : Evolves start circuit cache) :
      Evolves start (circuit.modifyNode id (Node.adjusted change)) cache
  | sweep {circuit : Circuit} {cache : NetlistCache} (evolves : Evolves start circuit cache) :
      Evolves start circuit cache.sweep
  | clear {circuit : Circuit} {cache : NetlistCache} (evolves : Evolves start circuit cache) :
      Evolves start circuit cache.clear

/-- A table that tells the nets of a circuit tells those of what becomes of it, and agrees with the
cache. -/
theorem Evolves.sound {start : Circuit} {cache : NetlistCache} (tabled : start.Tabled table)
    (evolves : start.Evolves circuit cache) : circuit.Tabled table ∧ cache.Knows table := by
  induction evolves with
  | start => exact ⟨tabled, NetlistCache.knows_empty table⟩
  | tick limits _ inductionHypothesis =>
    obtain ⟨tabled, knows⟩ := inductionHypothesis
    obtain ⟨related, knowsAfter⟩ := (invariant_tabled table).evaluate limits .top tabled knows
    exact ⟨(invariant_tabled table).lasts related tabled, knowsAfter⟩
  | drive id signal _ inductionHypothesis =>
    obtain ⟨tabled, knows⟩ := inductionHypothesis
    exact ⟨tabled.of_blueprint_eq (blueprint_modifyNode _ id _ (Node.blueprint_driven signal)).symm,
      knows⟩
  | adjust id change _ inductionHypothesis =>
    obtain ⟨tabled, knows⟩ := inductionHypothesis
    exact ⟨tabled.of_blueprint_eq (blueprint_modifyNode _ id _ (Node.blueprint_adjusted change)).symm,
      knows⟩
  | sweep _ inductionHypothesis => exact ⟨inductionHypothesis.1, inductionHypothesis.2.sweep⟩
  | clear _ inductionHypothesis => exact ⟨inductionHypothesis.1, NetlistCache.knows_clear table _⟩

/-- A tick that settles a coherent circuit on all levels is repeated by the next one. If no limit on
passes stops an evaluation of the tick, on the top level or inside a chip, then the next tick, with the
netlists that are kept then and whether or not they are swept before, reports that nothing changed, in
two passes or as many as are allowed if these are fewer; and it leaves everything at every depth as it
is, except that running oscillators of the top level count on, if none of them toggles. -/
theorem tick_again {start final : Circuit} {limits : Limits} {cache after kept : NetlistCache}
    {report : Settling} (coherent : start.Coherent) (evolves : start.Evolves circuit cache)
    (evaluated : circuit.evaluate limits .top cache = (final, after, .ok report))
    (uncapped : report.capped = false) (inside : circuit.settlesInside limits cache = true)
    (keeps : final.keepsPhase limits.interval = true) (keptAfter : kept = after ∨ kept = after.sweep) :
    ∃ later, final.evaluate limits .top kept =
      (final.ticked, later, .ok ⟨false, min 2 limits.maxPasses, false, false⟩) := by
  obtain ⟨table, faithful⟩ := coherent.faithful
  obtain ⟨tabled, knows⟩ := evolves.sound faithful.tabled
  obtain ⟨_, _, _, _, knowsAfter⟩ := settled_of_evaluate tabled knows evaluated
  have knowsKept : kept.Knows table := by
    rcases keptAfter with rfl | rfl
    · exact knowsAfter
    · exact knowsAfter.sweep
  exact evaluate_again tabled knows evaluated uncapped inside keeps knowsKept

/-- The chipped lamp settles in its first tick, and the second tick changes nothing. -/
theorem chippedLamp_again : ∃ final after later,
    (chippedLamp true).evaluate .standard .top .empty = (final, after, .ok ⟨true, 3, false, false⟩) ∧
      final.evaluate .standard .top after = (final.ticked, later, .ok ⟨false, 2, false, false⟩) := by
  have reports : ((chippedLamp true).evaluate .standard .top .empty).2.2.toOption =
      some ⟨true, 3, false, false⟩ := by decide +kernel
  have keeps : ((chippedLamp true).evaluate .standard .top .empty).1.keepsPhase 50 = true := by
    decide +kernel
  have inside : (chippedLamp true).settlesInside .standard .empty = true := by decide +kernel
  rcases outcome : (chippedLamp true).evaluate .standard .top .empty with ⟨final, after, fault | report⟩
  · rw [outcome] at reports
    cases reports
  · rw [outcome] at reports keeps
    cases reports
    obtain ⟨later, again⟩ :=
      tick_again (coherent_chippedLamp true) .start outcome rfl inside keeps (.inl rfl)
    exact ⟨final, after, later, rfl, again⟩

end Circuit

end Breadboard
