import Breadboard.Proofs.Engine.Convergence

/-!
# Acyclic circuits settle to what their basis determines

In a circuit that is acyclic on every level, with two passes more than a longest chain has edges allowed
on every level, a tick ends with a quiet pass and what is observed afterwards depends on the basis only,
at every depth. Circuits inside chips are settled as determined by their basis if they fit within the
levels that are left; so the claim for a level follows from the claim for the levels below it.
-/

namespace Breadboard

/-- If no pass after some number of them changes an output and one more is allowed, passes end with a
quiet one and not at the limit. -/
theorem Settling.ends_quietly {moves : Nat → Bool} {maxPasses edges : Nat}
    (quiet : ∀ pass, edges < pass → moves pass = false) (room : edges + 2 ≤ maxPasses) :
    (ofMoves moves maxPasses).capped = false ∧ (ofMoves moves maxPasses).passes ≤ edges + 2 ∧
      ∃ last, (ofMoves moves maxPasses).passes = last + 1 ∧ moves last = false := by
  have concludes := ofMoves_concludes moves maxPasses
  have uncapped : (ofMoves moves maxPasses).capped = false := by
    rw [Bool.eq_false_iff]
    intro capped
    obtain ⟨last, isMore, _, _, moved⟩ := moved_of_capped capped
    rw [quiet last (by omega)] at moved
    cases moved
  refine ⟨uncapped, ?_, quiet_of_uncapped (by omega) uncapped⟩
  by_contra further
  have moved := concludes.accounts.moved (edges + 1) (by omega) (by omega)
  rw [quiet _ (Nat.lt_succ_self _)] at moved
  cases moved

namespace Circuit

variable {good : Circuit → Prop} {inner : Circuit → Circuit} {circuit left right : Circuit}
  {edges maxPasses : Nat}

section

variable (determined : Determined good inner)
include determined

/-- Where a longest chain leaves room, passes end with a quiet one and not at the limit. -/
theorem plainReport_ends_quietly (poised : circuit.Poised good inner true)
    (longest : circuit.LongestChain edges) (room : edges + 2 ≤ maxPasses) :
    (circuit.plainReport (Node.plainStep inner) maxPasses).capped = false ∧
      (circuit.plainReport (Node.plainStep inner) maxPasses).passes ≤ edges + 2 ∧
      ∃ last, (circuit.plainReport (Node.plainStep inner) maxPasses).passes = last + 1 ∧
        circuit.moves (Node.plainStep inner) last = false :=
  Settling.ends_quietly (fun _ late => moves_of_longestChain determined poised longest late) room

/-- Levels with one basis that are settled are observed alike. -/
theorem observed_plainSettle_congr (same : left.basis = right.basis)
    (leftPoised : left.Poised good inner true) (rightPoised : right.Poised good inner true)
    (longest : left.LongestChain edges) (room : edges + 2 ≤ maxPasses) :
    (left.plainSettle (Node.plainStep inner) maxPasses).observed =
      (right.plainSettle (Node.plainStep inner) maxPasses).observed := by
  have longestToo := longest.of_outline_eq (outline_of_basis_eq same)
  obtain ⟨_, _, leftLast, leftPasses, leftQuiet⟩ :=
    plainReport_ends_quietly determined leftPoised longest room
  obtain ⟨_, _, rightLast, rightPasses, rightQuiet⟩ :=
    plainReport_ends_quietly determined rightPoised longestToo room
  rw [plainSettle, plainSettle, leftPasses, rightPasses, afterPasses, afterPasses]
  have sameBasis : (left.afterPasses (Node.plainStep inner) leftLast).basis =
      (right.afterPasses (Node.plainStep inner) rightLast).basis := by
    rw [basis_afterPasses determined, basis_afterPasses determined, same]
  exact observed_plainPass_congr determined sameBasis (leftPoised.afterPasses determined leftLast)
    (rightPoised.afterPasses determined rightLast)
    (sameSignals_before_quiet determined same leftPoised rightPoised longest leftQuiet rightQuiet)

end

/-- A level whose nodes are quieted is ready for the initial pass. -/
theorem Poised.of_quieted
    (quieted : ∀ id node, circuit.node? id = some node → ∃ original : Node Circuit,
      node = original.quieted)
    (isGood : ∀ id node body, circuit.node? id = some node → node.part = .chip body →
      good body.circuit) : circuit.Poised good inner true := by
  constructor
  · intro id node found
    refine ⟨fun oscillator isClock => ?_, fun body isChip => isGood id node body found isChip,
      fun _ _ initial => by cases initial⟩
    obtain ⟨⟨label, position, part, inputs, outputs⟩, rfl⟩ := quieted id node found
    cases part with
    | clock original =>
      cases isClock
      exact (PortMap.get?_insert ..).trans (if_pos rfl)
    | _ => cases isClock
  · intro id node found joint
    obtain ⟨⟨label, position, part, inputs, outputs⟩, rfl⟩ := quieted id node found
    cases part with
    | joint => exact ⟨.bit false, rfl, fun _ => rfl⟩
    | _ => cases joint

/-- The circuit nests less deep than the levels given, and on every level the passes allowed are two
more than a longest chain has edges. -/
def Fits (maxPasses : Nat) : Nat → Circuit → Prop
  | 0, _ => False
  | levels + 1, circuit =>
    (∃ edges, circuit.LongestChain edges ∧ edges + 2 ≤ maxPasses) ∧
      ∀ id node body, circuit.node? id = some node → node.part = .chip body →
        body.circuit.Fits maxPasses levels

/-- Whether a circuit fits is told by its outline.

Proof: by induction on the levels. -/
theorem Fits.of_outline_eq {levels : Nat} (same : left.outline = right.outline)
    (fits : left.Fits maxPasses levels) : right.Fits maxPasses levels := by
  induction levels generalizing left right with
  | zero => exact fits.elim
  | succ levels inductionHypothesis =>
    obtain ⟨⟨edges, longest, room⟩, inside⟩ := fits
    refine ⟨⟨edges, longest.of_outline_eq same, room⟩, fun id node body found isChip => ?_⟩
    obtain ⟨other, foundLeft, outlines⟩ := counterpart_of_viewed_eq same.symm found
    obtain ⟨otherBody, otherChip, inner⟩ := Node.chip_of_outline_eq outlines isChip
    exact inductionHypothesis inner.symm (inside id other otherBody foundLeft otherChip)

/-- Circuits inside chips that fit within the levels left are settled as their basis determines.

Proof: by induction on the levels left. With none left, no circuit fits. -/
theorem determined_plainWithin (maxPasses levels : Nat) :
    Determined (Fits maxPasses levels) (plainWithin maxPasses levels) := by
  induction levels with
  | zero =>
    exact ⟨fun lasting => related_plainWithin lasting maxPasses 0, Fits.of_outline_eq,
      fun fits _ => fits.elim⟩
  | succ levels inductionHypothesis =>
    refine ⟨fun lasting => related_plainWithin lasting maxPasses (levels + 1), Fits.of_outline_eq, ?_⟩
    intro left right fits same
    have basisQuieted (circuit : Circuit) : circuit.quieted.basis = circuit.basis :=
      (related_quieted Node.lasting_basis circuit).viewed_eq fun _ _ kept => kept
    have poised (circuit : Circuit) (fits : circuit.Fits maxPasses (levels + 1)) :
        circuit.quieted.Poised (Fits maxPasses levels) (plainWithin maxPasses levels) true := by
      have quietedFits := fits.of_outline_eq (outline_of_basis_eq (basisQuieted circuit).symm)
      refine .of_quieted (fun id node found => ?_) quietedFits.2
      obtain ⟨original, _, rfl⟩ :=
        Option.map_eq_some_iff.mp ((Arena.get?_map circuit.nodes Node.quieted id).symm.trans found)
      exact ⟨original, rfl⟩
    have sameQuieted : left.quieted.basis = right.quieted.basis := by
      rw [basisQuieted, basisQuieted, same]
    have fitsToo := fits.of_outline_eq (outline_of_basis_eq same)
    obtain ⟨⟨edges, longest, room⟩, _⟩ :=
      fits.of_outline_eq (outline_of_basis_eq (basisQuieted left).symm)
    exact observed_plainSettle_congr inductionHypothesis sameQuieted (poised left fits)
      (poised right fitsToo) longest room

/-- A circuit fits if no path leads deeper than the levels given and there is room for a longest chain
in every circuit inside.

Proof: by induction on the levels. -/
theorem fits_of_nesting {levels : Nat}
    (nesting : ∀ path inner, circuit.inside? path = some inner → path.length < levels)
    (room : ∀ inner, circuit.Contains inner → ∃ edges, inner.LongestChain edges ∧ edges + 2 ≤ maxPasses) :
    circuit.Fits maxPasses levels := by
  induction levels generalizing circuit with
  | zero => exact absurd (nesting [] circuit (by rw [inside?])) (Nat.not_lt_zero _)
  | succ levels inductionHypothesis =>
    refine ⟨room circuit (.refl circuit), fun id node body found isChip => ?_⟩
    refine inductionHypothesis (fun path inner leads => ?_)
      fun inner contained => room inner (contained.inside found isChip)
    have shallow := nesting (id :: path) inner (inside?_cons_iff.mpr ⟨node, body, found, isChip, leads⟩)
    rw [List.length_cons] at shallow
    omega

/-- No running oscillator of the level has counted up to the largest number. -/
def Advances (circuit : Circuit) : Prop :=
  ∀ id node oscillator, circuit.node? id = some node → node.part = .clock oscillator →
    oscillator.running = true → oscillator.tick + 1 < wordLimit

/-- A tick begins without a fault where every running oscillator can count on. -/
theorem Advances.faultless (advances : circuit.Advances) (interval : Nat) :
    (circuit.beginTick interval).2 = none := by
  refine beginTick_none_iff.mpr fun id node found => ?_
  have canCount := advances id node
  obtain ⟨label, position, part, inputs, outputs⟩ := node
  cases part with
  | clock oscillator =>
    have below := canCount oscillator found rfl
    simp only [Node.begins, Node.beginTick, Oscillator.advance]
    cases running : oscillator.running with
    | false => rfl
    | true =>
      rw [if_neg (by simp), if_pos (below running)]
      rfl
  | _ => rfl

/-- A level that a tick has begun for is ready for the initial pass. -/
theorem Advances.poised (advances : circuit.Advances) {interval levels : Nat}
    (fits : (circuit.beginTick interval).1.Fits maxPasses (levels + 1)) :
    (circuit.beginTick interval).1.Poised (Fits maxPasses levels) inner true := by
  have faultless := advances.faultless interval
  refine .of_quieted (fun id node found => ?_) fits.2
  rw [beginTick_exact faultless] at found
  obtain ⟨original, here, rfl⟩ := Option.map_eq_some_iff.mp
    ((Arena.get?_map circuit.nodes (Node.begun interval) id).symm.trans found)
  exact Node.exists_quieted_of_begins (beginTick_none_iff.mp faultless id original here)

/-- The beginning of a tick keeps the outline. -/
theorem Advances.outline_beginTick (advances : circuit.Advances) (interval : Nat) :
    (circuit.beginTick interval).1.outline = circuit.outline := by
  let limits : Limits := ⟨0, 0, interval⟩
  have faultless : (circuit.started limits .top).2 = none := advances.faultless interval
  have related : Related (Node.Retains fun _ => []) circuit (circuit.started limits .top).1 :=
    related_started faultless
  exact related.outline_eq

/-- A coherent circuit in which a tick begins without a fault is evaluated as it is settled plainly. -/
theorem Coherent.evaluate_top (coherent : circuit.Coherent) (advances : circuit.Advances)
    (limits : Limits) :
    ∃ cache, circuit.evaluate limits .top .empty =
      ((circuit.beginTick limits.interval).1.plainSettle
          (Node.plainStep (plainWithin limits.maxPasses limits.maxDepth)) limits.maxPasses, cache,
        .ok ((circuit.beginTick limits.interval).1.plainReport
          (Node.plainStep (plainWithin limits.maxPasses limits.maxDepth)) limits.maxPasses)) := by
  obtain ⟨table, faithful⟩ := coherent.faithful
  obtain ⟨cache, evaluates, _⟩ := Circuit.evaluate_top faithful (NetlistCache.knows_empty table)
    (advances.faultless limits.interval)
  exact ⟨cache, evaluates⟩

/-- A coherent circuit that nests no deeper than allowed and is acyclic at every depth, where the passes
allowed are two more than a longest chain has edges on every level, is evaluated without reaching a
limit, in no more passes than a longest chain of the top level has edges, and two. What is observed
afterwards, at every depth, depends only on what the tick starts from once its oscillators advanced: any
coherent circuit with the same basis then is evaluated to a circuit that is observed alike, whatever
else the two hold.

Proof: plain settling of the circuits inside chips is determined by their basis, by induction on the
levels; the top level is settled around it. -/
theorem evaluate_determined {limits : Limits} (coherent : circuit.Coherent)
    (nesting : ∀ path inner, circuit.inside? path = some inner → path.length ≤ limits.maxDepth)
    (advances : circuit.Advances) (acyclic : ∀ inner, circuit.Contains inner → inner.Acyclic)
    (room : ∀ inner edges, circuit.Contains inner → inner.LongestChain edges →
      edges + 2 ≤ limits.maxPasses) :
    ∃ final cache report edges,
      circuit.evaluate limits .top .empty = (final, cache, .ok report) ∧ report.capped = false ∧
        circuit.LongestChain edges ∧ report.passes ≤ edges + 2 ∧
        ∀ other : Circuit, other.Coherent → other.Advances →
          (circuit.beginTick limits.interval).1.basis = (other.beginTick limits.interval).1.basis →
          ∃ otherFinal otherCache otherReport,
            other.evaluate limits .top .empty = (otherFinal, otherCache, .ok otherReport) ∧
              otherFinal.observed = final.observed := by
  have determined := determined_plainWithin limits.maxPasses limits.maxDepth
  have fits : circuit.Fits limits.maxPasses (limits.maxDepth + 1) := by
    refine fits_of_nesting (fun path inner leads => Nat.lt_succ_of_le (nesting path inner leads)) ?_
    intro inner contained
    obtain ⟨edges, longest⟩ := (acyclic inner contained).exists_longestChain
    exact ⟨edges, longest, room inner edges contained longest⟩
  have outline := advances.outline_beginTick limits.interval
  have begunFits := fits.of_outline_eq outline.symm
  have poised : (circuit.beginTick limits.interval).1.Poised
      (Fits limits.maxPasses limits.maxDepth) (plainWithin limits.maxPasses limits.maxDepth) true :=
    advances.poised begunFits
  obtain ⟨edges, longest, enough⟩ := begunFits.1
  obtain ⟨uncapped, passes, _⟩ := plainReport_ends_quietly determined poised longest enough
  obtain ⟨cache, evaluates⟩ := coherent.evaluate_top advances limits
  refine ⟨_, cache, _, edges, evaluates, uncapped, longest.of_outline_eq outline, passes, ?_⟩
  intro other otherCoherent otherAdvances same
  obtain ⟨otherCache, otherEvaluates⟩ := otherCoherent.evaluate_top otherAdvances limits
  have otherFits := begunFits.of_outline_eq (outline_of_basis_eq same)
  exact ⟨_, otherCache, _, otherEvaluates,
    (observed_plainSettle_congr determined same poised (otherAdvances.poised otherFits) longest
      enough).symm⟩

/-- A pin, an inverter and a pin. -/
def inverter : Circuit :=
  ⟨⟨[some (.ofPart (.inputPin .one (.bit true))), some (.ofPart (.gate .not)),
      some (.ofPart (.outputPin .one (.bit false)))]⟩,
    [⟨⟨0, "out"⟩, ⟨1, "in"⟩⟩, ⟨⟨1, "out"⟩, ⟨2, "in"⟩⟩], 1⟩

/-- A switch and a light with an inverter in a chip between them. -/
def chippedLamp (lit : Bool) : Circuit :=
  ⟨⟨[some (.ofPart (.switch true)),
      some (.ofPart (.chip
        ⟨"NOT", [.ofBit "in0" "in"], [.ofBit "out0" "out"], inverter, none, .empty⟩)),
      some (.ofPart (.light lit))]⟩,
    [⟨⟨0, "out"⟩, ⟨1, "in0"⟩⟩, ⟨⟨1, "out0"⟩, ⟨2, "in"⟩⟩], 2⟩

/-- The chipped lamp contains itself and the inverter. -/
theorem inside?_chippedLamp {lit : Bool} {path : List NodeId} {inner : Circuit}
    (leads : (chippedLamp lit).inside? path = some inner) :
    path.length ≤ 1 ∧ (inner = chippedLamp lit ∨ inner = inverter) := by
  cases path with
  | nil =>
    rw [inside?] at leads
    exact ⟨Nat.zero_le _, .inl (Option.some.inj leads).symm⟩
  | cons id rest =>
    have chips : ∀ node ∈ (chippedLamp lit).nodes.values, ∀ body, node.part = .chip body →
        inverter = body.circuit := by
      simp [chippedLamp, Arena.values, Node.ofPart]
    have flat : ∀ node ∈ inverter.nodes.values, ∀ body, node.part ≠ .chip body := by
      simp [inverter, Arena.values, Node.ofPart]
    obtain ⟨node, body, found, part, deeper⟩ := inside?_cons_iff.mp leads
    rw [← chips node (Arena.mem_values.mpr ⟨id, found⟩) body part] at deeper
    cases rest with
    | nil =>
      rw [inside?] at deeper
      exact ⟨Nat.le_refl _, .inr (Option.some.inj deeper).symm⟩
    | cons next rest =>
      obtain ⟨inside, insideBody, foundInside, insidePart, _⟩ := inside?_cons_iff.mp deeper
      exact absurd insidePart (flat inside (Arena.mem_values.mpr ⟨next, foundInside⟩) insideBody)

/-- The chipped lamp is coherent. -/
theorem coherent_chippedLamp (lit : Bool) : (chippedLamp lit).Coherent := by
  have copies : ∀ node ∈ (chippedLamp lit).nodes.values, ∀ body, node.part = .chip body →
      body.circuit = inverter ∧ body.bindings = none := by
    simp [chippedLamp, Arena.values, Node.ofPart]
  have flat : ∀ node ∈ inverter.nodes.values, ∀ body, node.part ≠ .chip body := by
    simp [inverter, Arena.values, Node.ofPart]
  exact .of_copies copies flat (by simp [chippedLamp, inverter])

/-- Two nets in a row make no cycle. -/
theorem acyclic_of_two_nets {first second third fourth : String}
    (nets : (Netlist.build circuit).nets =
      [⟨0, 1, [⟨0, first⟩], [⟨1, second⟩], []⟩, ⟨1, 1, [⟨1, third⟩], [⟨2, fourth⟩], []⟩]) :
    circuit.Acyclic := by
  refine .of_rising fun left right ⟨net, member, output, input, source, sink, _⟩ => ?_
  rw [nets] at member
  rcases List.mem_pair.mp member with rfl | rfl
  all_goals
    simp only [List.mem_singleton, Terminal.mk.injEq] at source sink
    rw [source.1, sink.1]
    decide

/-- The chipped lamp is acyclic, and so is the inverter in it. -/
theorem acyclic_chippedLamp {lit : Bool} {inner : Circuit}
    (contained : (chippedLamp lit).Contains inner) : inner.Acyclic := by
  obtain ⟨path, leads⟩ := contained
  rcases (inside?_chippedLamp leads).2 with rfl | rfl
  · have nets : (Netlist.build (chippedLamp lit)).nets =
        [⟨0, 1, [⟨0, "out"⟩], [⟨1, "in0"⟩], []⟩, ⟨1, 1, [⟨1, "out0"⟩], [⟨2, "in"⟩], []⟩] := by
      cases lit <;> decide +kernel
    exact acyclic_of_two_nets nets
  · have nets : (Netlist.build inverter).nets =
        [⟨0, 1, [⟨0, "out"⟩], [⟨1, "in"⟩], []⟩, ⟨1, 1, [⟨1, "out"⟩], [⟨2, "in"⟩], []⟩] := by
      decide +kernel
    exact acyclic_of_two_nets nets

/-- The chipped lamp settles, whether its light was lit or not, to what is observed alike. -/
theorem chippedLamp_determined : ∃ final cache report edges,
    (chippedLamp true).evaluate .standard .top .empty = (final, cache, .ok report) ∧
      report.capped = false ∧ (chippedLamp true).LongestChain edges ∧ report.passes ≤ edges + 2 ∧
      ∃ otherFinal otherCache otherReport,
        (chippedLamp false).evaluate .standard .top .empty =
            (otherFinal, otherCache, .ok otherReport) ∧
          otherFinal.observed = final.observed := by
  have noClock (lit : Bool) : (chippedLamp lit).Advances := by
    have none : ∀ node ∈ (chippedLamp lit).nodes.values, ∀ oscillator,
        node.part ≠ .clock oscillator := by
      simp [chippedLamp, Arena.values, Node.ofPart]
    intro id node oscillator found isClock
    exact absurd isClock (none node (Arena.mem_values.mpr ⟨id, found⟩) oscillator)
  have room (inner : Circuit) (edges : Nat) (contained : (chippedLamp true).Contains inner)
      (longest : inner.LongestChain edges) : edges + 2 ≤ Limits.standard.maxPasses := by
    have bounded := longest.edges_le (acyclic_chippedLamp contained)
    have slots : inner.nodes.slots.length = 3 := by
      obtain ⟨path, leads⟩ := contained
      rcases (inside?_chippedLamp leads).2 with rfl | rfl <;> rfl
    rw [slots] at bounded
    change edges + 2 ≤ 10
    omega
  obtain ⟨final, cache, report, edges, evaluates, uncapped, longest, passes, alike⟩ :=
    evaluate_determined (coherent_chippedLamp true)
      (fun path inner leads => (inside?_chippedLamp leads).1.trans (by decide)) (noClock true)
      (fun inner contained => acyclic_chippedLamp contained) room
  have same : ((chippedLamp true).beginTick 50).1.basis = ((chippedLamp false).beginTick 50).1.basis := rfl
  exact ⟨final, cache, report, edges, evaluates, uncapped, longest, passes,
    alike (chippedLamp false) (coherent_chippedLamp false) (noClock false) same⟩

end Circuit

end Breadboard
