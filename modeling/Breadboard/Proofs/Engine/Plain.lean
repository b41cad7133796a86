import Breadboard.Proofs.Engine.Staging
import Mathlib.Tactic.SplitIfs

/-!
# Evaluation without caches and faults

An evaluation that keeps no netlists, trusts no derived pins and meets no fault is told node by node:
in a pass every node receives what arrives at its ports, is stepped, and shows the signal of its net
if it is a joint. The circuits that a level goes through are a sequence, and when passes end depends
only on which passes of that sequence moved an output.

What such an evaluation keeps of the nodes is stated once, for any relation that its single changes
keep.
-/

namespace Breadboard

namespace Chip

/-- The inputs that a chip declares. -/
def seen (chip : Chip Circuit) (inputs : PortMap) : PortMap :=
  inputs.filter fun port => chip.inputs.any (·.id == port)

/-- The circuit of the chip with its pins driven. -/
def driven (chip : Chip Circuit) (inputs : PortMap) : Circuit :=
  chip.drivePins inputs (computeBindings chip.circuit).inputs

/-- The chip around a circuit that its pins were driven for. -/
def around (chip : Chip Circuit) (inputs : PortMap) (circuit : Circuit) : Chip Circuit :=
  { chip with
    bindings := some (computeBindings chip.circuit)
    lastInputs := chip.seen inputs
    circuit }

/-- The circuit of the chip is settled in a pass, and not only driven. -/
def settles (initial : Bool) (chip : Chip Circuit) (inputs : PortMap) : Bool :=
  (computeBindings chip.circuit).clocked || chip.seen inputs != chip.lastInputs || initial

/-- The chip after a pass in which its circuit is settled as given. -/
def reached (inner : Circuit → Circuit) (initial : Bool) (chip : Chip Circuit) (inputs : PortMap) :
    Chip Circuit :=
  chip.around inputs
    (if chip.settles initial inputs then inner (chip.driven inputs) else chip.driven inputs)

end Chip

namespace Node

/-- The node with a chip in the place of its own, whose pins it copies. -/
def enclosing (node : Node Circuit) (outputs : List NodeId) (chip : Chip Circuit) : Node Circuit :=
  { node with part := .chip chip, outputs := chip.copyOutputs outputs node.outputs }

/-- The node after a pass in which circuits inside chips are settled as given. -/
def plainStep (inner : Circuit → Circuit) (initial : Bool) (node : Node Circuit) : Node Circuit :=
  match node.part with
  | .chip body =>
    node.enclosing (Chip.computeBindings body.circuit).outputs
      (body.reached inner initial node.inputs)
  | _ => node.step

end Node

namespace Circuit

/-- The circuit after a pass. -/
def plainPass (step : Node Circuit → Node Circuit) (circuit : Circuit) : Circuit :=
  { circuit with
    nodes := ⟨circuit.nodes.slots.mapIdx fun id slot => slot.map fun node =>
      (step (node.staged (circuit.arriving id))).showing (circuit.jointSignal? id)⟩ }

/-- A pass changes some output. -/
def passMoves (step : Node Circuit → Node Circuit) (circuit : Circuit) : Bool :=
  circuit.nodes.items.any fun item =>
    (step (item.2.staged (circuit.arriving item.1))).outputs.differsFrom item.2.outputs

/-- The circuit after a number of passes. -/
def afterPasses (step : Bool → Node Circuit → Node Circuit) (circuit : Circuit) : Nat → Circuit
  | 0 => circuit
  | passes + 1 => plainPass (step (passes == 0)) (circuit.afterPasses step passes)

/-- The pass after a number of passes changes some output. -/
def moves (step : Bool → Node Circuit → Node Circuit) (circuit : Circuit) (passes : Nat) : Bool :=
  passMoves (step (passes == 0)) (circuit.afterPasses step passes)

end Circuit

namespace Settling

/-- What the passes that are left make of a report, by which passes change some output. -/
def follow (moves : Nat → Bool) : Nat → Settling → Settling
  | 0, report => report
  | left + 1, report =>
    let moved := moves report.passes
    let next := { report with passes := report.passes + 1, changed := report.changed || moved }
    if !(report.passes == 0) && !moved then next
    else follow moves left { next with capped := moved && left == 0 }

/-- The report of a level, by which passes change some output. -/
def ofMoves (moves : Nat → Bool) (maxPasses : Nat) : Settling :=
  follow moves maxPasses .idle

/-- What a report tells of the passes made so far. -/
structure Accounts (moves : Nat → Bool) (report : Settling) : Prop where
  /-- Every pass between the initial one and the last one changed some output. -/
  moved : ∀ pass, 0 < pass → pass + 1 < report.passes → moves pass = true
  changed : report.changed = true ↔ ∃ pass < report.passes, moves pass = true
  depthLimited : report.depthLimited = false

/-- What a report tells once the passes have ended. -/
structure Concludes (moves : Nat → Bool) (maxPasses : Nat) (report : Settling) : Prop where
  accounts : report.Accounts moves
  passes_le : report.passes ≤ maxPasses
  /-- Passes end below the limit only with a quiet pass that is not the initial one. -/
  quiet : report.passes < maxPasses → 2 ≤ report.passes ∧ moves (report.passes - 1) = false
  /-- The limit is noted exactly if the last pass that it allows changed some output. -/
  capped : report.capped = true ↔
    report.passes = maxPasses ∧ 0 < maxPasses ∧ moves (report.passes - 1) = true

/-- A pass more keeps a report true, if all passes so far but the initial one changed some output. -/
theorem Accounts.next {moves : Nat → Bool} {report : Settling} (accounts : report.Accounts moves)
    (going : ∀ pass, 0 < pass → pass < report.passes → moves pass = true) (capped : Bool) :
    Accounts moves ⟨report.changed || moves report.passes, report.passes + 1, capped,
      report.depthLimited⟩ := by
  constructor
  · intro pass positive earlier
    exact going pass positive (Nat.lt_of_succ_lt_succ earlier)
  · simp only [Bool.or_eq_true, accounts.changed]
    constructor
    · rintro (⟨pass, earlier, here⟩ | here)
      · exact ⟨pass, Nat.lt_succ_of_lt earlier, here⟩
      · exact ⟨report.passes, Nat.lt_succ_self _, here⟩
    · rintro ⟨pass, earlier, here⟩
      rcases Nat.lt_succ_iff_lt_or_eq.mp earlier with before | rfl
      · exact .inl ⟨pass, before, here⟩
      · exact .inr here
  · exact accounts.depthLimited

/-- The passes that are left keep a report true and conclude it.

Proof: by induction on the passes left. A pass that is followed by another one changed some output or
is the initial one. -/
theorem follow_concludes (moves : Nat → Bool) (left : Nat) (report : Settling)
    (accounts : report.Accounts moves)
    (going : ∀ pass, 0 < pass → pass < report.passes → moves pass = true)
    (capped : report.capped = true ↔
      left = 0 ∧ 0 < report.passes ∧ moves (report.passes - 1) = true) :
    (follow moves left report).Concludes moves (report.passes + left) := by
  induction left generalizing report with
  | zero =>
    refine ⟨accounts, Nat.le_refl _, fun less => absurd less (Nat.lt_irrefl _), ?_⟩
    simp only [follow, capped, Nat.add_zero, true_and]
  | succ left inductionHypothesis =>
    have uncapped : report.capped = false := by
      rw [Bool.eq_false_iff, Ne, capped]
      rintro ⟨exhausted, _⟩
      exact Nat.succ_ne_zero left exhausted
    simp only [follow]
    by_cases ends : (!(report.passes == 0) && !moves report.passes) = true
    · rw [if_pos ends]
      simp only [Bool.and_eq_true, Bool.not_eq_true', beq_eq_false_iff_ne] at ends
      obtain ⟨notInitial, quiet⟩ := ends
      constructor
      · exact accounts.next going _
      · simp only
        omega
      · intro _
        simp only [Nat.add_sub_cancel]
        exact ⟨by omega, quiet⟩
      · simp only [uncapped, Nat.add_sub_cancel, quiet]
        simp
    · rw [if_neg ends]
      have goesOn : report.passes = 0 ∨ moves report.passes = true := by
        simp only [Bool.and_eq_true, Bool.not_eq_true', beq_eq_false_iff_ne, not_and_or, Ne,
          not_not, Bool.not_eq_false] at ends
        exact ends
      have total : report.passes + (left + 1) = report.passes + 1 + left := by omega
      rw [total]
      refine inductionHypothesis ⟨_, _, _, _⟩ (accounts.next going _) ?_ ?_
      · intro pass positive earlier
        rcases Nat.lt_succ_iff_lt_or_eq.mp earlier with before | rfl
        · exact going pass positive before
        · exact goesOn.resolve_left (by omega)
      · simp only [Bool.and_eq_true, beq_iff_eq, Nat.add_sub_cancel]
        constructor
        · exact fun ⟨moved, exhausted⟩ => ⟨exhausted, by omega, moved⟩
        · exact fun ⟨exhausted, _, moved⟩ => ⟨moved, exhausted⟩

/-- The report of a level concludes the passes that its limit allows. -/
theorem ofMoves_concludes (moves : Nat → Bool) (maxPasses : Nat) :
    (ofMoves moves maxPasses).Concludes moves maxPasses := by
  have concluded := follow_concludes moves maxPasses .idle
    ⟨fun pass _ earlier => absurd earlier (Nat.not_lt_zero _), by simp [idle], rfl⟩
    (fun pass _ earlier => absurd earlier (Nat.not_lt_zero _)) (by simp [idle])
  have fresh : idle.passes = 0 := rfl
  rwa [fresh, Nat.zero_add] at concluded

variable {moves : Nat → Bool} {maxPasses : Nat}

/-- Where the limit is not noted, the last pass was quiet. -/
theorem quiet_of_uncapped (somePass : 1 ≤ maxPasses)
    (uncapped : (ofMoves moves maxPasses).capped = false) :
    ∃ last, (ofMoves moves maxPasses).passes = last + 1 ∧ moves last = false := by
  have concludes := ofMoves_concludes moves maxPasses
  generalize ofMoves moves maxPasses = report at concludes uncapped
  have quiet : 1 ≤ report.passes ∧ moves (report.passes - 1) = false := by
    rcases Nat.lt_or_eq_of_le concludes.passes_le with below | atLimit
    · obtain ⟨several, quiet⟩ := concludes.quiet below
      exact ⟨by omega, quiet⟩
    · refine ⟨by omega, Bool.eq_false_iff.mpr fun moved => ?_⟩
      rw [concludes.capped.mpr ⟨atLimit, somePass, moved⟩] at uncapped
      cases uncapped
  exact ⟨report.passes - 1, by omega, quiet.2⟩

/-- Where no output changed, the limit is not noted. -/
theorem uncapped_of_unchanged (unchanged : (ofMoves moves maxPasses).changed = false) :
    (ofMoves moves maxPasses).capped = false := by
  have concludes := ofMoves_concludes moves maxPasses
  rw [Bool.eq_false_iff] at unchanged ⊢
  intro capped
  obtain ⟨atLimit, somePass, moved⟩ := concludes.capped.mp capped
  exact unchanged (concludes.accounts.changed.mpr ⟨_, by omega, moved⟩)

/-- Where the limit is noted, all passes were made, the last of them changed some output, and with one
pass fewer allowed all of these would have been made. -/
theorem moved_of_capped (capped : (ofMoves moves maxPasses).capped = true) :
    ∃ last, maxPasses = last + 1 ∧ (ofMoves moves maxPasses).passes = maxPasses ∧
      (ofMoves moves last).passes = last ∧ moves last = true := by
  have concludes := ofMoves_concludes moves maxPasses
  obtain ⟨atLimit, somePass, moved⟩ := concludes.capped.mp capped
  obtain ⟨last, isMore⟩ := Nat.exists_eq_add_of_le' somePass
  have fewer := ofMoves_concludes moves last
  refine ⟨last, isMore, atLimit, Nat.le_antisymm fewer.passes_le (Nat.le_of_not_lt fun below => ?_), ?_⟩
  · obtain ⟨several, quiet⟩ := fewer.quiet below
    rw [concludes.accounts.moved _ (by omega) (by omega)] at quiet
    cases quiet
  · rwa [atLimit, isMore, Nat.add_sub_cancel] at moved

end Settling

namespace Circuit

/-- The report of a level that is settled without caches and faults. -/
def plainReport (step : Bool → Node Circuit → Node Circuit) (maxPasses : Nat) (circuit : Circuit) :
    Settling :=
  .ofMoves (circuit.moves step) maxPasses

/-- A level settled without caches and faults. -/
def plainSettle (step : Bool → Node Circuit → Node Circuit) (maxPasses : Nat) (circuit : Circuit) :
    Circuit :=
  circuit.afterPasses step (circuit.plainReport step maxPasses).passes

/-- The circuit inside a chip settled without caches and faults, with so many levels left. -/
def plainWithin (maxPasses : Nat) : Nat → Circuit → Circuit
  | 0, circuit => circuit
  | levels + 1, circuit =>
    circuit.quieted.plainSettle (Node.plainStep (plainWithin maxPasses levels)) maxPasses

/-- A pass makes of every node what it makes of it alone, given what arrives at it. -/
theorem node?_plainPass (step : Node Circuit → Node Circuit) (circuit : Circuit) (id : NodeId) :
    (circuit.plainPass step).node? id = (circuit.node? id).map fun node =>
      (step (node.staged (circuit.arriving id))).showing (circuit.jointSignal? id) := by
  simp only [plainPass, node?, Arena.get?, List.getElem?_mapIdx]
  cases circuit.nodes.slots[id]? <;> rfl

/-- A pass keeps the frame. -/
theorem sameFrame_plainPass (step : Node Circuit → Node Circuit) (circuit : Circuit) :
    (circuit.plainPass step).SameFrame circuit :=
  ⟨rfl, rfl, by simp [plainPass]⟩

/-- A pass changes some output exactly if it changes an output of some node. -/
theorem passMoves_iff {step : Node Circuit → Node Circuit} {circuit : Circuit} :
    circuit.passMoves step = true ↔ ∃ id node, circuit.node? id = some node ∧
      (step (node.staged (circuit.arriving id))).outputs.differsFrom node.outputs = true := by
  simp only [passMoves, List.any_eq_true, Prod.exists, Arena.mem_items]
  rfl

end Circuit

end Breadboard
