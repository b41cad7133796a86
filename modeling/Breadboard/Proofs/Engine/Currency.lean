import Breadboard.Proofs.Circuit.Blueprint
import Breadboard.Proofs.Engine.Coherence
import Breadboard.Proofs.Engine.Invariant

/-!
# Evaluations keep kept netlists right

An evaluation changes no blueprint, whatever caches tell it and even if a fault ends it. So where a
table tells the nets of a circuit, on every level, and agrees with the netlists that are kept, both are
still so after an evaluation, and at every moment of it: nothing would be different if every netlist
were built anew when it is asked for.
-/

namespace Breadboard

namespace Node

/-- Quieting a node leaves its blueprint. -/
@[simp] theorem blueprint_quieted (node : Node Circuit) : node.quieted.blueprint = node.blueprint := by
  obtain ⟨label, position, part, inputs, outputs⟩ := node
  cases part <;> exact blueprint_congr rfl rfl rfl

/-- Whether it advances an oscillator or not, the beginning of a tick leaves the blueprint of a
node. -/
@[simp] theorem blueprint_begun (interval : Nat) (node : Node Circuit) :
    (node.begun interval).blueprint = node.blueprint := by
  obtain ⟨label, position, part, inputs, outputs⟩ := node
  cases part with
  | clock oscillator =>
    simp only [begun, beginTick]
    cases oscillator.advance interval <;> rfl
  | _ => exact blueprint_quieted _

/-- A step leaves the blueprint of a primitive component. -/
@[simp] theorem blueprint_step (node : Node Circuit) : node.step.blueprint = node.blueprint := by
  obtain ⟨label, position, part, inputs, outputs⟩ := node
  cases part with
  | resize direction => cases direction <;> rfl
  | _ => rfl

/-- Driving a node leaves its blueprint. -/
@[simp] theorem blueprint_driveFrom (signal : Option Signal) (node : Node Circuit) :
    (node.driveFrom signal).blueprint = node.blueprint := by
  obtain ⟨label, position, part, inputs, outputs⟩ := node
  cases part <;> rfl

/-- The blueprint is the same afterwards. -/
def KeepsBlueprint (before after : Node Circuit) : Prop :=
  after.blueprint = before.blueprint

theorem KeepsBlueprint.refl (node : Node Circuit) : node.KeepsBlueprint node :=
  rfl

theorem KeepsBlueprint.trans {first second third : Node Circuit} (one : first.KeepsBlueprint second)
    (two : second.KeepsBlueprint third) : first.KeepsBlueprint third :=
  Eq.trans two one

end Node

namespace Circuit

variable {before after : Circuit}

/-- Circuits whose nodes keep their blueprints have one blueprint. -/
theorem Related.blueprint_eq (related : Related Node.KeepsBlueprint before after) :
    after.blueprint = before.blueprint :=
  related.viewed_eq fun _ _ same => same

/-- Changing a node without changing its blueprint leaves the blueprint of the circuit. -/
theorem blueprint_modifyNode (circuit : Circuit) (id : NodeId) (change : Node Circuit → Node Circuit)
    (kept : ∀ node, (change node).blueprint = node.blueprint) :
    (circuit.modifyNode id change).blueprint = circuit.blueprint :=
  (related_modifyNode Node.KeepsBlueprint.refl circuit id change fun node _ => kept node).blueprint_eq

/-- Driving the pins of a chip leaves the blueprint of its circuit. -/
theorem blueprint_drivePins (chip : Chip Circuit) (inputs : PortMap) (pins : List NodeId) :
    (chip.drivePins inputs pins).blueprint = chip.circuit.blueprint :=
  (related_drivePins Node.KeepsBlueprint.refl Node.KeepsBlueprint.trans Node.blueprint_driveFrom chip
    inputs pins).blueprint_eq

end Circuit

/-- A chip around a circuit with the blueprint of its driven circuit has the blueprint that it had. -/
theorem Node.blueprint_holding {node : Node Circuit} {body : Chip Circuit}
    (isChip : node.part = .chip body) (inputs outputs : PortMap) {circuit : Circuit}
    (same : circuit.blueprint = (body.drivenAsBound inputs).blueprint) :
    ({ node with part := .chip (body.holding inputs circuit), outputs } : Node Circuit).blueprint =
      node.blueprint :=
  blueprint_of_chip isChip (same.trans (Circuit.blueprint_drivePins ..)) _ _ _

/-- An evaluation keeps blueprints, and with them what they tell of a circuit and of those inside its
chips, as long as the cache may be asked about such circuits. -/
theorem Invariant.of_blueprint {sound inside : Circuit → Prop} {known : NetlistCache → Prop}
    (told : ∀ {left right : Circuit}, left.blueprint = right.blueprint → sound left → sound right)
    (toldInside : ∀ {left right : Circuit}, left.blueprint = right.blueprint → inside left →
      inside right)
    (inner : ∀ {circuit}, sound circuit → ∀ {id node body}, circuit.node? id = some node →
      node.part = .chip body → inside body.circuit)
    (asked : ∀ {circuit cache}, sound circuit → known cache → known (cache.getOrBuild circuit).2) :
    Invariant Node.KeepsBlueprint sound inside known where
  refl := Node.KeepsBlueprint.refl
  trans := Node.KeepsBlueprint.trans
  staged _ _ := Node.blueprint_congr rfl rfl rfl
  quieted := Node.blueprint_quieted
  begun := Node.blueprint_begun
  shown _ _ := Node.blueprint_congr rfl rfl rfl
  stepped node _ := Node.blueprint_step node
  enclosed _ _ isChip _ _ related := Node.blueprint_holding isChip _ _ related.blueprint_eq
  abandoned _ _ isChip _ _ related := Node.blueprint_holding isChip _ _ related.blueprint_eq
  driven _ _ := toldInside (Circuit.blueprint_drivePins ..).symm
  lasts related := told related.blueprint_eq.symm
  inner := inner
  asked := asked

namespace NetlistCache

/-- What is kept after asking for a circuit was kept before or is the netlist of the circuit. -/
theorem netlist_of_mem_getOrBuild {cache : NetlistCache} {circuit : Circuit} {entry : CachedNetlist}
    (member : entry ∈ (cache.getOrBuild circuit).2.entries) :
    (∃ kept ∈ cache.entries, kept.netlist = entry.netlist) ∨ entry.netlist = Netlist.build circuit := by
  unfold getOrBuild at member
  split at member
  · obtain ⟨kept, isKept, rfl⟩ := List.mem_map.mp member
    refine .inl ⟨kept, isKept, ?_⟩
    split <;> rfl
  · rcases List.mem_append.mp member with before | new
    · exact .inl ⟨entry, before, rfl⟩
    · rw [List.mem_singleton] at new
      subst new
      exact .inr rfl

/-- All netlists that are kept are of revisions that were given out before another one. -/
def StampedBefore (fresh : Revision) (cache : NetlistCache) : Prop :=
  ∀ entry ∈ cache.entries, entry.netlist.revision < fresh

/-- Asked about a circuit that was stamped before a revision, a cache keeps nothing later. -/
theorem StampedBefore.getOrBuild {fresh : Revision} {cache : NetlistCache}
    (stamped : cache.StampedBefore fresh) {circuit : Circuit} (before : circuit.revision < fresh) :
    (cache.getOrBuild circuit).2.StampedBefore fresh := by
  intro entry member
  rcases netlist_of_mem_getOrBuild member with ⟨kept, isKept, same⟩ | same
  · rw [← same]
    exact stamped kept isKept
  · rw [same]
    exact before

end NetlistCache

namespace Circuit

/-- Settles a level with a netlist that is built anew. The cache is asked all the same. -/
def settleAnew (settleInner : InnerSettling) (maxPasses : Nat) (circuit : Circuit)
    (cache : NetlistCache) : Circuit × NetlistCache × Except Fault Settling :=
  let passOf (initial : Bool) := pass (Node.stepIn settleInner initial) (Netlist.build circuit)
  passes passOf maxPasses .idle circuit (cache.getOrBuild circuit).2

/-- Settles the circuit inside a chip with netlists that are built anew. -/
def settleWithinAnew (maxPasses : Nat) (below : Except Fault Settling) : Nat → InnerSettling
  | 0, circuit, cache => (circuit, cache, below)
  | levels + 1, circuit, cache =>
    circuit.quieted.settleAnew (settleWithinAnew maxPasses below levels) maxPasses cache

/-- Evaluates a circuit for one tick with netlists that are built anew. -/
def evaluateAnew (limits : Limits) (context : EvalContext) (circuit : Circuit)
    (cache : NetlistCache) : Circuit × NetlistCache × Except Fault Settling :=
  match limits.maxDepth + 1 - context.depth with
  | 0 => (circuit, cache, .ok .tooDeep)
  | levels + 1 =>
    let (begun, fault) :=
      if context.advance then circuit.beginTick limits.interval else (circuit.quieted, none)
    match fault with
    | some fault => (begun, cache, .error fault)
    | none =>
      let settleInner := settleWithinAnew limits.maxPasses (context.below limits) levels
      begun.settleAnew settleInner limits.maxPasses cache

variable {table : Revision → List Net}

/-- A table that tells the nets of circuits and agrees with a cache is what an evaluation keeps, and
so is every blueprint. -/
theorem invariant_tabled (table : Revision → List Net) :
    Invariant Node.KeepsBlueprint (Tabled table) (Tabled table) (NetlistCache.Knows table) :=
  .of_blueprint Tabled.of_blueprint_eq Tabled.of_blueprint_eq (fun tabled _ _ _ => tabled.inside)
    fun tabled knows => (NetlistCache.getOrBuild_exact knows (tabled _ (.refl _))).2

/-- The circuit inside a chip is settled alike with kept netlists and with new ones, if a table tells
its nets and agrees with the cache.

Proof: by induction on the levels left. The cache answers with the nets that are built. -/
theorem settleWithinAnew_abides (table : Revision → List Net) (maxPasses : Nat)
    (below : Except Fault Settling) (levels : Nat) :
    (settleWithin maxPasses below levels).Abide Node.KeepsBlueprint (Tabled table)
      (NetlistCache.Knows table) (settleWithinAnew maxPasses below levels) := by
  have invariant := invariant_tabled table
  induction levels with
  | zero => exact fun circuit cache _ knows => ⟨rfl, .refl invariant.refl circuit, knows⟩
  | succ levels inductionHypothesis =>
    intro circuit cache tabled knows
    have quieted := invariant.related_quieted circuit
    have tabledQuieted := invariant.lasts quieted tabled
    obtain ⟨nets, knowsAfter⟩ := NetlistCache.getOrBuild_exact knows (tabledQuieted _ (.refl _))
    obtain ⟨same, related, knowsLast⟩ := invariant.passesOver inductionHypothesis nets.symm maxPasses
      tabledQuieted knowsAfter
    exact ⟨same, quieted.trans invariant.trans related, knowsLast⟩

/-- An evaluation is what it is with new netlists throughout, if a table tells the nets of the circuit
and agrees with the cache. -/
theorem evaluateAnew_eq (limits : Limits) (context : EvalContext) {circuit : Circuit}
    (tabled : circuit.Tabled table) {cache : NetlistCache} (knows : cache.Knows table) :
    circuit.evaluateAnew limits context cache = circuit.evaluate limits context cache := by
  have invariant := invariant_tabled table
  have started : Related Node.KeepsBlueprint circuit
      (if context.advance then circuit.beginTick limits.interval else (circuit.quieted, none)).1 :=
    invariant.related_started limits context circuit
  unfold evaluateAnew evaluate
  revert started
  rcases (if context.advance then circuit.beginTick limits.interval else (circuit.quieted, none)) with
    ⟨begun, fault⟩
  intro started
  cases limits.maxDepth + 1 - context.depth with
  | zero => rfl
  | succ levels =>
    cases fault with
    | some fault => rfl
    | none =>
      have tabledBegun := invariant.lasts started tabled
      obtain ⟨nets, knowsAfter⟩ := NetlistCache.getOrBuild_exact knows (tabledBegun _ (.refl _))
      exact (invariant.passesOver
        (settleWithinAnew_abides table limits.maxPasses (context.below limits) levels) nets.symm
        limits.maxPasses tabledBegun knowsAfter).1

end Circuit

end Breadboard
