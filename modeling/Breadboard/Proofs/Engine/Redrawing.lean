import Breadboard.Proofs.Engine.Mirroring

/-!
# Evaluation does not depend on how a circuit is drawn

A drawing of a circuit in another way mirrors it, without spare joints. Ticks leave the wires alone, so
circuits that mirror one another after ticks are still drawn from one another.
-/

namespace Breadboard

namespace Circuit

variable {table : Revision → List Net} {rename : NodeId → NodeId} {before after : Circuit}

/-- A drawing of a circuit in another way mirrors it. -/
theorem Redrawn.mirrors (redrawn : Redrawn rename before after) :
    Mirrors rename (fun _ => False) before after := by
  have mirrored {net drawn : Net} (redraws : net.Redraws rename drawn) :
      net.Mirrored rename (fun _ => False) drawn := by
    refine ⟨redraws.width, redraws.sources, redraws.sinks, fun id _ => ?_⟩
    rw [redraws.joints.mem_iff, List.mem_map_of_injective redrawn.injective]
  refine ⟨redrawn.injective, fun id node found => ⟨not_false, (redrawn.node? id).trans found⟩,
    fun id node found => .inl ?_, fun net member => ?_, fun drawn member => ?_⟩
  · by_contra unnamed
    push Not at unnamed
    have missing : after.node? id = none := by
      refine redrawn.vacant id fun original here => ?_
      exact unnamed original here (by rw [← redrawn.node?, here, found])
    rw [missing] at found
    cases found
  · obtain ⟨drawn, inAfter, redraws⟩ := redrawn.net_image member
    exact ⟨drawn, inAfter, mirrored redraws⟩
  · obtain ⟨net, inBefore, redraws⟩ := redrawn.net_origin member
    exact ⟨net, inBefore, mirrored redraws⟩

/-- Circuits that mirror one another without spare joints, on the wires of circuits of which one is drawn
from the other, are drawn from one another in the same way. -/
theorem Redrawn.changed (redrawn : Redrawn rename before after) {before' after' : Circuit}
    (mirrors : Mirrors rename (fun _ => False) before' after') (wires : before'.wires = before.wires)
    (wires' : after'.wires = after.wires) : Redrawn rename before' after' := by
  have origin {id : NodeId} {node : Node Circuit} (found : after'.node? id = some node) :
      ∃ original, rename original = id ∧ before'.node? original = some node :=
    (mirrors.origin id node found).resolve_right fun spare => spare.1
  refine ⟨redrawn.injective, fun id => Option.ext fun node => ?_, fun id unused => ?_, ?_⟩
  · refine ⟨fun found => ?_, fun found => (mirrors.image id node found).2⟩
    obtain ⟨original, here, foundBefore⟩ := origin found
    exact redrawn.injective here ▸ foundBefore
  · rw [Option.eq_none_iff_forall_ne_some]
    intro node found
    obtain ⟨original, here, _⟩ := origin found
    exact unused original here
  · rw [wires, wires']
    exact redrawn.wires

/-- A circuit and a drawing of it in another way, with a fresh revision, agree with one table. -/
theorem Redrawn.faithful (redrawn : Redrawn rename before after) (coherent : before.Coherent)
    (fresh : ∀ inner, before.Contains inner → inner.revision ≠ after.revision) :
    ∃ table, before.Faithful table ∧ after.Faithful table :=
  redrawn.mirrors.faithful coherent fresh

/-- Ticks keep the correspondence and the reports, as long as none of them meets a fault. -/
theorem play_redrawn {left right : Scheduler} (sameLimits : left.limits = right.limits)
    (leftActive : left.suspended = false) (rightActive : right.suspended = false)
    (leftKnows : left.cache.Knows table) (rightKnows : right.cache.Knows table)
    (redrawn : Redrawn rename before after) (beforeFaithful : before.Faithful table)
    (afterFaithful : after.Faithful table) (ticks : List Drives)
    (faultless : ∀ report ∈ (left.play before ticks).1, ∃ settling, report = .ok settling) :
    (right.play after (ticks.map (Drives.renumbered rename))).1 = (left.play before ticks).1 ∧
      Redrawn rename (left.play before ticks).2.2
        (right.play after (ticks.map (Drives.renumbered rename))).2.2 := by
  obtain ⟨reports, mirrors⟩ := play_mirrors sameLimits leftActive rightActive leftKnows rightKnows
    redrawn.mirrors beforeFaithful afterFaithful faultless
  have beforePlayed := related_play leftActive beforeFaithful leftKnows faultless
  have afterPlayed := related_play rightActive afterFaithful rightKnows (reports ▸ faultless)
  exact ⟨reports, redrawn.changed mirrors beforePlayed.frame.wires afterPlayed.frame.wires⟩

/-- Ticks do not depend on how a circuit is drawn. A coherent circuit and a drawing of it in another
way, with a fresh revision, report the same in every tick, whatever is driven before it, and are drawn
from one another in the same way afterwards: every node holds the same inputs, outputs, displays,
oscillator and chip. The circuit may have cycles and passes may end at the limit. -/
theorem ticks_of_redrawn {limits : Limits} (coherent : before.Coherent)
    (redrawn : Redrawn rename before after)
    (fresh : ∀ inner, before.Contains inner → inner.revision ≠ after.revision) (ticks : List Drives)
    (faultless : ∀ report ∈ ((Scheduler.new limits).play before ticks).1,
      ∃ settling, report = .ok settling) :
    ((Scheduler.new limits).play after (ticks.map (Drives.renumbered rename))).1 =
        ((Scheduler.new limits).play before ticks).1 ∧
      Redrawn rename ((Scheduler.new limits).play before ticks).2.2
        ((Scheduler.new limits).play after (ticks.map (Drives.renumbered rename))).2.2 := by
  obtain ⟨table, beforeFaithful, afterFaithful⟩ := redrawn.faithful coherent fresh
  exact play_redrawn rfl rfl rfl (NetlistCache.knows_empty table) (NetlistCache.knows_empty table)
    redrawn beforeFaithful afterFaithful ticks faultless

/-- An inverter that drives itself and a light. -/
def ring : Circuit :=
  ⟨⟨[some (.ofPart (.gate .not)), some (.ofPart (.light false))]⟩,
    [⟨⟨0, "out"⟩, ⟨0, "in"⟩⟩, ⟨⟨0, "out"⟩, ⟨1, "in"⟩⟩], 1⟩

/-- The ring with its nodes one slot further on and its wires the other way round. -/
def redrawnRing : Circuit :=
  ⟨⟨[none, some (.ofPart (.gate .not)), some (.ofPart (.light false))]⟩,
    [⟨⟨2, "in"⟩, ⟨1, "out"⟩⟩, ⟨⟨1, "out"⟩, ⟨1, "in"⟩⟩], 2⟩

/-- The ring reaches the limit on passes in both of two ticks, however it is drawn. -/
theorem ring_ticks :
    ((Scheduler.new .standard).play ring [[], []]).1 =
        [.ok ⟨true, 10, true, false⟩, .ok ⟨true, 10, true, false⟩] ∧
      ((Scheduler.new .standard).play redrawnRing [[], []]).1 =
        ((Scheduler.new .standard).play ring [[], []]).1 := by
  have reports : ((Scheduler.new .standard).play ring [[], []]).1 =
      [.ok ⟨true, 10, true, false⟩, .ok ⟨true, 10, true, false⟩] := by decide +kernel
  have flat : ∀ node ∈ ring.nodes.values, ∀ body, node.part ≠ .chip body := by
    simp [ring, Arena.values, Node.ofPart]
  have redrawn : Redrawn (· + 1) ring redrawnRing := by
    refine ⟨fun _ _ => Nat.succ.inj, fun id => rfl, fun id unused => ?_, ?_⟩
    · cases id with
      | zero => rfl
      | succ id => exact absurd rfl (unused id)
    · exact ⟨[⟨⟨1, "out"⟩, ⟨2, "in"⟩⟩, ⟨⟨1, "out"⟩, ⟨1, "in"⟩⟩], .swap ..,
        .cons (.inr rfl) (.cons (.inl rfl) .nil)⟩
  have fresh (inner : Circuit) (contained : ring.Contains inner) :
      inner.revision ≠ redrawnRing.revision := by
    rw [contained.eq_of_no_chip flat]
    decide
  refine ⟨reports, (ticks_of_redrawn (.of_no_chip flat) redrawn fresh [[], []] ?_).1⟩
  intro report member
  rw [reports] at member
  simp only [List.mem_cons, List.not_mem_nil, or_false, or_self] at member
  exact ⟨_, member⟩

end Circuit

end Breadboard
