import Breadboard.Proofs.Engine.Redrawing
import Breadboard.Proofs.Net.Splitting

/-!
# Evaluation does not show a joint on a wire

A circuit with a wire split by a joint mirrors the circuit without the joint, and the joint is the only
spare one. So both report the same in every tick, and every other node is the same after each. This
needs the handle of the joint to be unclaimed: a wire that dangles at a missing node comes to life when
a joint takes the handle of the node, and may link the net of the split wire to another one.
-/

namespace Breadboard

/-- Drives of nodes that keep their handles are the same. -/
@[simp] theorem Drives.renumbered_self : Drives.renumbered (fun node => node) = fun drives => drives :=
  funext fun drives => List.map_id' drives

/-- A net with a wire split by a joint mirrors the net, the joint being spare. -/
theorem Net.Splits.mirrored {wire : Wire} {joint : NodeId} {before after : Net}
    (splits : Splits wire joint before after) :
    before.Mirrored (fun node => node) (· = joint) after := by
  refine ⟨splits.width, ?_, ?_, fun id other => ?_⟩
  · rw [Terminal.renumbered_self, List.map_id']
    exact splits.sources
  · rw [Terminal.renumbered_self, List.map_id']
    exact splits.sinks
  · rw [splits.joints.mem_iff]
    split
    · exact List.mem_cons.trans (or_iff_right other)
    · exact Iff.rfl

namespace Circuit

variable {wire : Wire} {joint : NodeId} {before after : Circuit}

/-- A circuit with a wire split by a joint mirrors the circuit, the joint being spare. -/
theorem Splits.mirrors (splits : Splits wire joint before after) (unclaimed : before.Unclaimed wire joint)
    (anchored : before.isLive wire.first = true ∨ before.isLive wire.second = true) :
    Mirrors (fun node => node) (· = joint) before after := by
  obtain ⟨number, ⟨_, reached⟩, netSplits⟩ := splits.nets_correspond unclaimed anchored
  refine ⟨Function.injective_id, fun id node found => ?_, fun id node found => ?_,
    fun net member => ?_, fun net' member' => ?_⟩
  · have other : id ≠ joint := by
      rintro rfl
      rw [splits.vacant] at found
      cases found
    exact ⟨other, (splits.node? id other).trans found⟩
  · by_cases same : id = joint
    · obtain ⟨joint', foundJoint, isJoint⟩ := splits.isJoint
      rw [same, foundJoint, Option.some.injEq] at found
      exact .inr ⟨same, found ▸ isJoint⟩
    · exact .inl ⟨id, rfl, (splits.node? id same).symm.trans found⟩
  · obtain ⟨id, rfl⟩ := List.get_of_mem member
    exact ⟨_, List.get_mem .., (netSplits id).mirrored⟩
  · obtain ⟨id', rfl⟩ := List.get_of_mem member'
    obtain ⟨id, rfl⟩ := reached id'
    exact ⟨_, List.get_mem .., (netSplits id).mirrored⟩

/-- Of circuits that mirror one another under the same handles, all nodes but the spare joints are the
same. -/
theorem Mirrors.node?_eq {spare : NodeId → Prop} (mirrors : Mirrors (fun node => node) spare before after)
    {id : NodeId} (used : ¬spare id) : after.node? id = before.node? id := by
  refine Option.ext fun node => ⟨fun found => ?_, fun found => (mirrors.image id node found).2⟩
  rcases mirrors.origin id node found with ⟨_, rfl, foundBefore⟩ | ⟨isSpare, _⟩
  · exact foundBefore
  · exact absurd isSpare used

/-- A joint on a wire makes no difference. Let a wire with a live end be split by a joint, in a coherent
circuit whose other wires lead from the handle of the joint to the net of the wire or to missing nodes.
The nets correspond one to one: they join the same ports at the same widths, and the same joints but
for the new one, which is on the net of the wire. In any number of ticks without a fault, whatever is
driven before each, both circuits report the same, and afterwards every node but the joint is the
same. The circuit may have cycles and passes may end at the limit. -/
theorem ticks_of_split {limits : Limits} (coherent : before.Coherent)
    (splits : Splits wire joint before after) (unclaimed : before.Unclaimed wire joint)
    (anchored : before.isLive wire.first = true ∨ before.isLive wire.second = true)
    (fresh : ∀ inner, before.Contains inner → inner.revision ≠ after.revision) :
    (∃ number : Fin (Netlist.build before).nets.length → Fin (Netlist.build after).nets.length,
      Function.Bijective number ∧ ∀ id,
        ((Netlist.build before).nets.get id).Splits wire joint
          ((Netlist.build after).nets.get (number id))) ∧
    ∀ ticks : List Drives,
      (∀ report ∈ ((Scheduler.new limits).play before ticks).1, ∃ settling, report = .ok settling) →
        ((Scheduler.new limits).play after ticks).1 = ((Scheduler.new limits).play before ticks).1 ∧
          ∀ id, id ≠ joint →
            ((Scheduler.new limits).play after ticks).2.2.node? id =
              ((Scheduler.new limits).play before ticks).2.2.node? id := by
  refine ⟨splits.nets_correspond unclaimed anchored, fun ticks faultless => ?_⟩
  have mirrors := splits.mirrors unclaimed anchored
  obtain ⟨table, beforeFaithful, afterFaithful⟩ := mirrors.faithful coherent fresh
  have knows : (Scheduler.new limits).cache.Knows table := NetlistCache.knows_empty table
  obtain ⟨reports, final⟩ :=
    play_mirrors rfl rfl rfl knows knows mirrors beforeFaithful afterFaithful faultless
  rw [Drives.renumbered_self, List.map_id'] at reports final
  exact ⟨reports, fun id other => final.node?_eq other⟩

/-- The ring after the edits that put a joint on the wire from the inverter to itself. -/
def jointedRing : Circuit :=
  (((ring.addNode (.ofPart .joint) 2).disconnect ⟨0, "out"⟩ ⟨0, "in"⟩ 3).connect
    ⟨0, "out"⟩ ⟨2, "from"⟩ 4).connect ⟨2, "to"⟩ ⟨0, "in"⟩ 5

/-- The edits split the wire. -/
theorem ring_splits : Splits ⟨⟨0, "out"⟩, ⟨0, "in"⟩⟩ 2 ring jointedRing := by
  have drawn : ⟨⟨0, "out"⟩, ⟨0, "in"⟩⟩ ∈ ring.wires := by decide
  have once : ring.joinCount ⟨0, "out"⟩ ⟨0, "in"⟩ = 1 := by decide
  exact splits_of_edits drawn once "from" "to" 2 3 4 5

/-- The ring reaches the limit on passes in both of two ticks, with or without the joint, and its light
is the same. -/
theorem jointedRing_ticks :
    ((Scheduler.new .standard).play ring [[], []]).1 =
        [.ok ⟨true, 10, true, false⟩, .ok ⟨true, 10, true, false⟩] ∧
      ((Scheduler.new .standard).play jointedRing [[], []]).1 =
        ((Scheduler.new .standard).play ring [[], []]).1 ∧
      ((Scheduler.new .standard).play jointedRing [[], []]).2.2.node? 1 =
        ((Scheduler.new .standard).play ring [[], []]).2.2.node? 1 := by
  have reports : ((Scheduler.new .standard).play ring [[], []]).1 =
      [.ok ⟨true, 10, true, false⟩, .ok ⟨true, 10, true, false⟩] := by decide +kernel
  have flat : ∀ node ∈ ring.nodes.values, ∀ body, node.part ≠ .chip body := by
    simp [ring, Arena.values, Node.ofPart]
  have unclaimed : ring.Unclaimed ⟨⟨0, "out"⟩, ⟨0, "in"⟩⟩ 2 := by
    intro other drawn port terminal joins
    rcases List.mem_pair.mp drawn with rfl | rfl <;> simp [Wire.joins_iff] at joins
  have fresh (inner : Circuit) (contained : ring.Contains inner) :
      inner.revision ≠ jointedRing.revision := by
    rw [contained.eq_of_no_chip flat]
    decide
  obtain ⟨_, ticks⟩ :=
    ticks_of_split (.of_no_chip flat) ring_splits unclaimed (.inl rfl) fresh
  obtain ⟨same, nodes⟩ := ticks [[], []] fun report member => by
    rw [reports] at member
    simp only [List.mem_cons, List.not_mem_nil, or_false, or_self] at member
    exact ⟨_, member⟩
  exact ⟨reports, same, nodes 1 (by decide)⟩

/-- A pin that lights a lamp, and another lamp, from which a wire dangles. -/
def danglingLamp : Circuit :=
  ⟨⟨[some (.ofPart (.inputPin .one (.bit true))), some (.ofPart (.light false)),
      some (.ofPart (.light false))]⟩,
    [⟨⟨0, "out"⟩, ⟨1, "in"⟩⟩, ⟨⟨2, "in"⟩, ⟨3, "joint"⟩⟩], 1⟩

/-- The wire from the pin to its lamp split by a joint, which takes the handle that the dangling wire
names. -/
def claimedLamp : Circuit :=
  ⟨⟨[some (.ofPart (.inputPin .one (.bit true))), some (.ofPart (.light false)),
      some (.ofPart (.light false)), some (.ofPart .joint)]⟩,
    [⟨⟨2, "in"⟩, ⟨3, "joint"⟩⟩, ⟨⟨0, "out"⟩, ⟨3, "joint"⟩⟩, ⟨⟨3, "joint"⟩, ⟨1, "in"⟩⟩], 2⟩

/-- The joint brings the dangling wire to life. It lights the other lamp, which stayed dark without the
joint, and one net is left of two. -/
theorem claimedLamp_lit :
    danglingLamp.Coherent ∧ Splits ⟨⟨0, "out"⟩, ⟨1, "in"⟩⟩ 3 danglingLamp claimedLamp ∧
      danglingLamp.isLive ⟨0, "out"⟩ = true ∧
      (∀ inner, danglingLamp.Contains inner → inner.revision ≠ claimedLamp.revision) ∧
      (Netlist.build danglingLamp).nets.length = 2 ∧ (Netlist.build claimedLamp).nets.length = 1 ∧
      ((Scheduler.new .standard).play danglingLamp [[]]).1 = [.ok ⟨true, 2, false, false⟩] ∧
      (((Scheduler.new .standard).play danglingLamp [[]]).2.2.node? 2).bind Node.display? =
        some (.bit false) ∧
      (((Scheduler.new .standard).play claimedLamp [[]]).2.2.node? 2).bind Node.display? =
        some (.bit true) := by
  have flat : ∀ node ∈ danglingLamp.nodes.values, ∀ body, node.part ≠ .chip body := by
    simp [danglingLamp, Arena.values, Node.ofPart]
  have splits : Splits ⟨⟨0, "out"⟩, ⟨1, "in"⟩⟩ 3 danglingLamp claimedLamp := by
    refine ⟨by decide, rfl, ⟨_, rfl, rfl⟩, fun id other => ?_, ?_⟩
    · rcases id with _ | _ | _ | _ | id
      · rfl
      · rfl
      · rfl
      · exact absurd rfl other
      · rfl
    · exact ⟨⟨⟨0, "out"⟩, ⟨3, "joint"⟩⟩, ⟨⟨3, "joint"⟩, ⟨1, "in"⟩⟩, "joint", "joint", rfl, rfl,
        by decide⟩
  have fresh (inner : Circuit) (contained : danglingLamp.Contains inner) :
      inner.revision ≠ claimedLamp.revision := by
    rw [contained.eq_of_no_chip flat]
    decide
  refine ⟨.of_no_chip flat, splits, rfl, fresh, ?_, ?_, ?_, ?_, ?_⟩
  all_goals decide +kernel

end Circuit

end Breadboard
