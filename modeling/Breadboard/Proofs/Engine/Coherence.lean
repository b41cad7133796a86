import Breadboard.Proofs.Circuit.Outline
import Breadboard.Proofs.Engine.Lasting

/-!
# Coherent circuits and netlists that are known

Netlists are kept by revision and pins by the revision that they were derived from, so an evaluation
is right only if equal revisions mean equal topologies, and pins that are kept are those that would be
derived. In a coherent circuit a table tells the nets of every revision; a cache that agrees with the
table stays so, whatever circuit it is asked about, and an evaluation keeps the circuit in agreement
with the table, because it changes nothing that nets and pins are derived from.
-/

namespace Breadboard

namespace Circuit

/-- The same wires between the same live handles, whose ports look alike. -/
structure SameTopology (left right : Circuit) : Prop where
  wires : left.wires = right.wires
  ports : ∀ id, (left.node? id).map Node.portShape = (right.node? id).map Node.portShape

/-- Equal revisions mean equal topologies, and pins that are kept are current, at every depth. -/
structure Coherent (circuit : Circuit) : Prop where
  topology : ∀ left right, circuit.Contains left → circuit.Contains right →
    left.revision = right.revision → left.SameTopology right
  bindings : ∀ inner, circuit.Contains inner → ∀ id node body, inner.node? id = some node →
    node.part = .chip body → body.currentBindings = Chip.computeBindings body.circuit

/-- A table tells the nets of the circuit and of those inside its chips, and the chips keep current
pins. -/
inductive Faithful (table : Revision → List Net) : Circuit → Prop
  | intro (circuit : Circuit)
      (nets : (Netlist.build circuit).nets = table circuit.revision)
      (bound : ∀ id node body, circuit.node? id = some node → node.part = .chip body →
        body.currentBindings = Chip.computeBindings body.circuit)
      (inner : ∀ id node body, circuit.node? id = some node → node.part = .chip body →
        Faithful table body.circuit) :
      Faithful table circuit

/-- The circuit inside a chip of a contained circuit is contained. -/
theorem Contains.chip {circuit inner : Circuit} (contained : circuit.Contains inner) {id : NodeId}
    {node : Node Circuit} {body : Chip Circuit} (found : inner.node? id = some node)
    (isChip : node.part = .chip body) : circuit.Contains body.circuit := by
  obtain ⟨path, leads⟩ := contained
  refine ⟨path ++ [id], ?_⟩
  induction path generalizing circuit with
  | nil =>
    rw [inside?] at leads
    cases leads
    exact inside?_cons_iff.mpr ⟨node, body, found, isChip, by rw [inside?]⟩
  | cons first rest inductionHypothesis =>
    obtain ⟨outer, outerBody, foundOuter, isOuter, deeper⟩ := inside?_cons_iff.mp leads
    exact inside?_cons_iff.mpr ⟨outer, outerBody, foundOuter, isOuter, inductionHypothesis deeper⟩

/-- A circuit without chips contains itself only. -/
theorem Contains.eq_of_no_chip {circuit inner : Circuit}
    (flat : ∀ node ∈ circuit.nodes.values, ∀ body, node.part ≠ .chip body)
    (contained : circuit.Contains inner) : inner = circuit := by
  obtain ⟨path, leads⟩ := contained
  cases path with
  | nil =>
    rw [inside?] at leads
    exact (Option.some.inj leads).symm
  | cons id rest =>
    obtain ⟨node, body, found, part, _⟩ := inside?_cons_iff.mp leads
    exact absurd part (flat node (Arena.mem_values.mpr ⟨id, found⟩) body)

/-- A circuit without chips is coherent. -/
theorem Coherent.of_no_chip {circuit : Circuit}
    (flat : ∀ node ∈ circuit.nodes.values, ∀ body, node.part ≠ .chip body) :
    circuit.Coherent := by
  constructor
  · intro left right containsLeft containsRight _
    rw [containsLeft.eq_of_no_chip flat, containsRight.eq_of_no_chip flat]
    exact ⟨rfl, fun _ => rfl⟩
  · intro inner contained id node body found isChip
    rw [contained.eq_of_no_chip flat] at found
    exact absurd isChip (flat node (Arena.mem_values.mpr ⟨id, found⟩) body)

/-- A circuit whose chips have derived nothing and stand around copies of one circuit without chips is
coherent, if that circuit is of another revision. -/
theorem Coherent.of_copies {circuit inner : Circuit}
    (copies : ∀ node ∈ circuit.nodes.values, ∀ body, node.part = .chip body →
      body.circuit = inner ∧ body.bindings = none)
    (flat : ∀ node ∈ inner.nodes.values, ∀ body, node.part ≠ .chip body)
    (other : circuit.revision ≠ inner.revision) : circuit.Coherent := by
  have levels {level : Circuit} (contained : circuit.Contains level) : level = circuit ∨ level = inner := by
    obtain ⟨path, leads⟩ := contained
    cases path with
    | nil =>
      rw [inside?] at leads
      exact .inl (Option.some.inj leads).symm
    | cons id rest =>
      obtain ⟨node, body, found, isChip, deeper⟩ := inside?_cons_iff.mp leads
      rw [(copies node (Arena.mem_values.mpr ⟨id, found⟩) body isChip).1] at deeper
      exact .inr (Contains.eq_of_no_chip flat ⟨rest, deeper⟩)
  constructor
  · intro left right containsLeft containsRight revision
    rcases levels containsLeft with rfl | rfl
    · rcases levels containsRight with rfl | rfl
      · exact ⟨rfl, fun _ => rfl⟩
      · exact absurd revision other
    · rcases levels containsRight with rfl | rfl
      · exact absurd revision.symm other
      · exact ⟨rfl, fun _ => rfl⟩
  · intro level contained id node body found isChip
    have member := Arena.mem_values.mpr ⟨id, found⟩
    rcases levels contained with rfl | rfl
    · rw [Chip.currentBindings, (copies node member body isChip).2]
    · exact absurd isChip (flat node member body)

/-- Circuits of one topology have the same nets. -/
theorem SameTopology.nets {left right : Circuit} (same : left.SameTopology right) :
    (Netlist.build left).nets = (Netlist.build right).nets := by
  refine nets_congr same.wires fun terminal => ?_
  have shapes := congrArg (Option.map fun shape : String → PortShape => shape terminal.port)
    (same.ports terminal.node)
  rw [Option.map_map, Option.map_map] at shapes
  have throughShape (circuit : Circuit) : circuit.wiredPort? terminal =
      ((circuit.node? terminal.node).map
        ((fun shape : String → PortShape => shape terminal.port) ∘ Node.portShape)).map fun shape =>
          ⟨if shape.joint then { terminal with port := "joint" } else terminal, shape⟩ := by
    rw [Option.map_map]
    rfl
  rw [throughShape, throughShape, shapes]

/-- A table tells the nets of a coherent circuit.

Proof: the table asks any contained circuit of a revision, and all of them have the same nets. -/
theorem Coherent.faithful {circuit : Circuit} (coherent : circuit.Coherent) :
    ∃ table, circuit.Faithful table := by
  classical
  let table (revision : Revision) : List Net :=
    if known : ∃ inner, circuit.Contains inner ∧ inner.revision = revision then
      (Netlist.build known.choose).nets
    else []
  have told (inner : Circuit) (contained : circuit.Contains inner) :
      (Netlist.build inner).nets = table inner.revision := by
    have known : ∃ other, circuit.Contains other ∧ other.revision = inner.revision :=
      ⟨inner, contained, rfl⟩
    obtain ⟨otherContained, sameRevision⟩ := known.choose_spec
    simp only [table, dif_pos known]
    exact (coherent.topology inner _ contained otherContained sameRevision.symm).nets
  have faithful (inner : Circuit) (contained : circuit.Contains inner) : inner.Faithful table := by
    induction inner using nesting_induction with
    | step inner inductionHypothesis =>
      refine .intro inner (told inner contained) (coherent.bindings inner contained) ?_
      intro id node body found isChip
      exact inductionHypothesis id node body found isChip (contained.chip found isChip)
  exact ⟨table, faithful circuit (.refl circuit)⟩

end Circuit

namespace NetlistCache

/-- Every netlist that is kept has the nets that the table tells for its revision. -/
def Knows (table : Revision → List Net) (cache : NetlistCache) : Prop :=
  ∀ entry ∈ cache.entries, entry.netlist.nets = table entry.netlist.revision

variable {table : Revision → List Net} {cache : NetlistCache}

/-- Nothing is kept of a revision that no entry belongs to. -/
theorem get?_eq_none_iff {revision : Revision} :
    cache.get? revision = none ↔ ∀ entry ∈ cache.entries, entry.netlist.revision ≠ revision := by
  simp [get?]

/-- An entry that is marked as asked for, if it is of a revision, keeps its netlist. -/
theorem netlist_marked (revision : Revision) (entry : CachedNetlist) :
    (if entry.netlist.revision == revision then { entry with used := true } else entry).netlist =
      entry.netlist := by
  split <;> rfl

/-- An empty cache agrees with every table. -/
theorem knows_empty (table : Revision → List Net) : NetlistCache.empty.Knows table := by
  intro entry member
  cases member

/-- A cache that was cleared agrees with every table. -/
theorem knows_clear (table : Revision → List Net) (cache : NetlistCache) : cache.clear.Knows table := by
  intro entry member
  cases member

/-- A sweep leaves nothing wrong in a cache. -/
theorem Knows.sweep (knows : cache.Knows table) : cache.sweep.Knows table := by
  intro entry member
  obtain ⟨kept, wasUsed, rfl⟩ := List.mem_map.mp member
  exact knows kept (List.mem_filter.mp wasUsed).1

/-- Asked for a circuit that the table tells the nets of, a cache answers with these nets and goes on
to agree with the table. -/
theorem getOrBuild_exact (knows : cache.Knows table) {circuit : Circuit}
    (nets : (Netlist.build circuit).nets = table circuit.revision) :
    (cache.getOrBuild circuit).1.nets = (Netlist.build circuit).nets ∧
      (cache.getOrBuild circuit).2.Knows table := by
  unfold getOrBuild
  split
  · next kept found =>
    simp only [get?, Option.map_eq_some_iff] at found
    obtain ⟨entry, isFirst, rfl⟩ := found
    have sameRevision : entry.netlist.revision = circuit.revision := by
      simpa using List.find?_some isFirst
    constructor
    · rw [nets, ← sameRevision]
      exact knows entry (List.mem_of_find?_eq_some isFirst)
    · intro marked member
      obtain ⟨original, present, rfl⟩ := List.mem_map.mp member
      have unmarked := knows original present
      split <;> exact unmarked
  · refine ⟨rfl, fun entry member => ?_⟩
    rcases List.mem_append.mp member with before | new
    · exact knows entry before
    · rw [List.mem_singleton] at new
      subst new
      exact nets

end NetlistCache

namespace Node

/-- If the node is a chip, it keeps current pins, and the table tells the nets inside it. -/
def Faithful (table : Revision → List Net) (node : Node Circuit) : Prop :=
  ∀ body, node.part = .chip body →
    body.currentBindings = Chip.computeBindings body.circuit ∧ body.circuit.Faithful table

/-- The outline is the same afterwards, and so is agreement with a table. -/
structure Retains (table : Revision → List Net) (before after : Node Circuit) : Prop where
  outline : after.outline = before.outline
  faithful : before.Faithful table → after.Faithful table

/-- A node that differs from another one in its signals only retains it. -/
theorem Retains.of_part {table : Revision → List Net} {before after : Node Circuit}
    (part : after.part = before.part) (label : after.label = before.label)
    (position : after.position = before.position) : Retains table before after := by
  constructor
  · simp only [Node.outline, viewed, outlined, map, label, position, part]
  · intro faithful body isChip
    exact faithful body (part ▸ isChip)

/-- A part that is no chip agrees with every table. -/
theorem faithful_of_not_chip {table : Revision → List Net} {node : Node Circuit}
    (notChip : ∀ body, node.part ≠ .chip body) : node.Faithful table :=
  fun body isChip => absurd isChip (notChip body)

end Node

namespace Circuit

variable {table : Revision → List Net} {before after : Circuit}

/-- A circuit whose nodes are retained has the same outline. -/
theorem Related.outline_eq (related : Related (Node.Retains table) before after) :
    after.outline = before.outline :=
  related.viewed_eq fun _ _ retains => retains.outline

/-- A circuit whose nodes are retained agrees with the table if it did before. -/
theorem Related.faithful (related : Related (Node.Retains table) before after)
    (faithful : before.Faithful table) : after.Faithful table := by
  obtain ⟨_, nets, bound, inner⟩ := faithful
  have atNode (id : NodeId) (changed : Node Circuit) (found : after.node? id = some changed) :
      changed.Faithful table := by
    obtain ⟨node, foundBefore, retains⟩ := related.origin found
    exact retains.faithful fun body isChip =>
      ⟨bound id node body foundBefore isChip, inner id node body foundBefore isChip⟩
  refine .intro after ?_ (fun id node body found isChip => (atNode id node found body isChip).1)
    fun id node body found isChip => (atNode id node found body isChip).2
  rw [nets_of_outline_eq related.outline_eq, nets, related.frame.revision]

end Circuit

end Breadboard
