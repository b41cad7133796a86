import Breadboard.Circuit.Nesting
import Breadboard.Proofs.Circuit.Blueprint
import Mathlib.Logic.Function.Basic

/-!
# Structural edits and tables of nets

Every structural edit that changes something stamps its circuit with a fresh revision, and a circuit
that is read is stamped with fresh revisions throughout. A table that tells nets by revisions is
continued at the fresh ones; what it told before stands, because no circuit bears a revision that was
not given out yet.
-/

namespace Breadboard

/-- A structural edit of a circuit. What stands for the circuit inside a chip that is added is left
open. -/
inductive Edit (Inner : Type) where
  | touch
  | add (node : Node Inner)
  | remove (id : NodeId)
  | connect (first second : Terminal)
  | disconnect (a b : Terminal)
  | move (id : NodeId) (place : Position)

namespace Edit

/-- The circuit after the edit, which is given a fresh revision. -/
def apply (fresh : Revision) (circuit : Circuit) : Edit Circuit → Circuit
  | touch => circuit.touch fresh
  | add node => circuit.addNode node fresh
  | remove id => circuit.removeNode id fresh
  | connect first second => circuit.connect first second fresh
  | disconnect a b => circuit.disconnect a b fresh
  | move id place => circuit.moveNode id place fresh

/-- The edit brings a chip into the circuit. -/
def Brings (body : Chip Circuit) : Edit Circuit → Prop
  | add node => node.part = .chip body
  | _ => False

/-- Every chip of the second circuit stands in the first one or is brought in by the edit. -/
def Gathers (edit : Edit Circuit) (before after : Circuit) : Prop :=
  ∀ id node body, after.node? id = some node → node.part = .chip body →
    (∃ origin original, before.node? origin = some original ∧ original.part = .chip body) ∨
      edit.Brings body

/-- An edit changes nothing, or it takes the fresh revision and gathers the chips that were there and
the one that it brings. -/
theorem apply_cases (edit : Edit Circuit) (fresh : Revision) (circuit : Circuit) :
    edit.apply fresh circuit = circuit ∨
      (edit.apply fresh circuit).revision = fresh ∧ edit.Gathers circuit (edit.apply fresh circuit) := by
  cases edit with
  | touch =>
    refine .inr ⟨rfl, ?_⟩
    intro id node body found isChip
    exact .inl ⟨id, node, found, isChip⟩
  | add added =>
    refine .inr ⟨rfl, ?_⟩
    intro id node body found isChip
    rw [show (Edit.add added).apply fresh circuit = circuit.addNode added fresh from rfl,
      Circuit.node?, Circuit.addNode, Arena.get?_alloc] at found
    split at found
    · cases found
      exact .inr isChip
    · exact .inl ⟨id, node, found, isChip⟩
  | remove removed =>
    simp only [apply, Circuit.removeNode]
    split
    · refine .inr ⟨rfl, ?_⟩
      intro id node body found isChip
      rw [Circuit.node?, Arena.get?_remove] at found
      split at found
      · cases found
      · exact .inl ⟨id, node, found, isChip⟩
    · exact .inl rfl
  | connect first second =>
    refine .inr ⟨rfl, ?_⟩
    intro id node body found isChip
    exact .inl ⟨id, node, found, isChip⟩
  | disconnect a b =>
    simp only [apply, Circuit.disconnect]
    split
    · exact .inl rfl
    · refine .inr ⟨rfl, ?_⟩
      intro id node body found isChip
      exact .inl ⟨id, node, found, isChip⟩
  | move moved place =>
    simp only [apply, Circuit.moveNode]
    split
    · refine .inr ⟨rfl, ?_⟩
      intro id node body found isChip
      have found : (circuit.modifyNode moved fun node => { node with position := place }).node? id =
        some node := found
      rw [Circuit.node?_modifyNode] at found
      split at found
      · obtain ⟨original, here, rfl⟩ := Option.map_eq_some_iff.mp found
        exact .inl ⟨id, original, here, isChip⟩
      · exact .inl ⟨id, node, found, isChip⟩
    · exact .inl rfl

/-- The edit with another thing in the place of the circuit that it brings in. -/
def map {α β : Type} (change : α → β) : Edit α → Edit β
  | touch => touch
  | add node => add (node.map change)
  | remove id => remove id
  | connect first second => connect first second
  | disconnect a b => disconnect a b
  | move id place => move id place

end Edit

/-- The second table tells what the first one tells of all revisions given out before a fresh one. -/
def Continues (fresh : Revision) (table continued : Revision → List Net) : Prop :=
  ∀ revision, revision < fresh → continued revision = table revision

/-- A table with an entry for a fresh revision continues the table. -/
theorem continues_update (fresh : Revision) (table : Revision → List Net) (nets : List Net) :
    Continues fresh table (Function.update table fresh nets) := by
  intro revision before
  exact Function.update_of_ne (Nat.ne_of_lt before) _ _

/-- Continuing a table twice is continuing it. -/
theorem Continues.trans {fresh later : Revision} {first second third : Revision → List Net}
    (one : Continues fresh first second) (notBefore : fresh ≤ later)
    (two : Continues later second third) : Continues fresh first third := by
  intro revision before
  rw [two revision (Nat.lt_of_lt_of_le before notBefore), one revision before]

namespace Circuit

variable {table continued : Revision → List Net} {fresh later : Revision} {circuit : Circuit}

/-- What was stamped before a revision was stamped before every later one. -/
theorem StampedBefore.mono (stamped : circuit.StampedBefore fresh) (notBefore : fresh ≤ later) :
    circuit.StampedBefore later :=
  Throughout.imp (fun _ before => Nat.lt_of_lt_of_le before notBefore) stamped

/-- A continued table tells the nets that the table told. -/
theorem Tabled.extend (tabled : circuit.Tabled table) (stamped : circuit.StampedBefore fresh)
    (continues : Continues fresh table continued) : circuit.Tabled continued := by
  intro inner contained
  rw [continues _ (stamped inner contained)]
  exact tabled inner contained

/-- A circuit with a fresh revision whose chips are told of by a table is told of by the table with
its nets entered. -/
theorem Tabled.enter {edited : Circuit} (isFresh : edited.revision = fresh)
    (inner : ∀ id node body, edited.node? id = some node → node.part = .chip body →
      body.circuit.Tabled table ∧ body.circuit.StampedBefore fresh) :
    edited.Tabled (Function.update table fresh (Netlist.build edited).nets) ∧
      edited.StampedBefore (fresh + 1) := by
  constructor
  · refine throughout_iff.mpr ⟨?_, ?_⟩
    · rw [isFresh, Function.update_self]
    · intro id node body found isChip
      obtain ⟨tabled, stamped⟩ := inner id node body found isChip
      exact tabled.extend stamped (continues_update _ _ _)
  · refine throughout_iff.mpr ⟨isFresh ▸ Nat.lt_succ_self _, ?_⟩
    intro id node body found isChip
    exact (inner id node body found isChip).2.mono (Nat.le_succ fresh)

/-- After an edit a table with one entry more tells the nets of the circuit. -/
theorem Tabled.edit (tabled : circuit.Tabled table) (stamped : circuit.StampedBefore fresh)
    (edit : Edit Circuit)
    (brought : ∀ body, edit.Brings body →
      body.circuit.Tabled table ∧ body.circuit.StampedBefore fresh) :
    (edit.apply fresh circuit).Tabled
        (Function.update table fresh (Netlist.build (edit.apply fresh circuit)).nets) ∧
      (edit.apply fresh circuit).StampedBefore (fresh + 1) := by
  rcases edit.apply_cases fresh circuit with unchanged | ⟨isFresh, gathers⟩
  · rw [unchanged]
    exact ⟨tabled.extend stamped (continues_update _ _ _), stamped.mono (Nat.le_succ fresh)⟩
  · refine Tabled.enter isFresh fun id node body found isChip => ?_
    rcases gathers id node body found isChip with ⟨origin, original, here, wasChip⟩ | brings
    · exact ⟨tabled.inside here wasChip, stamped.inside here wasChip⟩
    · exact brought body brings

end Circuit

/-- The node with the circuit inside its chip changed. -/
def Node.refit (change : Circuit → Circuit) (node : Node Circuit) : Node Circuit :=
  match node.part with
  | .chip body => { node with part := .chip { body with circuit := change body.circuit } }
  | _ => node

/-- Changing the circuit inside a chip keeps the shapes of its ports. -/
theorem Node.portShape_refit (change : Circuit → Circuit) (node : Node Circuit) (port : String) :
    (node.refit change).portShape port = node.portShape port := by
  obtain ⟨label, position, part, inputs, outputs⟩ := node
  cases part <;> rfl

/-- A chip whose circuit was changed is a chip around the changed circuit. -/
theorem Node.chip_of_refit {change : Circuit → Circuit} {node : Node Circuit} {body : Chip Circuit}
    (isChip : (node.refit change).part = .chip body) :
    ∃ original, node.part = .chip original ∧ body.circuit = change original.circuit := by
  obtain ⟨label, position, part, inputs, outputs⟩ := node
  cases part with
  | chip original =>
    refine ⟨original, rfl, ?_⟩
    cases isChip
    rfl
  | _ => cases isChip

namespace Circuit

/-- A change further inside changes the circuit of a chip. -/
theorem modifyInside_cons (circuit : Circuit) (change : Circuit → Circuit) (id : NodeId)
    (path : List NodeId) :
    circuit.modifyInside change (id :: path) =
      circuit.modifyNode id (Node.refit fun inner => inner.modifyInside change path) := by
  rw [modifyInside]
  rfl

/-- Changing the circuit inside a chip keeps the nets of the circuit around it. -/
theorem nets_refit (circuit : Circuit) (id : NodeId) (change : Circuit → Circuit) :
    (Netlist.build (circuit.modifyNode id (Node.refit change))).nets = (Netlist.build circuit).nets := by
  refine nets_congr rfl fun terminal => ?_
  rw [wiredPort?, wiredPort?, node?_modifyNode]
  split
  · rw [Option.map_map]
    refine Option.map_congr fun node _ => ?_
    simp only [Function.comp_apply, Node.portShape_refit]
  · rfl

/-- What a table tells of a circuit it tells of the circuit with a part of it changed, if it tells it
of what this part becomes.

Proof: by induction on the path that leads to the change. -/
theorem Throughout.modifyInside {property : Circuit → Prop} {change : Circuit → Circuit}
    (refit : ∀ circuit id inner, property circuit → property (circuit.modifyNode id (Node.refit inner)))
    {circuit : Circuit} (throughout : circuit.Throughout property) (path : List NodeId)
    (changed : ∀ inner, circuit.inside? path = some inner → (change inner).Throughout property) :
    (circuit.modifyInside change path).Throughout property := by
  induction path generalizing circuit with
  | nil =>
    rw [Circuit.modifyInside]
    exact changed circuit (by rw [inside?])
  | cons id path inductionHypothesis =>
    rw [modifyInside_cons]
    refine throughout_iff.mpr ⟨refit circuit id _ (throughout circuit (.refl circuit)), ?_⟩
    intro other node body found isChip
    rw [node?_modifyNode] at found
    by_cases sameId : id = other
    · rw [if_pos sameId] at found
      obtain ⟨original, here, rfl⟩ := Option.map_eq_some_iff.mp found
      obtain ⟨wasBody, wasChip, same⟩ := Node.chip_of_refit isChip
      rw [same]
      refine inductionHypothesis (throughout.inside here wasChip) fun inner leads => changed inner ?_
      exact inside?_cons_iff.mpr ⟨original, wasBody, sameId ▸ here, wasChip, leads⟩
    · rw [if_neg sameId] at found
      exact throughout.inside found isChip

variable {table continued : Revision → List Net} {fresh later : Revision}

/-- A circuit remains told of when the part that a path leads to is changed into one that is. -/
theorem Tabled.modifyInside {circuit : Circuit} (tabled : circuit.Tabled table)
    {change : Circuit → Circuit} (path : List NodeId)
    (changed : ∀ inner, circuit.inside? path = some inner → (change inner).Tabled table) :
    (circuit.modifyInside change path).Tabled table := by
  have throughout : circuit.Throughout fun inner =>
      (Netlist.build inner).nets = table inner.revision := tabled
  refine throughout.modifyInside (fun around id inner told => ?_) path changed
  exact (nets_refit around id inner).trans told

/-- A circuit remains stamped before a revision when the part that a path leads to is changed into one
that is. -/
theorem StampedBefore.modifyInside {circuit : Circuit} (stamped : circuit.StampedBefore fresh)
    {change : Circuit → Circuit} (path : List NodeId)
    (changed : ∀ inner, circuit.inside? path = some inner → (change inner).StampedBefore fresh) :
    (circuit.modifyInside change path).StampedBefore fresh :=
  Throughout.modifyInside (fun _ _ _ before => before) stamped path changed

/-- Some continuation of the table tells the nets of what becomes of a circuit. -/
def Renewable (renew : Revision → Circuit × Revision) : Prop :=
  ∀ table fresh, ∃ continued, Continues fresh table continued ∧ fresh ≤ (renew fresh).2 ∧
    (renew fresh).1.Tabled continued ∧ (renew fresh).1.StampedBefore (renew fresh).2

/-- Renewing the circuits inside the nodes one after the other gives circuits that a continued table
tells of.

Proof: by induction on the slots. Every chip continues the table from where the one before left it, and
what was entered for the earlier ones stands. -/
theorem renewSlots_tabled (slots : List (Option (Node (Revision → Circuit × Revision))))
    (each : ∀ node, some node ∈ slots → ∀ body, node.part = .chip body → Renewable body.circuit)
    (table : Revision → List Net) (fresh : Revision) :
    ∃ continued, Continues fresh table continued ∧ fresh ≤ (renewSlots slots fresh).2 ∧
      ∀ node, some node ∈ (renewSlots slots fresh).1 → ∀ body, node.part = .chip body →
        body.circuit.Tabled continued ∧ body.circuit.StampedBefore (renewSlots slots fresh).2 := by
  induction slots generalizing table fresh with
  | nil =>
    refine ⟨table, fun _ _ => rfl, Nat.le_refl _, ?_⟩
    intro node member
    cases member
  | cons slot rest inductionHypothesis =>
    have later := inductionHypothesis fun node member => each node (List.mem_cons_of_mem _ member)
    cases slot with
    | none =>
      obtain ⟨continued, continues, notBefore, told⟩ := later table fresh
      refine ⟨continued, continues, notBefore, ?_⟩
      intro node member
      rcases List.mem_cons.mp member with same | inRest
      · cases same
      · exact told node inRest
    | some node =>
      cases part : node.part with
      | chip body =>
        obtain ⟨between, continuesHead, notBeforeHead, tabledHead, stampedHead⟩ :=
          each node List.mem_cons_self body part table fresh
        obtain ⟨continued, continues, notBefore, told⟩ := later between (body.circuit fresh).2
        simp only [renewSlots, part]
        refine ⟨continued, continuesHead.trans notBeforeHead continues,
          Nat.le_trans notBeforeHead notBefore, ?_⟩
        intro renewed member renewedBody isChip
        rcases List.mem_cons.mp member with same | inRest
        · cases same
          cases isChip
          exact ⟨tabledHead.extend stampedHead continues, stampedHead.mono notBefore⟩
        · exact told renewed inRest renewedBody isChip
      | _ =>
        obtain ⟨continued, continues, notBefore, told⟩ := later table fresh
        simp only [renewSlots, part]
        refine ⟨continued, continues, notBefore, ?_⟩
        intro renewed member renewedBody isChip
        rcases List.mem_cons.mp member with same | inRest
        · cases same
          simp [Node.map, Part.map, part] at isChip
        · exact told renewed inRest renewedBody isChip

/-- A circuit with fresh revisions throughout is told of by a continued table.

Proof: by induction over the nesting. A circuit is stamped after the circuits inside it, so its nets are
entered last. -/
theorem renewable_renew (circuit : Circuit) : Renewable circuit.renew := by
  induction circuit using nesting_induction with
  | step circuit inductionHypothesis =>
    intro table fresh
    have each (node : Node (Revision → Circuit × Revision))
        (member : some node ∈ (circuit.nodes.map (Node.map renew)).slots) (body : Chip _)
        (isChip : node.part = .chip body) : Renewable body.circuit := by
      obtain ⟨slot, isSlot, same⟩ := List.mem_map.mp member
      obtain ⟨original, rfl, rfl⟩ := Option.map_eq_some_iff.mp same
      obtain ⟨id, here⟩ := List.mem_iff_getElem?.mp isSlot
      have found : circuit.node? id = some original := by
        rw [node?, Arena.get?, here]
        rfl
      cases part : original.part with
      | chip inner =>
        simp only [Node.map, Part.map, part, Part.chip.injEq] at isChip
        subst isChip
        exact inductionHypothesis id original inner found part
      | _ => simp [Node.map, Part.map, part] at isChip
    obtain ⟨continued, continues, notBefore, told⟩ := renewSlots_tabled _ each table fresh
    have renewed : circuit.renew fresh =
        (⟨⟨(renewSlots (circuit.nodes.map (Node.map renew)).slots fresh).1⟩, circuit.wires,
          (renewSlots (circuit.nodes.map (Node.map renew)).slots fresh).2⟩,
          (renewSlots (circuit.nodes.map (Node.map renew)).slots fresh).2 + 1) := by
      unfold renew
      rw [fold_eq]
    rw [renewed]
    refine ⟨_, continues.trans notBefore (continues_update _ continued _), Nat.le_succ_of_le notBefore,
      Tabled.enter rfl ?_⟩
    intro id node body found isChip
    rw [node?, Arena.get?, Option.join_eq_some_iff] at found
    exact told node (List.mem_of_getElem? found) body isChip

end Circuit

end Breadboard
