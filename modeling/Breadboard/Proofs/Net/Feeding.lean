import Breadboard.Proofs.Circuit.Outline
import Mathlib.Data.List.Chain
import Mathlib.Data.List.Perm.Subperm
import Mathlib.Data.Nat.Find
import Mathlib.Logic.Relation

/-!
# Which nodes feed which

A node feeds another one if some net leads from a declared output of the first to a declared input of
the second. Where no node feeds itself in the end, a chain of nodes each of which feeds the next never
comes back to a node, so there is a longest chain. How far a node lies behind the first nodes of its
chains bounds the passes that signals take to reach it.
-/

namespace Breadboard

namespace Node

variable {Inner : Type}

/-- The inputs that a node declares. -/
def declaredInputs (node : Node Inner) : List String :=
  match node.part with
  | .chip body => body.inputs.map PortDecl.id
  | part => ((part.type?.bind PartType.definition?).elim [] Definition.inputs).map PortDecl.id

/-- The outputs that a node declares. -/
def declaredOutputs (node : Node Inner) : List String :=
  match node.part with
  | .chip body => body.outputs.map PortDecl.id
  | part => ((part.type?.bind PartType.definition?).elim [] Definition.outputs).map PortDecl.id

/-- The outline declares the inputs of the node. -/
theorem declaredInputs_outline (node : Node Circuit) :
    node.outline.declaredInputs = node.declaredInputs := by
  obtain ⟨label, position, part, inputs, outputs⟩ := node
  cases part <;> rfl

/-- The outline declares the outputs of the node. -/
theorem declaredOutputs_outline (node : Node Circuit) :
    node.outline.declaredOutputs = node.declaredOutputs := by
  obtain ⟨label, position, part, inputs, outputs⟩ := node
  cases part <;> rfl

end Node

namespace Circuit

variable {circuit left right : Circuit} {edges : Nat}

/-- Some net leads from a declared output of the first node to a declared input of the second. -/
def Feeds (circuit : Circuit) (first second : NodeId) : Prop :=
  ∃ net ∈ (Netlist.build circuit).nets, ∃ output input, ⟨first, output⟩ ∈ net.sources ∧
    ⟨second, input⟩ ∈ net.sinks ∧
    (∃ node, circuit.node? first = some node ∧ output ∈ node.declaredOutputs) ∧
    (∃ node, circuit.node? second = some node ∧ input ∈ node.declaredInputs)

/-- No node feeds itself, directly or through others. -/
def Acyclic (circuit : Circuit) : Prop :=
  ∀ id, ¬ Relation.TransGen circuit.Feeds id id

/-- The number of edges of the longest chains of nodes each of which feeds the next. -/
structure LongestChain (circuit : Circuit) (edges : Nat) : Prop where
  attained : ∃ chain : List NodeId, chain.IsChain circuit.Feeds ∧ chain.length = edges + 1
  bounded : ∀ chain : List NodeId, chain.IsChain circuit.Feeds → chain.length ≤ edges + 1

/-- Every chain that ends at the node has at most so many edges. -/
def Within (circuit : Circuit) (edges : Nat) (id : NodeId) : Prop :=
  ∀ chain, (chain ++ [id]).IsChain circuit.Feeds → chain.length ≤ edges

/-- What feeds a node lies within one edge less. -/
theorem Within.of_feeds {first second : NodeId} (within : circuit.Within edges second)
    (feeds : circuit.Feeds first second) : ∃ fewer, edges = fewer + 1 ∧ circuit.Within fewer first := by
  have longer (chain : List NodeId) (isChain : (chain ++ [first]).IsChain circuit.Feeds) :
      chain.length + 1 ≤ edges := by
    have extended : ((chain ++ [first]) ++ [second]).IsChain circuit.Feeds := by
      refine isChain.append (List.isChain_singleton _) ?_
      simpa using feeds
    simpa using within _ extended
  have positive : 1 ≤ edges := longer [] (List.isChain_singleton _)
  refine ⟨edges - 1, by omega, fun chain isChain => ?_⟩
  have := longer chain isChain
  omega

/-- Every node lies within the length of a longest chain. -/
theorem LongestChain.within (longest : circuit.LongestChain edges) (id : NodeId) :
    circuit.Within edges id := by
  intro chain isChain
  have bounded := longest.bounded _ isChain
  rw [List.length_append, List.length_singleton] at bounded
  omega

/-- The nodes of a chain are in the circuit, unless it is a single one.

Proof: by induction on the chain. -/
theorem present_of_chain {first second : NodeId} {rest : List NodeId}
    (isChain : (first :: second :: rest).IsChain circuit.Feeds) :
    ∀ id ∈ first :: second :: rest, id < circuit.nodes.slots.length := by
  induction rest generalizing first second with
  | nil =>
    obtain ⟨_, _, _, _, _, _, ⟨node, found, _⟩, ⟨other, foundOther, _⟩⟩ :=
      (List.isChain_cons_cons.mp isChain).1
    intro id member
    rcases List.mem_pair.mp member with rfl | rfl
    · exact Arena.lt_of_get? found
    · exact Arena.lt_of_get? foundOther
  | cons third rest inductionHypothesis =>
    obtain ⟨feeds, isTail⟩ := List.isChain_cons_cons.mp isChain
    obtain ⟨_, _, _, _, _, _, ⟨node, found, _⟩, _⟩ := feeds
    intro id member
    rcases List.mem_cons.mp member with rfl | later
    · exact Arena.lt_of_get? found
    · exact inductionHypothesis isTail id later

/-- In an acyclic circuit no chain visits a node twice. -/
theorem Acyclic.nodup_of_chain (acyclic : circuit.Acyclic) {chain : List NodeId}
    (isChain : chain.IsChain circuit.Feeds) : chain.Nodup := by
  have reaches : chain.IsChain (Relation.TransGen circuit.Feeds) :=
    isChain.imp fun _ _ => Relation.TransGen.single
  refine reaches.pairwise.imp fun {first second} reached same => ?_
  subst same
  exact acyclic _ reached

/-- In an acyclic circuit no chain is longer than there are slots, or than a single node. -/
theorem Acyclic.length_le (acyclic : circuit.Acyclic) {chain : List NodeId}
    (isChain : chain.IsChain circuit.Feeds) : chain.length ≤ circuit.nodes.slots.length + 1 := by
  rcases chain with _ | ⟨first, _ | ⟨second, rest⟩⟩
  · exact Nat.zero_le _
  · exact Nat.succ_le_succ (Nat.zero_le _)
  · have inSlots : first :: second :: rest ⊆ List.range circuit.nodes.slots.length :=
      fun id member => List.mem_range.mpr (present_of_chain isChain id member)
    have atMost := (List.subperm_of_subset (acyclic.nodup_of_chain isChain) inSlots).length_le
    rw [List.length_range] at atMost
    exact Nat.le_succ_of_le atMost

/-- Where nodes feed only nodes with greater handles, no node feeds itself. -/
theorem Acyclic.of_rising (rising : ∀ first second, circuit.Feeds first second → first < second) :
    circuit.Acyclic := by
  intro id cycle
  have below : id < id := Relation.transGen_minimal rising id id cycle
  exact Nat.lt_irrefl id below

/-- Nets lead only to nodes with greater handles, in the circuit and in those inside its chips, which
nest less deep than the levels given. -/
def risesWithin : Nat → Circuit → Bool
  | 0, _ => false
  | levels + 1, circuit =>
    ((Netlist.build circuit).nets.all fun net => net.sources.all fun source =>
      net.sinks.all fun sink => source.node < sink.node) &&
    circuit.nodes.values.all fun node =>
      match node.part with
      | .chip body => body.circuit.risesWithin levels
      | _ => true

/-- Where nets lead only to nodes with greater handles, on every level, every level is acyclic.

Proof: by induction on the levels. -/
theorem acyclic_of_risesWithin {levels : Nat} (rises : circuit.risesWithin levels = true)
    {path : List NodeId} {inner : Circuit} (leads : circuit.inside? path = some inner) :
    inner.Acyclic ∧ path.length < levels := by
  induction levels generalizing circuit path with
  | zero => cases rises
  | succ levels inductionHypothesis =>
    rw [risesWithin, Bool.and_eq_true] at rises
    cases path with
    | nil =>
      rw [inside?] at leads
      cases leads
      refine ⟨.of_rising ?_, Nat.succ_pos levels⟩
      rintro first second ⟨net, member, output, input, source, sink, _⟩
      simp only [List.all_eq_true, decide_eq_true_eq] at rises
      exact rises.1 net member _ source _ sink
    | cons id path =>
      obtain ⟨node, body, found, isChip, deeper⟩ := inside?_cons_iff.mp leads
      have inside := List.all_eq_true.mp rises.2 node (Arena.mem_values.mpr ⟨id, found⟩)
      simp only [isChip] at inside
      obtain ⟨acyclic, shallow⟩ := inductionHypothesis inside deeper
      exact ⟨acyclic, Nat.succ_lt_succ shallow⟩

/-- In an acyclic circuit a longest chain has no more edges than there are slots. -/
theorem LongestChain.edges_le (longest : circuit.LongestChain edges) (acyclic : circuit.Acyclic) :
    edges ≤ circuit.nodes.slots.length := by
  obtain ⟨chain, isChain, length⟩ := longest.attained
  have bounded := acyclic.length_le isChain
  omega

/-- An acyclic circuit has a longest chain.

Proof: a single node is a chain, and the lengths of chains are bounded. -/
theorem Acyclic.exists_longestChain (acyclic : circuit.Acyclic) :
    ∃ edges, circuit.LongestChain edges := by
  classical
  let hasChain (edges : Nat) : Prop :=
    ∃ chain : List NodeId, chain.IsChain circuit.Feeds ∧ chain.length = edges + 1
  have single : hasChain 0 := ⟨[0], List.isChain_singleton _, rfl⟩
  refine ⟨Nat.findGreatest hasChain circuit.nodes.slots.length,
    Nat.findGreatest_spec (Nat.zero_le _) single, fun chain isChain => ?_⟩
  have bounded := acyclic.length_le isChain
  rcases Nat.eq_zero_or_pos chain.length with empty | positive
  · omega
  · have reaches : hasChain (chain.length - 1) := ⟨chain, isChain, by omega⟩
    have atMost := Nat.le_findGreatest (n := circuit.nodes.slots.length) (by omega) reaches
    omega

/-- In circuits with one outline the same nodes feed each other. -/
theorem feeds_of_outline_eq (same : left.outline = right.outline) : left.Feeds = right.Feeds := by
  have forward {left right : Circuit} (same : left.outline = right.outline) {first second : NodeId}
      (feeds : left.Feeds first second) : right.Feeds first second := by
    obtain ⟨net, member, output, input, source, sink, ⟨node, found, isOutput⟩,
      ⟨other, foundOther, isInput⟩⟩ := feeds
    refine ⟨net, nets_of_outline_eq same ▸ member, output, input, source, sink, ?_, ?_⟩
    · obtain ⟨counterpart, foundRight, outlines⟩ := counterpart_of_viewed_eq same found
      refine ⟨counterpart, foundRight, ?_⟩
      rw [← Node.declaredOutputs_outline, Node.outline, ← outlines]
      exact (Node.declaredOutputs_outline node).symm ▸ isOutput
    · obtain ⟨counterpart, foundRight, outlines⟩ := counterpart_of_viewed_eq same foundOther
      refine ⟨counterpart, foundRight, ?_⟩
      rw [← Node.declaredInputs_outline, Node.outline, ← outlines]
      exact (Node.declaredInputs_outline other).symm ▸ isInput
  funext first second
  exact propext ⟨forward same, forward same.symm⟩

/-- Circuits with one outline have longest chains of one length. -/
theorem LongestChain.of_outline_eq (same : left.outline = right.outline)
    (longest : left.LongestChain edges) : right.LongestChain edges := by
  have feeds := feeds_of_outline_eq same
  exact ⟨feeds ▸ longest.attained, feeds ▸ longest.bounded⟩

end Circuit

end Breadboard
