import Breadboard.Proofs.Circuit.Nodes
import Breadboard.Proofs.Net.Terminals

/-!
# Views and outlines of circuits

A view looks at the nodes and the revision of a circuit, and at those of the circuits inside its chips,
and leaves the wires as they are. The outline is the view that forgets stamps and everything that moves
when a circuit is simulated: signals, shown states, oscillators, and what chips have derived. Nets,
pins and the presence of oscillators are the same for a circuit and for its outline, so circuits with
one outline agree about them.
-/

namespace Breadboard

/-- A circuit under a view of its nodes and a view of revisions, at every depth. -/
def Circuit.viewed (stamp : Revision → Revision) (view : Node Circuit → Node Circuit) :
    Circuit → Circuit :=
  Circuit.fold fun nodes wires revision => ⟨nodes.map view, wires, stamp revision⟩

/-- A node under a view, whatever its chip contains being viewed first. -/
def Node.viewed (stamp : Revision → Revision) (view : Node Circuit → Node Circuit)
    (node : Node Circuit) : Node Circuit :=
  view (node.map (Circuit.viewed stamp view))

/-- The part without its state and without anything derived. -/
def Part.outline : Part Circuit → Part Circuit
  | .inputPin width _ => .inputPin width (.bit false)
  | .switch _ => .switch false
  | .outputPin width _ => .outputPin width (.bit false)
  | .light _ => .light false
  | .sevenSegment _ => .sevenSegment .dark
  | .clock _ => .clock .initial
  | .chip body => .chip { body with bindings := none, lastInputs := .empty }
  | other => other

/-- The node without signals and without the state of its part. -/
def Node.outlined (node : Node Circuit) : Node Circuit :=
  { node with part := node.part.outline, inputs := .empty, outputs := .empty }

/-- The circuit without anything that moves in a simulation, and without stamps. -/
def Circuit.outline : Circuit → Circuit :=
  Circuit.viewed (fun _ => 0) Node.outlined

/-- The node without anything that moves in a simulation, and without stamps. -/
def Node.outline : Node Circuit → Node Circuit :=
  Node.viewed (fun _ => 0) Node.outlined

namespace Circuit

variable {stamp : Revision → Revision} {view : Node Circuit → Node Circuit}

/-- A view of a circuit views its nodes one by one. -/
theorem viewed_eq (circuit : Circuit) :
    circuit.viewed stamp view =
      ⟨circuit.nodes.map (Node.viewed stamp view), circuit.wires, stamp circuit.revision⟩ := by
  have twice : (circuit.nodes.map (Node.map (Circuit.viewed stamp view))).map view =
      circuit.nodes.map (Node.viewed stamp view) := by
    simp only [Arena.map, List.map_map]
    congr 2
    funext slot
    cases slot <;> rfl
  rw [← twice]
  exact fold_eq _ circuit

/-- A handle names the view of the node that it named. -/
theorem node?_viewed (circuit : Circuit) (id : NodeId) :
    (circuit.viewed stamp view).node? id = (circuit.node? id).map (Node.viewed stamp view) := by
  rw [viewed_eq]
  exact Arena.get?_map ..

/-- Circuits with one view have the same wires, the same view of the revision and equally many
slots. -/
theorem frame_of_viewed_eq {left right : Circuit}
    (same : left.viewed stamp view = right.viewed stamp view) :
    left.wires = right.wires ∧ stamp left.revision = stamp right.revision ∧
      left.nodes.slots.length = right.nodes.slots.length := by
  rw [viewed_eq, viewed_eq] at same
  injection same with nodes wires revision
  have size := congrArg (fun arena => arena.slots.length) nodes
  simp only [Arena.map, List.length_map] at size
  exact ⟨wires, revision, size⟩

/-- Circuits with one view have nodes with one view under every handle. -/
theorem node?_of_viewed_eq {left right : Circuit}
    (same : left.viewed stamp view = right.viewed stamp view) (id : NodeId) :
    (left.node? id).map (Node.viewed stamp view) = (right.node? id).map (Node.viewed stamp view) := by
  rw [← node?_viewed, ← node?_viewed, same]

/-- A node of a circuit has a counterpart with the same view in a circuit with the same view. -/
theorem counterpart_of_viewed_eq {left right : Circuit}
    (same : left.viewed stamp view = right.viewed stamp view) {id : NodeId} {node : Node Circuit}
    (found : left.node? id = some node) :
    ∃ other, right.node? id = some other ∧ node.viewed stamp view = other.viewed stamp view := by
  have here := node?_of_viewed_eq same id
  rw [found, Option.map_some] at here
  obtain ⟨other, foundOther, sameView⟩ := Option.map_eq_some_iff.mp here.symm
  exact ⟨other, foundOther, sameView.symm⟩

/-- Circuits with the same wires, the same view of the revision and equally many slots whose nodes
have one view under every handle have one view. -/
theorem viewed_ext {left right : Circuit}
    (size : left.nodes.slots.length = right.nodes.slots.length)
    (nodes : ∀ id,
      (left.node? id).map (Node.viewed stamp view) = (right.node? id).map (Node.viewed stamp view))
    (wires : left.wires = right.wires) (revision : stamp left.revision = stamp right.revision) :
    left.viewed stamp view = right.viewed stamp view := by
  refine ext_node? ?_ (fun id => ?_) ?_ ?_
  · simpa [viewed_eq, Arena.map] using size
  · rw [node?_viewed, node?_viewed, nodes]
  · simpa [viewed_eq] using wires
  · simpa [viewed_eq] using revision

/-- A view of a view is one view, if the first one looks at no circuit inside a chip.

Proof: by induction over the nesting. -/
theorem viewed_viewed {first : Node Circuit → Node Circuit}
    (natural : ∀ (inner : Circuit → Circuit) node, (first node).map inner = first (node.map inner))
    (firstStamp : Revision → Revision) (circuit : Circuit) :
    (circuit.viewed firstStamp first).viewed stamp view =
      circuit.viewed (stamp ∘ firstStamp) (view ∘ first) := by
  induction circuit using nesting_induction with
  | step circuit inductionHypothesis =>
    refine ext_node? (by simp [viewed_eq, Arena.map]) (fun id => ?_) (by simp [viewed_eq])
      (by simp [viewed_eq])
    rw [node?_viewed, node?_viewed, node?_viewed, Option.map_map]
    refine Option.map_congr fun node found => ?_
    simp only [Function.comp_apply, Node.viewed, natural]
    obtain ⟨label, position, part, inputs, outputs⟩ := node
    cases part with
    | chip body =>
      simp only [Node.map, Part.map, Chip.map, inductionHypothesis id _ body found rfl]
    | _ => rfl

end Circuit

namespace Node

/-- Whatever becomes of stamps, forgetting what moves keeps the shapes of all ports. -/
theorem portShape_outlined (stamp : Revision → Revision) (node : Node Circuit) (port : String) :
    (node.viewed stamp Node.outlined).portShape port = node.portShape port := by
  obtain ⟨_, _, part, _, _⟩ := node
  cases part <;> rfl

/-- The outline keeps what is an input pin. -/
theorem isInputPin_outline (node : Node Circuit) : node.outline.isInputPin = node.isInputPin := by
  obtain ⟨_, _, part, _, _⟩ := node
  cases part <;> rfl

/-- The outline keeps what is an output pin. -/
theorem isOutputPin_outline (node : Node Circuit) :
    node.outline.isOutputPin = node.isOutputPin := by
  obtain ⟨_, _, part, _, _⟩ := node
  cases part <;> rfl

/-- Whatever becomes of stamps, what looks like a chip once what moves is forgotten is a chip around a
circuit that looks like its own. -/
theorem chip_of_outlined_eq {stamp : Revision → Revision} {node other : Node Circuit}
    (same : node.viewed stamp Node.outlined = other.viewed stamp Node.outlined) {body : Chip Circuit}
    (isChip : node.part = .chip body) :
    ∃ otherBody, other.part = .chip otherBody ∧
      body.circuit.viewed stamp Node.outlined = otherBody.circuit.viewed stamp Node.outlined := by
  obtain ⟨label, position, _, inputs, outputs⟩ := node
  obtain ⟨otherLabel, otherPosition, otherPart, otherInputs, otherOutputs⟩ := other
  simp only at isChip
  subst isChip
  have parts := congrArg Node.part same
  cases otherPart with
  | chip otherBody =>
    refine ⟨otherBody, rfl, ?_⟩
    simp only [viewed, outlined, map, Part.map, Part.outline, Chip.map,
      Part.chip.injEq, Chip.mk.injEq] at parts
    exact parts.2.2.2.1
  | _ => cases parts

/-- What has the outline of a chip is a chip around a circuit of the same outline. -/
theorem chip_of_outline_eq {node other : Node Circuit} (same : node.outline = other.outline)
    {body : Chip Circuit} (isChip : node.part = .chip body) :
    ∃ otherBody, other.part = .chip otherBody ∧ body.circuit.outline = otherBody.circuit.outline :=
  chip_of_outlined_eq same isChip

end Node

namespace Circuit

/-- Circuits whose wires are the same and whose ports look the same to wires have the same nets. -/
theorem nets_congr {left right : Circuit} (wires : left.wires = right.wires)
    (ports : ∀ terminal, left.wiredPort? terminal = right.wiredPort? terminal) :
    (Netlist.build left).nets = (Netlist.build right).nets := by
  have lookups : left.wiredPort? = right.wiredPort? := funext ports
  have listed : left.wiredPorts = right.wiredPorts := by
    rw [wiredPorts, wiredPorts, wires, lookups]
  have unites (ports : List WiredPort) : left.uniteEnds ports = right.uniteEnds ports := by
    funext sets wire
    simp only [uniteEnds, lookups]
  simp only [Netlist.build]
  rw [listed, wires, unites]

/-- Whatever becomes of stamps, forgetting what moves keeps the nets. -/
theorem nets_outlined (stamp : Revision → Revision) (circuit : Circuit) :
    (Netlist.build (circuit.viewed stamp Node.outlined)).nets = (Netlist.build circuit).nets := by
  refine nets_congr (by rw [viewed_eq]) fun terminal => ?_
  rw [wiredPort?, wiredPort?, node?_viewed, Option.map_map]
  congr 1
  funext node
  simp only [Function.comp_apply, Node.portShape_outlined]

/-- A circuit and its outline have the same nets. -/
theorem nets_outline (circuit : Circuit) :
    (Netlist.build circuit.outline).nets = (Netlist.build circuit).nets :=
  nets_outlined _ circuit

/-- What is sorted by height depends on a view only through heights and the chosen nodes. -/
theorem sortedNodes_viewed {stamp : Revision → Revision} {view : Node Circuit → Node Circuit}
    (circuit : Circuit) (test : Node Circuit → Bool)
    (sameTest : ∀ node : Node Circuit, test (node.viewed stamp view) = test node)
    (samePlace : ∀ node : Node Circuit, (node.viewed stamp view).position = node.position) :
    (circuit.viewed stamp view).sortedNodes test = circuit.sortedNodes test := by
  simp only [sortedNodes, viewed_eq, Arena.items_map]
  rw [List.filter_map]
  have chosen : ((fun item : NodeId × Node Circuit => test item.2) ∘
      fun item : NodeId × Node Circuit => (item.1, item.2.viewed stamp view)) =
        fun item => test item.2 := by
    funext item
    exact sameTest item.2
  rw [chosen, ← List.map_mergeSort, List.map_map]
  · rfl
  · intro a _ b _
    simp only [samePlace]

/-- A circuit and its outline have the same input pins in the same order. -/
theorem inputPins_outline (circuit : Circuit) : circuit.outline.inputPins = circuit.inputPins :=
  sortedNodes_viewed circuit _ Node.isInputPin_outline fun _ => rfl

/-- A circuit and its outline have the same output pins in the same order. -/
theorem outputPins_outline (circuit : Circuit) : circuit.outline.outputPins = circuit.outputPins :=
  sortedNodes_viewed circuit _ Node.isOutputPin_outline fun _ => rfl

/-- A circuit contains an oscillator exactly if one of its nodes is one or contains one. -/
theorem containsClock_iff {circuit : Circuit} :
    circuit.containsClock = true ↔
      ∃ id node, circuit.node? id = some node ∧ node.containsClock = true := by
  rw [containsClock, fold_eq, List.any_eq_true]
  constructor
  · rintro ⟨node, member, clocked⟩
    obtain ⟨id, found⟩ := Arena.mem_values.mp member
    rw [Arena.get?_map, Option.map_eq_some_iff] at found
    obtain ⟨original, here, rfl⟩ := found
    exact ⟨id, original, here, clocked⟩
  · rintro ⟨id, node, found, clocked⟩
    refine ⟨_, Arena.mem_values.mpr ⟨id, ?_⟩, clocked⟩
    rw [Arena.get?_map, show circuit.nodes.get? id = some node from found]
    rfl

/-- A circuit and its outline contain oscillators alike.

Proof: by induction over the nesting. The outline of an oscillator is an oscillator, and the outline
of a chip contains one if the outline of its circuit does. -/
theorem containsClock_outline (circuit : Circuit) :
    circuit.outline.containsClock = circuit.containsClock := by
  induction circuit using nesting_induction with
  | step circuit inductionHypothesis =>
    have sameNode (id : NodeId) (node : Node Circuit) (found : circuit.node? id = some node) :
        node.outline.containsClock = node.containsClock := by
      obtain ⟨label, position, part, inputs, outputs⟩ := node
      cases part with
      | chip body => exact inductionHypothesis id _ body found rfl
      | _ => rfl
    rw [Bool.eq_iff_iff, containsClock_iff, containsClock_iff]
    simp only [outline, node?_viewed, Option.map_eq_some_iff]
    constructor
    · rintro ⟨id, _, ⟨node, found, rfl⟩, clocked⟩
      exact ⟨id, node, found, sameNode id node found ▸ clocked⟩
    · rintro ⟨id, node, found, clocked⟩
      exact ⟨id, _, ⟨node, found, rfl⟩, (sameNode id node found).trans clocked⟩

/-- Whatever becomes of stamps, a view that keeps the outlines of nodes keeps those of circuits.

Proof: by induction over the nesting. -/
theorem outline_viewed {stamp : Revision → Revision} {view : Node Circuit → Node Circuit}
    (kept : ∀ node, (view node).outline = node.outline) (circuit : Circuit) :
    (circuit.viewed stamp view).outline = circuit.outline := by
  induction circuit using nesting_induction with
  | step circuit inductionHypothesis =>
    refine viewed_ext (by simp [viewed_eq, Arena.map]) (fun id => ?_) (by simp [viewed_eq]) rfl
    rw [node?_viewed, Option.map_map]
    refine Option.map_congr fun node found => ?_
    change (view (node.map (viewed stamp view))).outline = node.outline
    rw [kept]
    obtain ⟨label, position, part, inputs, outputs⟩ := node
    cases part with
    | chip body =>
      have inner := inductionHypothesis id _ body found rfl
      simp only [outline] at inner
      simp only [Node.outline, Node.viewed, Node.map, Part.map, Chip.map, inner]
    | _ => rfl

/-- Circuits with one outline have the same nets. -/
theorem nets_of_outline_eq {left right : Circuit} (same : left.outline = right.outline) :
    (Netlist.build left).nets = (Netlist.build right).nets := by
  rw [← nets_outline, same, nets_outline]

/-- Circuits with one outline have the same input pins in the same order. -/
theorem inputPins_of_outline_eq {left right : Circuit} (same : left.outline = right.outline) :
    left.inputPins = right.inputPins := by
  rw [← inputPins_outline, same, inputPins_outline]

/-- Circuits with one outline have the same output pins in the same order. -/
theorem outputPins_of_outline_eq {left right : Circuit} (same : left.outline = right.outline) :
    left.outputPins = right.outputPins := by
  rw [← outputPins_outline, same, outputPins_outline]

/-- Circuits with one outline contain oscillators alike. -/
theorem containsClock_of_outline_eq {left right : Circuit} (same : left.outline = right.outline) :
    left.containsClock = right.containsClock := by
  rw [← containsClock_outline, same, containsClock_outline]

/-- Circuits with one outline and one revision derive the same pins. -/
theorem computeBindings_of_outline_eq {left right : Circuit} (same : left.outline = right.outline)
    (revision : left.revision = right.revision) :
    Chip.computeBindings left = Chip.computeBindings right := by
  rw [Chip.computeBindings, Chip.computeBindings, revision, inputPins_of_outline_eq same,
    outputPins_of_outline_eq same, containsClock_of_outline_eq same]

end Circuit

end Breadboard
