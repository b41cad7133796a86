import Breadboard.Proofs.Engine.Clockwork
import Breadboard.Proofs.Engine.Inside
import Breadboard.Proofs.Safety.Changes

/-!
# Setting all oscillators to a frequency

One walk over a circuit and the circuits inside its chips sets the frequencies of oscillators, one counts
them, and one tells whether there are any. All three come to the same oscillators: those that a path
through chips and a handle lead to. Of these the frequency is set and nothing else, and everything that is
no oscillator stays as it is, at every depth.
-/

namespace Breadboard

/-- The items are listed without their handles as they stand in the slots. -/
theorem Arena.values_eq {α : Type} (arena : Arena α) : arena.values = arena.items.map Prod.snd := by
  have listed (slots : List (Option α)) (start : Nat) :
      slots.filterMap id = (itemsFrom start slots).map Prod.snd := by
    induction slots generalizing start with
    | nil => rfl
    | cons slot rest inductionHypothesis =>
      cases slot with
      | none => exact inductionHypothesis (start + 1)
      | some item => exact congrArg (item :: ·) (inductionHypothesis (start + 1))
  exact listed arena.slots 0

/-- The places of the oscillators in a node with a handle, those in the circuit inside a chip being given:
a place is the chips that lead there, from outside in, and a handle. -/
def Node.clockPlaces {Inner : Type} (places : Inner → List (List NodeId × NodeId)) (id : NodeId)
    (node : Node Inner) : List (List NodeId × NodeId) :=
  match node.part with
  | .clock _ => [([], id)]
  | .chip body => (places body.circuit).map fun place => (id :: place.1, place.2)
  | _ => []

/-- The places of the oscillators of a circuit, at all depths. -/
def Circuit.clockPlaces : Circuit → List (List NodeId × NodeId) :=
  fold fun nodes _ _ => nodes.items.flatMap fun item => item.2.clockPlaces (fun places => places) item.1

/-- Nothing but the frequency of an oscillator is another one afterwards. What becomes of the circuit
inside a chip is left open. -/
def Node.Retuned (frequency : Frequency) (before after : Node Circuit) : Prop :=
  after.label = before.label ∧ after.position = before.position ∧ after.inputs = before.inputs ∧
    after.outputs = before.outputs ∧
    match before.part with
    | .clock oscillator => after.part = .clock { oscillator with frequency }
    | .chip body => ∃ circuit, after.part = .chip { body with circuit }
    | part => after.part = part

namespace Circuit

/-- The places are those in the nodes, one node after the other. -/
theorem clockPlaces_eq (circuit : Circuit) :
    circuit.clockPlaces =
      circuit.nodes.items.flatMap fun item => item.2.clockPlaces clockPlaces item.1 := by
  rw [clockPlaces, fold_eq, Arena.items_map, List.flatMap_map]
  refine List.flatMap_congr fun item _ => ?_
  obtain ⟨id, ⟨label, position, part, inputs, outputs⟩⟩ := item
  cases part <;> rfl

/-- The oscillators are counted node by node. -/
theorem clockCount_eq (circuit : Circuit) :
    circuit.clockCount =
      (circuit.nodes.items.map fun item => (item.2.map clockCount).clocks).sum := by
  rw [clockCount, fold_eq, Arena.values_eq, Arena.items_map, List.sum_eq_foldl, List.map_map,
    List.map_map]
  rfl

/-- There are as many oscillators as they have places.

Proof: by induction over the nesting. -/
theorem length_clockPlaces (circuit : Circuit) : circuit.clockPlaces.length = circuit.clockCount := by
  induction circuit using nesting_induction with
  | step circuit inductionHypothesis =>
    rw [clockPlaces_eq, clockCount_eq, List.length_flatMap]
    refine congrArg List.sum (List.map_congr_left fun item member => ?_)
    obtain ⟨id, ⟨label, position, part, inputs, outputs⟩⟩ := item
    cases part with
    | chip body =>
      exact (List.length_map ..).trans
        (inductionHypothesis id _ body (Arena.mem_items.mp member) rfl)
    | _ => rfl

/-- An oscillator is at every one of the places, and there is none anywhere else.

Proof: by induction over the nesting. -/
theorem mem_clockPlaces {circuit : Circuit} {path : List NodeId} {id : NodeId} :
    (path, id) ∈ circuit.clockPlaces ↔ ∃ oscillator, circuit.oscillator? path id = some oscillator := by
  induction circuit using nesting_induction generalizing path with
  | step circuit inductionHypothesis =>
    have atNode (first : NodeId) (node : Node Circuit) (found : circuit.node? first = some node) :
        (path, id) ∈ node.clockPlaces clockPlaces first ↔
          (path = [] ∧ id = first ∧ ∃ oscillator, node.part = .clock oscillator) ∨
            ∃ body rest, node.part = .chip body ∧ path = first :: rest ∧
              ∃ oscillator, body.circuit.oscillator? rest id = some oscillator := by
      obtain ⟨label, position, part, inputs, outputs⟩ := node
      cases part with
      | clock oscillator => simp [Node.clockPlaces]
      | chip body =>
        have inside (rest : List NodeId) := @inductionHypothesis first _ body found rfl rest
        simp [Node.clockPlaces, inside, eq_comm, and_comm]
      | _ => simp [Node.clockPlaces]
    rw [clockPlaces_eq, List.mem_flatMap]
    constructor
    · rintro ⟨⟨first, node⟩, member, isPlace⟩
      have found := Arena.mem_items.mp member
      rcases (atNode first node found).mp isPlace with
        ⟨rfl, rfl, oscillator, isClock⟩ | ⟨body, rest, isChip, rfl, oscillator, inside⟩
      · refine ⟨oscillator, ?_⟩
        rw [oscillator?_level, show circuit.node? id = some node from found]
        exact Node.oscillator?_eq_some.mpr isClock
      · exact ⟨oscillator, oscillator?_inside.mpr ⟨node, body, found, isChip, inside⟩⟩
    · rintro ⟨oscillator, there⟩
      cases path with
      | nil =>
        rw [oscillator?_level, Option.bind_eq_some_iff] at there
        obtain ⟨node, found, isClock⟩ := there
        exact ⟨(id, node), Arena.mem_items.mpr found, (atNode id node found).mpr
          (.inl ⟨rfl, rfl, oscillator, Node.oscillator?_eq_some.mp isClock⟩)⟩
      | cons first rest =>
        obtain ⟨node, body, found, isChip, inside⟩ := oscillator?_inside.mp there
        exact ⟨(first, node), Arena.mem_items.mpr found, (atNode first node found).mpr
          (.inr ⟨body, rest, isChip, rfl, oscillator, inside⟩)⟩

/-- The first handle on the way to an oscillator of a node is that of the node. -/
theorem first_of_mem_clockPlaces {places : Circuit → List (List NodeId × NodeId)} {id : NodeId}
    {node : Node Circuit} {place : List NodeId × NodeId} (member : place ∈ node.clockPlaces places id) :
    place.1.headD place.2 = id := by
  obtain ⟨label, position, part, inputs, outputs⟩ := node
  cases part with
  | clock oscillator =>
    rw [List.mem_singleton.mp member]
    rfl
  | chip body =>
    obtain ⟨inner, _, rfl⟩ := List.mem_map.mp member
    rfl
  | _ => cases member

/-- No place is listed twice.

Proof: by induction over the nesting. Nodes have handles of their own, and so have their places. -/
theorem nodup_clockPlaces (circuit : Circuit) : circuit.clockPlaces.Nodup := by
  induction circuit using nesting_induction with
  | step circuit inductionHypothesis =>
    rw [clockPlaces_eq, List.nodup_flatMap]
    constructor
    · rintro ⟨id, ⟨label, position, part, inputs, outputs⟩⟩ member
      cases part with
      | clock oscillator => exact List.nodup_singleton _
      | chip body =>
        refine (inductionHypothesis id _ body (Arena.mem_items.mp member) rfl).map ?_
        intro place other same
        simpa [Prod.ext_iff] using same
      | _ => exact List.nodup_nil
    · refine circuit.nodes.pairwise_items.imp fun {item other} before place inFirst inSecond => ?_
      have first := first_of_mem_clockPlaces inFirst
      have second := first_of_mem_clockPlaces inSecond
      exact absurd (first.symm.trans second) (Nat.ne_of_lt before)

/-- A circuit contains an oscillator exactly if there is one at some place.

Proof: by induction over the nesting. -/
theorem containsClock_iff_oscillator? {circuit : Circuit} :
    circuit.containsClock = true ↔
      ∃ path id oscillator, circuit.oscillator? path id = some oscillator := by
  induction circuit using nesting_induction with
  | step circuit inductionHypothesis =>
    rw [containsClock_iff]
    constructor
    · rintro ⟨first, ⟨label, position, part, inputs, outputs⟩, found, clocked⟩
      cases part with
      | clock oscillator =>
        refine ⟨[], first, oscillator, ?_⟩
        rw [oscillator?_level, found]
        rfl
      | chip body =>
        obtain ⟨path, id, oscillator, inside⟩ :=
          (inductionHypothesis first _ body found rfl).mp clocked
        exact ⟨first :: path, id, oscillator,
          oscillator?_inside.mpr ⟨_, body, found, rfl, inside⟩⟩
      | _ => cases clocked
    · rintro ⟨path, id, oscillator, there⟩
      cases path with
      | nil =>
        rw [oscillator?_level, Option.bind_eq_some_iff] at there
        obtain ⟨node, found, isClock⟩ := there
        refine ⟨id, node, found, ?_⟩
        rw [Node.containsClock, Node.isClocked, Node.map, Node.oscillator?_eq_some.mp isClock]
        rfl
      | cons first path =>
        obtain ⟨node, body, found, isChip, inside⟩ := oscillator?_inside.mp there
        refine ⟨first, node, found, ?_⟩
        rw [Node.containsClock, Node.isClocked, Node.map, isChip]
        exact (inductionHypothesis first node body found isChip).mpr ⟨path, id, oscillator, inside⟩

/-- There are oscillators to count exactly if the circuit contains one. -/
theorem clockCount_pos_iff {circuit : Circuit} :
    0 < circuit.clockCount ↔ circuit.containsClock = true := by
  rw [← length_clockPlaces, List.length_pos_iff_exists_mem, containsClock_iff_oscillator?]
  simp only [Prod.exists, mem_clockPlaces]

/-- Setting all oscillators to a frequency leaves no trace of a frequency that they were set to before. -/
theorem retune_retune (earlier frequency : Frequency) (circuit : Circuit) :
    (circuit.retune earlier).retune frequency = circuit.retune frequency := by
  have natural (inner : Circuit → Circuit) (node : Node Circuit) :
      (node.retuned earlier).map inner = (node.map inner).retuned earlier := by
    obtain ⟨label, position, part, inputs, outputs⟩ := node
    cases part <;> rfl
  have last : Node.retuned frequency ∘ Node.retuned earlier =
      (Node.retuned frequency : Node Circuit → Node Circuit) := by
    funext ⟨label, position, part, inputs, outputs⟩
    cases part <;> rfl
  calc (circuit.retune earlier).retune frequency
    _ = circuit.viewed id (Node.retuned frequency ∘ Node.retuned earlier) :=
      viewed_viewed natural id circuit
    _ = circuit.retune frequency := by
      rw [last]
      rfl

/-- A path leads to the circuit that it led to, with all its oscillators at the frequency.

Proof: by induction on the path. -/
theorem inside?_retune (frequency : Frequency) (circuit : Circuit) (path : List NodeId) :
    (circuit.retune frequency).inside? path = (circuit.inside? path).map (retune frequency) := by
  induction path generalizing circuit with
  | nil => rw [inside?, inside?, Option.map_some]
  | cons id path inductionHypothesis =>
    rw [inside?, inside?, node?_retune]
    rcases circuit.node? id with _ | ⟨label, position, part, inputs, outputs⟩
    · rfl
    · cases part with
      | chip body => exact inductionHypothesis body.circuit
      | _ => rfl

/-- An oscillator at a place has the frequency, and is otherwise the one that was there. -/
theorem oscillator?_retune (frequency : Frequency) (circuit : Circuit) (path : List NodeId)
    (id : NodeId) :
    (circuit.retune frequency).oscillator? path id =
      (circuit.oscillator? path id).map fun oscillator => { oscillator with frequency } := by
  rw [oscillator?, oscillator?, inside?_retune]
  cases circuit.inside? path with
  | none => rfl
  | some inner =>
    simp only [Option.map_some, Option.bind_some, node?_retune]
    rcases inner.node? id with _ | ⟨label, position, part, inputs, outputs⟩
    · rfl
    · cases part <;> rfl

/-- Nothing but frequencies changes on the level of a circuit. -/
theorem related_retuned (frequency : Frequency) (circuit : Circuit) :
    Related (Node.Retuned frequency) circuit (circuit.retune frequency) := by
  refine .of_map (circuit.related_retune frequency).frame _ (node?_retune frequency circuit)
    fun id node _ => ?_
  obtain ⟨label, position, part, inputs, outputs⟩ := node
  cases part with
  | chip body => exact ⟨rfl, rfl, rfl, rfl, body.circuit.retune frequency, rfl⟩
  | _ => exact ⟨rfl, rfl, rfl, rfl, rfl⟩

/-- Setting all oscillators to a frequency counts them all: as many as there are places of oscillators, at
whatever depth, and more than none exactly if the circuit contains one. Each of them has the frequency
afterwards and is otherwise as it was. At every depth all else stays: paths lead where they led, with the
wires, the revision and the slots that were there, and nodes keep all but the frequency of an oscillator.
Of several frequencies the last one counts. -/
theorem retune_reaches_clocks_only (circuit : Circuit) (earlier frequency : Frequency) :
    (∃ places : List (List NodeId × NodeId), places.Nodup ∧ places.length = circuit.clockCount ∧
      ∀ path id, (path, id) ∈ places ↔
        ∃ oscillator, circuit.oscillator? path id = some oscillator) ∧
    (0 < circuit.clockCount ↔ circuit.containsClock = true) ∧
    (∀ path id, (circuit.retune frequency).oscillator? path id =
      (circuit.oscillator? path id).map fun oscillator => { oscillator with frequency }) ∧
    (∀ path, (circuit.retune frequency).inside? path =
      (circuit.inside? path).map (retune frequency)) ∧
    circuit.RelatedInside (Node.Retuned frequency) (circuit.retune frequency) ∧
    (circuit.retune earlier).retune frequency = circuit.retune frequency := by
  refine ⟨⟨circuit.clockPlaces, circuit.nodup_clockPlaces, circuit.length_clockPlaces,
    fun _ _ => mem_clockPlaces⟩, clockCount_pos_iff, oscillator?_retune frequency circuit,
    inside?_retune frequency circuit, fun path inner leads => ?_,
    circuit.retune_retune earlier frequency⟩
  exact ⟨inner.retune frequency, by rw [inside?_retune, leads]; rfl, inner.related_retuned frequency⟩

end Circuit

end Breadboard
