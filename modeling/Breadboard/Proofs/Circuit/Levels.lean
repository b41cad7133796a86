import Breadboard.Proofs.Circuit.Blueprint

/-!
# The levels of a circuit

A circuit and the circuits inside its chips, at any depth, can be listed. So whether a property holds
throughout a circuit is decided by asking it of each level.
-/

namespace Breadboard

/-- What is listed for a part: what is listed for the circuit of a chip, and nothing otherwise. -/
def Part.listed {Inner : Type} (list : Inner → List Circuit) : Part Inner → List Circuit
  | .chip body => list body.circuit
  | _ => []

namespace Circuit

/-- A circuit and its levels, from those of the circuits inside its chips. -/
def levelsLayer (nodes : Arena (Node (Circuit × List Circuit))) (wires : List Wire) (revision : Revision) :
    Circuit × List Circuit :=
  let here : Circuit := ⟨nodes.map (Node.map Prod.fst), wires, revision⟩
  (here, here :: nodes.values.flatMap fun node => node.part.listed Prod.snd)

/-- The circuit itself, and all circuits inside its chips, at any depth. -/
def levels (circuit : Circuit) : List Circuit :=
  (fold levelsLayer circuit).2

/-- The levels come with the circuit itself.

Proof: by induction over the nesting. -/
theorem fst_levelsLayer (circuit : Circuit) : (fold levelsLayer circuit).1 = circuit := by
  induction circuit using nesting_induction with
  | step circuit inductionHypothesis =>
    have nodes :
        (circuit.nodes.map (Node.map (fold levelsLayer))).map (Node.map Prod.fst) = circuit.nodes := by
      refine Arena.ext_get? (by simp [Arena.map]) fun id => ?_
      rw [Arena.get?_map, Arena.get?_map, Option.map_map]
      cases found : circuit.nodes.get? id with
      | none => rfl
      | some node =>
        obtain ⟨label, position, part, inputs, outputs⟩ := node
        cases part with
        | chip body =>
          have inner := inductionHypothesis id _ body found rfl
          simp only [Option.map_some, Function.comp_apply, Node.map, Part.map, Chip.map, inner]
        | _ => rfl
    rw [fold_eq, levelsLayer, nodes]
    cases circuit
    rfl

/-- The levels of a circuit are the circuit and, node by node, the levels of the circuits inside its chips. -/
theorem levels_eq (circuit : Circuit) :
    circuit.levels = circuit :: circuit.nodes.values.flatMap fun node => node.part.listed levels := by
  have here := circuit.fst_levelsLayer
  rw [fold_eq] at here
  have nodes : ∀ slots : List (Option (Node Circuit)),
      ((slots.map (Option.map (Node.map (fold levelsLayer)))).filterMap id).flatMap
          (fun node => node.part.listed Prod.snd) =
        (slots.filterMap id).flatMap fun node => node.part.listed levels := by
    intro slots
    induction slots with
    | nil => rfl
    | cons slot rest inductionHypothesis =>
      cases slot with
      | none => exact inductionHypothesis
      | some node =>
        obtain ⟨label, position, part, inputs, outputs⟩ := node
        have first : (part.map (fold levelsLayer)).listed Prod.snd = part.listed levels := by
          cases part <;> rfl
        exact congrArg₂ (· ++ ·) first inductionHypothesis
  rw [levels, fold_eq]
  exact congrArg₂ List.cons here (nodes circuit.nodes.slots)

/-- The levels are the circuits that the circuit contains.

Proof: by induction over the nesting. -/
theorem mem_levels {circuit inner : Circuit} : inner ∈ circuit.levels ↔ circuit.Contains inner := by
  induction circuit using nesting_induction with
  | step circuit inductionHypothesis =>
    rw [levels_eq, List.mem_cons, contains_iff, List.mem_flatMap]
    refine or_congr_right ?_
    constructor
    · rintro ⟨node, isNode, deeper⟩
      obtain ⟨id, found⟩ := Arena.mem_values.mp isNode
      obtain ⟨label, position, part, inputs, outputs⟩ := node
      cases part with
      | chip body =>
        exact ⟨id, _, body, found, rfl, (inductionHypothesis id _ body found rfl).mp deeper⟩
      | _ => cases deeper
    · rintro ⟨id, ⟨label, position, part, inputs, outputs⟩, body, found, isChip, contained⟩
      obtain rfl : part = .chip body := isChip
      exact ⟨_, Arena.mem_values.mpr ⟨id, found⟩,
        (inductionHypothesis id _ body found rfl).mpr contained⟩

instance {property : Circuit → Prop} [DecidablePred property] (circuit : Circuit) :
    Decidable (circuit.Throughout property) :=
  decidable_of_iff (∀ inner ∈ circuit.levels, property inner)
    (forall_congr' fun _ => imp_congr_left mem_levels)

/-- A property of nodes holds of all that handles name if it does of all that the slots hold. -/
theorem forall_values_iff {property : Node Circuit → Prop} {circuit : Circuit} :
    (∀ node ∈ circuit.nodes.values, property node) ↔
      ∀ id node, circuit.node? id = some node → property node := by
  constructor
  · exact fun each id node found => each node (Arena.mem_values.mpr ⟨id, found⟩)
  · intro each node member
    obtain ⟨id, found⟩ := Arena.mem_values.mp member
    exact each id node found

instance {property : Node Circuit → Prop} [DecidablePred property] (circuit : Circuit) :
    Decidable (∀ id node, circuit.node? id = some node → property node) :=
  decidable_of_iff _ forall_values_iff

end Circuit

end Breadboard
