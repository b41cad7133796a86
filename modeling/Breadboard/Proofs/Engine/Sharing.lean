import Breadboard.Proofs.Engine.Currency
import Breadboard.Proofs.Engine.Holding

/-!
# Circuits that share a revision

A copy of a circuit shares its revision, and so they share the netlist that is kept of it, until one of
them is edited. As long as circuits of one revision have the same nets this makes no difference. But a node
that is changed in place, through its handle, is not stamped. If the change makes another part of it, a
copy may be evaluated with the netlist of the circuit that it was: a node that took the place of a joint is
then shown the signal of the net, as the joint would be.
-/

namespace Breadboard

/-- Circuits of one revision have the same nets, the circuit and those inside its chips at any depth, and
netlists that are kept have them as well: a table tells all of them by their revisions. -/
def NetlistCache.Suits (cache : NetlistCache) (circuit : Circuit) : Prop :=
  ∃ table, circuit.Tabled table ∧ cache.Knows table

namespace Circuit

/-- Before any netlist is kept, coherence is enough. -/
theorem Coherent.suits {circuit : Circuit} (coherent : circuit.Coherent) :
    NetlistCache.empty.Suits circuit := by
  obtain ⟨table, faithful⟩ := coherent.faithful
  exact ⟨table, faithful.tabled, NetlistCache.knows_empty table⟩

/-- What a node on the level that a path leads into drives at a port. -/
def outputAt? (circuit : Circuit) (path : List NodeId) (id : NodeId) (port : String) : Option Signal :=
  ((circuit.inside? path).bind (Circuit.node? · id)).bind fun node => node.outputs.get? port

/-- A high pin, a joint and an output pin in a row. -/
def junction : Circuit :=
  ⟨⟨[some (.ofPart (.inputPin .one (.bit true))), some (.ofPart .joint),
      some (.ofPart (.outputPin .one (.bit false)))]⟩,
    [⟨⟨0, "out"⟩, ⟨1, "joint"⟩⟩, ⟨⟨1, "joint"⟩, ⟨2, "in"⟩⟩], 1⟩

/-- A chip without ports around a circuit. -/
def sealed (circuit : Circuit) : Chip Circuit :=
  ⟨"TWIN", [], [], circuit, none, .empty⟩

/-- Chips around two copies of the junction, in the second of which another part was put in the place of
the joint, through its handle. -/
def twins (part : Part Circuit) : Circuit :=
  ⟨⟨[some (.ofPart (.chip (sealed junction))),
      some (.ofPart (.chip (sealed (junction.modifyNode 1 fun node => { node with part }))))]⟩, [], 2⟩

/-- What holds of a chip without ports, and of the part in the place of the joint if it is a chip, holds of
all chips of the twins. -/
theorem everyChip_twins {property : Chip Circuit → Prop} {part : Part Circuit}
    (twin : ∀ circuit, property (sealed circuit))
    (inPlace : ∀ body, part = .chip body → property body ∧ body.circuit.EveryChip property) :
    (twins part).EveryChip property := by
  have whole : junction.EveryChip property :=
    everyChip_of_values (by simp [junction, Arena.values, Node.ofPart])
  have changed : (junction.modifyNode 1 fun node => { node with part }).EveryChip property := by
    refine everyChip_of_values ?_
    simpa [junction, modifyNode, Arena.modify, Arena.values, Node.ofPart] using inPlace
  refine everyChip_of_values ?_
  simp only [twins, Arena.values, List.filterMap_cons, id, List.filterMap_nil, List.mem_pair]
  rintro node (rfl | rfl) body isChip
  · obtain rfl := Part.chip.inj isChip
    exact ⟨twin junction, whole⟩
  · obtain rfl := Part.chip.inj isChip
    exact ⟨twin _, changed⟩

end Circuit

end Breadboard
