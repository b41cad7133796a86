import Breadboard.Proofs.Net.Roles
import Mathlib.Data.List.Forall2
import Mathlib.Data.List.Perm.Basic

/-!
# Drawing a circuit in another way

A circuit can be drawn in another way: its nodes in other slots, its wires in another order, and any of
them from the other end. Nets are then numbered in another way, and sources, sinks and joints stand in
another order, but each net joins the same ports.
-/

namespace Breadboard

/-- The terminal, its node having another handle. -/
def Terminal.renumbered (rename : NodeId → NodeId) (terminal : Terminal) : Terminal :=
  ⟨rename terminal.node, terminal.port⟩

/-- The wire, the nodes at its ends having other handles. -/
def Wire.renumbered (rename : NodeId → NodeId) (wire : Wire) : Wire :=
  ⟨wire.first.renumbered rename, wire.second.renumbered rename⟩

/-- The wire drawn from the other end. -/
def Wire.reversed (wire : Wire) : Wire :=
  ⟨wire.second, wire.first⟩

/-- The port, its node having another handle. -/
def WiredPort.renumbered (rename : NodeId → NodeId) (port : WiredPort) : WiredPort :=
  ⟨port.terminal.renumbered rename, port.shape⟩

@[simp] theorem Terminal.renumbered_self :
    Terminal.renumbered (fun node => node) = fun terminal => terminal :=
  rfl

@[simp] theorem WiredPort.renumbered_self : WiredPort.renumbered (fun node => node) = fun port => port :=
  rfl

/-- The second circuit is the first one drawn in another way: its nodes stand in other slots, all further
slots are vacant, and its wires are listed in another order, each from one end or the other. -/
structure Circuit.Redrawn (rename : NodeId → NodeId) (before after : Circuit) : Prop where
  injective : Function.Injective rename
  node? : ∀ id, after.node? (rename id) = before.node? id
  vacant : ∀ id, (∀ original, rename original ≠ id) → after.node? id = none
  wires : ∃ drawn, drawn.Perm (before.wires.map (Wire.renumbered rename)) ∧
    List.Forall₂ (fun wire original => wire = original ∨ wire = original.reversed) after.wires drawn

variable {rename : NodeId → NodeId}

/-- Different handles make different terminals. -/
theorem Terminal.renumbered_injective (injective : Function.Injective rename) :
    Function.Injective (Terminal.renumbered rename) := by
  rintro ⟨leftNode, leftPort⟩ ⟨rightNode, rightPort⟩ same
  simp only [renumbered, Terminal.mk.injEq] at same ⊢
  exact ⟨injective same.1, same.2⟩

/-- Different handles make different ports. -/
theorem WiredPort.renumbered_injective (injective : Function.Injective rename) :
    Function.Injective (WiredPort.renumbered rename) := by
  rintro ⟨leftTerminal, leftShape⟩ ⟨rightTerminal, rightShape⟩ same
  simp only [renumbered, WiredPort.mk.injEq] at same ⊢
  exact ⟨Terminal.renumbered_injective injective same.1, same.2⟩

/-- Lists that are related item by item have a related item for each. -/
theorem exists_related {α β : Type} {relation : α → β → Prop} {left : List α} {right : List β}
    (related : List.Forall₂ relation left right) {item : α} (member : item ∈ left) :
    ∃ other ∈ right, relation item other := by
  induction related with
  | nil => cases member
  | cons head _ inductionHypothesis =>
    rcases List.mem_cons.mp member with rfl | later
    · exact ⟨_, List.mem_cons_self, head⟩
    · obtain ⟨other, inRest, here⟩ := inductionHypothesis later
      exact ⟨other, List.mem_cons_of_mem _ inRest, here⟩

namespace Circuit.Redrawn

variable {before after : Circuit} (redrawn : Redrawn rename before after)
include redrawn

/-- A wire of the second circuit was drawn from a wire of the first one. -/
theorem origin {wire : Wire} (drawn : wire ∈ after.wires) :
    ∃ original ∈ before.wires,
      wire = original.renumbered rename ∨ wire = (original.renumbered rename).reversed := by
  obtain ⟨list, perm, related⟩ := redrawn.wires
  obtain ⟨turned, member, here⟩ := exists_related related drawn
  obtain ⟨original, inBefore, rfl⟩ := List.mem_map.mp (perm.mem_iff.mp member)
  exact ⟨original, inBefore, here⟩

/-- A wire of the first circuit was drawn in the second one. -/
theorem image {original : Wire} (drawn : original ∈ before.wires) :
    ∃ wire ∈ after.wires,
      wire = original.renumbered rename ∨ wire = (original.renumbered rename).reversed := by
  obtain ⟨list, perm, related⟩ := redrawn.wires
  have member : original.renumbered rename ∈ list := perm.mem_iff.mpr (List.mem_map_of_mem drawn)
  exact exists_related (List.Forall₂.flip (R := fun turned wire =>
    wire = turned ∨ wire = turned.reversed) related) member

/-- Ports are found alike. -/
theorem wiredPort? (terminal : Terminal) :
    after.wiredPort? (terminal.renumbered rename) =
      (before.wiredPort? terminal).map (WiredPort.renumbered rename) := by
  rw [Circuit.wiredPort?, Circuit.wiredPort?, Option.map_map]
  rw [show (terminal.renumbered rename).node = rename terminal.node from rfl, redrawn.node?]
  congr 1
  funext node
  have samePort : (terminal.renumbered rename).port = terminal.port := rfl
  simp only [Function.comp_apply, WiredPort.renumbered, samePort]
  cases (node.portShape terminal.port).joint <;> rfl

/-- The ports on the wires are the same. -/
theorem mem_wiredPorts {port : WiredPort} :
    port ∈ after.wiredPorts ↔ ∃ original ∈ before.wiredPorts, original.renumbered rename = port := by
  have turned (wire : Wire) (terminal : Terminal) :
      terminal ∈ (wire.renumbered rename).reversed.ends ↔ terminal ∈ (wire.renumbered rename).ends := by
    simp only [Wire.ends, Wire.reversed, List.mem_cons, List.not_mem_nil, or_false]
    exact or_comm
  have renumberedEnds (wire : Wire) : (wire.renumbered rename).ends =
      wire.ends.map (Terminal.renumbered rename) := rfl
  simp only [Circuit.mem_wiredPorts]
  constructor
  · rintro ⟨wire, drawn, terminal, atEnd, found⟩
    obtain ⟨original, inBefore, isWire⟩ := redrawn.origin drawn
    have atEither : terminal ∈ (original.renumbered rename).ends := by
      rcases isWire with rfl | rfl
      · exact atEnd
      · exact (turned original terminal).mp atEnd
    rw [renumberedEnds, List.mem_map] at atEither
    obtain ⟨named, atOriginal, rfl⟩ := atEither
    rw [redrawn.wiredPort?, Option.map_eq_some_iff] at found
    obtain ⟨originalPort, foundBefore, rfl⟩ := found
    exact ⟨originalPort, ⟨original, inBefore, named, atOriginal, foundBefore⟩, rfl⟩
  · rintro ⟨originalPort, ⟨original, inBefore, named, atOriginal, foundBefore⟩, rfl⟩
    obtain ⟨wire, drawn, isWire⟩ := redrawn.image inBefore
    have atEither : named.renumbered rename ∈ (original.renumbered rename).ends := by
      rw [renumberedEnds]
      exact List.mem_map_of_mem atOriginal
    refine ⟨wire, drawn, named.renumbered rename, ?_, ?_⟩
    · rcases isWire with rfl | rfl
      · exact atEither
      · exact (turned original _).mpr atEither
    · rw [redrawn.wiredPort?, foundBefore]
      rfl

/-- Terminals are live alike. -/
theorem isLive (terminal : Terminal) :
    after.isLive (terminal.renumbered rename) = before.isLive terminal := by
  rw [Circuit.isLive, Circuit.isLive]
  exact congrArg Option.isSome (redrawn.node? terminal.node)

/-- Terminals are folded alike. -/
theorem folded (terminal : Terminal) :
    after.folded (terminal.renumbered rename) = (before.folded terminal).renumbered rename := by
  rw [Circuit.folded, Circuit.folded]
  rw [show (terminal.renumbered rename).node = rename terminal.node from rfl, redrawn.node?]
  split <;> rfl

/-- Terminals are adjacent alike, and adjacent to terminals of the first circuit only. -/
theorem adjacent_iff {terminal next : Terminal} :
    after.Adjacent (terminal.renumbered rename) next ↔
      ∃ original, before.Adjacent terminal original ∧ original.renumbered rename = next := by
  have injective := Terminal.renumbered_injective redrawn.injective
  constructor
  · rintro ⟨wire, drawn, liveFirst, liveSecond, ends⟩
    obtain ⟨original, inBefore, rfl | rfl⟩ := redrawn.origin drawn
    · simp only [Wire.renumbered, redrawn.isLive, redrawn.folded] at liveFirst liveSecond ends
      rcases ends with ⟨here, rfl⟩ | ⟨rfl, here⟩
      · exact ⟨_, ⟨original, inBefore, liveFirst, liveSecond, .inl ⟨injective here, rfl⟩⟩, rfl⟩
      · exact ⟨_, ⟨original, inBefore, liveFirst, liveSecond, .inr ⟨rfl, injective here⟩⟩, rfl⟩
    · simp only [Wire.renumbered, Wire.reversed, redrawn.isLive, redrawn.folded]
        at liveFirst liveSecond ends
      rcases ends with ⟨here, rfl⟩ | ⟨rfl, here⟩
      · exact ⟨_, ⟨original, inBefore, liveSecond, liveFirst, .inr ⟨rfl, injective here⟩⟩, rfl⟩
      · exact ⟨_, ⟨original, inBefore, liveSecond, liveFirst, .inl ⟨injective here, rfl⟩⟩, rfl⟩
  · rintro ⟨other, ⟨original, inBefore, liveFirst, liveSecond, ends⟩, rfl⟩
    obtain ⟨wire, drawn, rfl | rfl⟩ := redrawn.image inBefore
    · refine ⟨_, drawn, ?_, ?_, ?_⟩
      · exact (redrawn.isLive original.first).trans liveFirst
      · exact (redrawn.isLive original.second).trans liveSecond
      · simp only [Wire.renumbered, redrawn.folded]
        rcases ends with ⟨rfl, rfl⟩ | ⟨rfl, rfl⟩
        · exact .inl ⟨rfl, rfl⟩
        · exact .inr ⟨rfl, rfl⟩
    · refine ⟨_, drawn, ?_, ?_, ?_⟩
      · exact (redrawn.isLive original.second).trans liveSecond
      · exact (redrawn.isLive original.first).trans liveFirst
      · simp only [Wire.renumbered, Wire.reversed, redrawn.folded]
        rcases ends with ⟨rfl, rfl⟩ | ⟨rfl, rfl⟩
        · exact .inr ⟨rfl, rfl⟩
        · exact .inl ⟨rfl, rfl⟩

/-- Terminals are linked alike.

Proof: in either direction by induction on the path, wire by wire. -/
theorem linked_iff {s t : Terminal} :
    after.Linked (s.renumbered rename) (t.renumbered rename) ↔ before.Linked s t := by
  have injective := Terminal.renumbered_injective redrawn.injective
  constructor
  · intro linked
    have reached {u : Terminal} (path : after.Linked (s.renumbered rename) u) :
        ∃ original, before.Linked s original ∧ original.renumbered rename = u := by
      induction path with
      | refl => exact ⟨s, .refl, rfl⟩
      | tail _ adjacent inductionHypothesis =>
        obtain ⟨middle, linkedBefore, rfl⟩ := inductionHypothesis
        obtain ⟨next, adjacentBefore, rfl⟩ := redrawn.adjacent_iff.mp adjacent
        exact ⟨next, linkedBefore.tail adjacentBefore, rfl⟩
    obtain ⟨original, linkedBefore, same⟩ := reached linked
    exact injective same ▸ linkedBefore
  · intro linked
    induction linked with
    | refl => exact .refl
    | tail _ adjacent inductionHypothesis =>
      exact inductionHypothesis.tail (redrawn.adjacent_iff.mpr ⟨_, adjacent, rfl⟩)

/-- The class of a port that is drawn in another way is the class of the port, drawn in that way. -/
theorem classPorts_perm {port : WiredPort} {root : Fin before.wiredPorts.length}
    {root' : Fin after.wiredPorts.length} (inClass : port ∈ before.classPorts root)
    (inClass' : port.renumbered rename ∈ after.classPorts root') :
    (after.classPorts root').Perm ((before.classPorts root).map (WiredPort.renumbered rename)) := by
  refine (List.perm_ext_iff_of_nodup (nodup_classPorts_root root') ?_).mpr fun drawn => ?_
  · exact (nodup_classPorts_root root).map (WiredPort.renumbered_injective redrawn.injective)
  · rw [mem_classPorts_iff_linked inClass', redrawn.mem_wiredPorts, List.mem_map]
    constructor
    · rintro ⟨⟨original, listed, rfl⟩, linked⟩
      exact ⟨original, (mem_classPorts_iff_linked inClass).mpr
        ⟨listed, redrawn.linked_iff.mp linked⟩, rfl⟩
    · rintro ⟨original, member, rfl⟩
      obtain ⟨listed, linked⟩ := (mem_classPorts_iff_linked inClass).mp member
      exact ⟨⟨original, listed, rfl⟩, redrawn.linked_iff.mpr linked⟩

end Circuit.Redrawn

/-- The second net is the first one drawn in another way. -/
structure Net.Redraws (rename : NodeId → NodeId) (before after : Net) : Prop where
  width : after.width = before.width
  sources : after.sources.Perm (before.sources.map (Terminal.renumbered rename))
  sinks : after.sinks.Perm (before.sinks.map (Terminal.renumbered rename))
  joints : after.joints.Perm (before.joints.map rename)

/-- The net of ports that are drawn in another way is the net of the ports, drawn in that way. -/
theorem Net.redraws_ofPorts {before after : List WiredPort}
    (perm : after.Perm (before.map (WiredPort.renumbered rename))) (id id' : Nat) :
    (Net.ofPorts id before).Redraws rename (Net.ofPorts id' after) := by
  have plain := perm.filter fun port => !port.shape.joint
  rw [List.filter_map] at plain
  constructor
  · have widest : RightCommutative fun (width : Nat) (port : WiredPort) => max width port.shape.width :=
      ⟨fun width first second => Nat.max_right_comm width first.shape.width second.shape.width⟩
    simp only [Net.ofPorts]
    rw [perm.foldl_eq, List.foldl_map]
    rfl
  · have chosen := (plain.filter (·.shape.role.drives)).map WiredPort.terminal
    rw [List.filter_map, List.map_map] at chosen
    simp only [Net.ofPorts, List.map_map]
    exact chosen
  · have chosen := (plain.filter (·.shape.role.listens)).map WiredPort.terminal
    rw [List.filter_map, List.map_map] at chosen
    simp only [Net.ofPorts, List.map_map]
    exact chosen
  · have chosen := (perm.filter (·.shape.joint)).map fun port => port.terminal.node
    rw [List.filter_map, List.map_map] at chosen
    simp only [Net.ofPorts, List.map_map]
    exact chosen

namespace Circuit.Redrawn

variable {before after : Circuit} (redrawn : Redrawn rename before after)
include redrawn

/-- The nets that a port is on, before and after it is drawn in another way. -/
theorem nets_of_port {port : WiredPort} (listed : port ∈ before.wiredPorts)
    {root : Fin before.wiredPorts.length} (inClass : port ∈ before.classPorts root) (id : Nat) :
    ∃ net ∈ (Netlist.build after).nets,
      (Net.ofPorts id (before.classPorts root)).Redraws rename net := by
  have drawn : port.renumbered rename ∈ after.wiredPorts :=
    redrawn.mem_wiredPorts.mpr ⟨port, listed, rfl⟩
  obtain ⟨id', root', member, inClass'⟩ := exists_net_of_mem_wiredPorts drawn
  exact ⟨_, member, Net.redraws_ofPorts (redrawn.classPorts_perm inClass inClass') id id'⟩

/-- Every net of the first circuit is drawn in the second one. -/
theorem net_image {net : Net} (member : net ∈ (Netlist.build before).nets) :
    ∃ net' ∈ (Netlist.build after).nets, net.Redraws rename net' := by
  obtain ⟨id, root, atClass, rfl⟩ := mem_build_nets.mp member
  obtain ⟨place, rootOfPlace⟩ := exists_place_of_class atClass
  exact redrawn.nets_of_port (List.get_mem ..) (mem_classPorts.mpr ⟨place, rfl, rootOfPlace⟩) id

/-- Every net of the second circuit was drawn from one of the first. -/
theorem net_origin {net' : Net} (member' : net' ∈ (Netlist.build after).nets) :
    ∃ net ∈ (Netlist.build before).nets, net.Redraws rename net' := by
  obtain ⟨id', root', atClass', rfl⟩ := mem_build_nets.mp member'
  obtain ⟨place', rootOfPlace'⟩ := exists_place_of_class atClass'
  obtain ⟨port, listed, here⟩ := redrawn.mem_wiredPorts.mp (List.get_mem after.wiredPorts place')
  have inClass' : port.renumbered rename ∈ after.classPorts root' :=
    mem_classPorts.mpr ⟨place', here.symm, rootOfPlace'⟩
  obtain ⟨id, root, member, inClass⟩ := exists_net_of_mem_wiredPorts listed
  exact ⟨_, member, Net.redraws_ofPorts (redrawn.classPorts_perm inClass inClass') id id'⟩

end Circuit.Redrawn

end Breadboard
