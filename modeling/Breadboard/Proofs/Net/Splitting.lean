import Breadboard.Circuit.Edit
import Breadboard.Proofs.Net.Redrawing

/-!
# Splitting a wire with a joint

A wire is split by a new joint: in its place stand two wires, each from one of its ends to some port of
the joint. All ports of a joint are one, so the joint links the two ends as the wire did, and nothing
else, unless another wire already named the handle that the joint was given. So nets join the ports that
they joined, at the same widths, and the joint is on the net of the wire.
-/

namespace Breadboard

/-- The second circuit is the first one with a wire split by a joint. The joint stands where no node
stood, all other nodes stay, and in the place of the wire, wherever it was drawn, two wires join its ends
to ports of the joint. -/
structure Circuit.Splits (wire : Wire) (joint : NodeId) (before after : Circuit) : Prop where
  drawn : wire ∈ before.wires
  vacant : before.node? joint = none
  isJoint : ∃ node, after.node? joint = some node ∧ node.isJoint = true
  node? : ∀ id, id ≠ joint → after.node? id = before.node? id
  wires : ∃ near far nearPort farPort, near.joins wire.first ⟨joint, nearPort⟩ = true ∧
    far.joins ⟨joint, farPort⟩ wire.second = true ∧
    after.wires.Perm (near :: far :: before.wires.erase wire)

/-- The terminal at the first live end of a wire. -/
def Circuit.anchor (circuit : Circuit) (wire : Wire) : Terminal :=
  circuit.folded (if circuit.isLive wire.first then wire.first else wire.second)

/-- The wires that already name the handle of the joint lead to the net of the wire only, or to nodes that
are missing. -/
def Circuit.Unclaimed (wire : Wire) (joint : NodeId) (before : Circuit) : Prop :=
  ∀ other ∈ before.wires, ∀ (port : String) (terminal : Terminal),
    other.joins ⟨joint, port⟩ terminal = true → before.isLive terminal = true →
      before.Linked (before.anchor wire) (before.folded terminal)

/-- The terminal that stood for another one before the wire was split: the first live end of the wire
stood for the joint. -/
def Circuit.origin (circuit : Circuit) (wire : Wire) (joint : NodeId) (terminal : Terminal) : Terminal :=
  if terminal.node = joint then circuit.anchor wire else terminal

/-- The first live end of the wire stood for the joint. -/
theorem Circuit.origin_joint {circuit : Circuit} {wire : Wire} {joint : NodeId} {terminal : Terminal}
    (same : terminal.node = joint) : circuit.origin wire joint terminal = circuit.anchor wire :=
  if_pos same

/-- The one terminal of a joint. -/
def Terminal.socket (joint : NodeId) : Terminal :=
  ⟨joint, "joint"⟩

@[simp] theorem Circuit.origin_socket (circuit : Circuit) (wire : Wire) (joint : NodeId) :
    circuit.origin wire joint (.socket joint) = circuit.anchor wire :=
  if_pos rfl

/-- The one port of a joint. -/
def WiredPort.socket (joint : NodeId) : WiredPort :=
  ⟨.socket joint, .ofJoint⟩

/-- A wire that joins two terminals has these ends. -/
theorem Wire.joins_iff {wire : Wire} {a b : Terminal} :
    wire.joins a b = true ↔
      (wire.first = a ∧ wire.second = b) ∨ (wire.first = b ∧ wire.second = a) := by
  simp [joins]

/-- The ends of a wire that joins two terminals are these. -/
theorem Wire.mem_ends_of_joins {wire : Wire} {a b terminal : Terminal} (joins : wire.joins a b = true) :
    terminal ∈ wire.ends ↔ terminal = a ∨ terminal = b := by
  rw [ends, List.mem_pair]
  rcases joins_iff.mp joins with ⟨rfl, rfl⟩ | ⟨rfl, rfl⟩
  · exact Iff.rfl
  · exact or_comm

/-- A wire whose ends are live makes them adjacent. -/
theorem Circuit.adjacent_of_joins {circuit : Circuit} {wire : Wire} {a b : Terminal}
    (drawn : wire ∈ circuit.wires) (joins : wire.joins a b = true) (liveA : circuit.isLive a = true)
    (liveB : circuit.isLive b = true) : circuit.Adjacent (circuit.folded a) (circuit.folded b) := by
  rcases Wire.joins_iff.mp joins with ⟨rfl, rfl⟩ | ⟨rfl, rfl⟩
  · exact ⟨wire, drawn, liveA, liveB, .inl ⟨rfl, rfl⟩⟩
  · exact ⟨wire, drawn, liveB, liveA, .inr ⟨rfl, rfl⟩⟩

/-- Of wires of which one joins two terminals, disconnecting the two removes this one. -/
theorem Circuit.wires_disconnect {circuit : Circuit} {wire : Wire} (drawn : wire ∈ circuit.wires)
    (once : circuit.joinCount wire.first wire.second = 1) (fresh : Revision) :
    (circuit.disconnect wire.first wire.second fresh).wires.Perm (circuit.wires.erase wire) := by
  have joining : (circuit.wires.filter fun other => other.joins wire.first wire.second) = [wire] := by
    obtain ⟨only, isOnly⟩ := List.length_eq_one_iff.mp once
    have member : wire ∈ circuit.wires.filter fun other => other.joins wire.first wire.second :=
      List.mem_filter.mpr ⟨drawn, Wire.joins_iff.mpr (.inl ⟨rfl, rfl⟩)⟩
    rw [isOnly, List.mem_singleton] at member
    rw [isOnly, member]
  have parted := List.filter_append_perm (fun other => other.joins wire.first wire.second) circuit.wires
  rw [joining, List.singleton_append] at parted
  have left := parted.erase wire
  rw [List.erase_cons_head] at left
  rw [disconnect, if_neg (by rw [once]; decide)]
  exact left

/-- A wire is split by the edits that add a joint, disconnect the ends of the wire, and connect either of
them to a port of the joint, unless another wire joins the same ends. -/
theorem Circuit.splits_of_edits {circuit : Circuit} {wire : Wire} (drawn : wire ∈ circuit.wires)
    (once : circuit.joinCount wire.first wire.second = 1) (nearPort farPort : String)
    (added cut nearer farther : Revision) :
    Splits wire circuit.nodes.next circuit
      ((((circuit.addNode (.ofPart .joint) added).disconnect wire.first wire.second cut).connect
        wire.first ⟨circuit.nodes.next, nearPort⟩ nearer).connect
        ⟨circuit.nodes.next, farPort⟩ wire.second farther) := by
  have nodes : ((circuit.addNode (.ofPart .joint) added).disconnect wire.first wire.second cut).nodes =
      circuit.nodes.alloc (.ofPart .joint) := by
    rw [disconnect]
    split <;> rfl
  refine ⟨drawn, ?_, ⟨.ofPart .joint, ?_, rfl⟩, fun id other => ?_, ?_⟩
  · rw [node?, Arena.get?, Arena.next, List.getElem?_eq_none (Nat.le_refl _)]
    rfl
  · rw [node?, connect, connect, nodes, Arena.get?_alloc, if_pos rfl]
  · rw [node?, connect, connect, nodes, Arena.get?_alloc, if_neg (Ne.symm other), node?]
  · have rest : ((circuit.addNode (.ofPart .joint) added).disconnect wire.first wire.second
        cut).wires.Perm (circuit.wires.erase wire) :=
      wires_disconnect (show wire ∈ (circuit.addNode (.ofPart .joint) added).wires from drawn) once cut
    refine ⟨⟨wire.first, ⟨circuit.nodes.next, nearPort⟩⟩, ⟨⟨circuit.nodes.next, farPort⟩, wire.second⟩,
      nearPort, farPort, Wire.joins_iff.mpr (.inl ⟨rfl, rfl⟩), Wire.joins_iff.mpr (.inl ⟨rfl, rfl⟩), ?_⟩
    rw [connect, connect, List.append_assoc]
    exact List.perm_append_comm.trans ((rest.cons _).cons _)

namespace Circuit.Splits

variable {wire : Wire} {joint : NodeId} {before after : Circuit} (splits : Splits wire joint before after)
include splits

/-- A node that was there is not the joint. -/
theorem other_of_isLive {terminal : Terminal} (live : before.isLive terminal = true) :
    terminal.node ≠ joint := by
  intro same
  rw [isLive, same, splits.vacant] at live
  cases live

/-- The ports of the joint are live. -/
theorem isLive_joint {terminal : Terminal} (same : terminal.node = joint) :
    after.isLive terminal = true := by
  obtain ⟨node, found, _⟩ := splits.isJoint
  rw [isLive, same, found]
  rfl

/-- Other terminals are live as before. -/
theorem isLive_other {terminal : Terminal} (other : terminal.node ≠ joint) :
    after.isLive terminal = before.isLive terminal := by
  rw [isLive, isLive, splits.node? _ other]

/-- The ports of the joint are its one terminal. -/
theorem folded_joint {terminal : Terminal} (same : terminal.node = joint) :
    after.folded terminal = .socket joint := by
  obtain ⟨node, found, isJoint⟩ := splits.isJoint
  have joints : (after.node? terminal.node).any Node.isJoint = true := by
    rw [same, found]
    exact isJoint
  rw [folded, if_pos joints, Terminal.socket, same]

/-- Other terminals are folded as before. -/
theorem folded_other {terminal : Terminal} (other : terminal.node ≠ joint) :
    after.folded terminal = before.folded terminal := by
  rw [folded, folded, splits.node? _ other]

/-- Other terminals stood for themselves. -/
theorem origin_other {terminal : Terminal} (other : terminal.node ≠ joint) :
    before.origin wire joint (after.folded terminal) = before.folded terminal := by
  rw [splits.folded_other other, origin, if_neg (by rwa [folded_node])]

/-- Either end of the wire was linked to its first live end. -/
theorem linked_end {terminal : Terminal} (isEnd : terminal = wire.first ∨ terminal = wire.second)
    (live : after.isLive terminal = true) :
    before.Linked (before.anchor wire) (before.origin wire joint (after.folded terminal)) := by
  by_cases same : terminal.node = joint
  · rw [origin_joint ((folded_node _).trans same)]
    exact .refl
  · rw [splits.isLive_other same] at live
    rw [splits.origin_other same, anchor]
    split
    · next first =>
      rcases isEnd with rfl | rfl
      · exact .refl
      · exact .single ⟨wire, splits.drawn, first, live, .inl ⟨rfl, rfl⟩⟩
    · next first =>
      rcases isEnd with rfl | rfl
      · exact absurd live first
      · exact .refl

/-- A wire leads from the first end to the joint. -/
theorem exists_near : ∃ near ∈ after.wires, ∃ port, near.joins wire.first ⟨joint, port⟩ = true := by
  obtain ⟨near, far, nearPort, _, isNear, _, perm⟩ := splits.wires
  exact ⟨near, perm.mem_iff.mpr List.mem_cons_self, nearPort, isNear⟩

/-- A wire leads from the joint to the second end. -/
theorem exists_far : ∃ far ∈ after.wires, ∃ port, far.joins ⟨joint, port⟩ wire.second = true := by
  obtain ⟨near, far, _, farPort, _, isFar, perm⟩ := splits.wires
  exact ⟨far, perm.mem_iff.mpr (List.mem_cons_of_mem _ List.mem_cons_self), farPort, isFar⟩

/-- Wires other than the split one are still drawn. -/
theorem drawn_other {other : Wire} (drawn : other ∈ before.wires) (different : other ≠ wire) :
    other ∈ after.wires := by
  obtain ⟨near, far, _, _, _, _, perm⟩ := splits.wires
  refine perm.mem_iff.mpr (List.mem_cons_of_mem _ (List.mem_cons_of_mem _ ?_))
  exact (List.mem_erase_of_ne different).mpr drawn

/-- A wire that is drawn afterwards leads from an end to the joint or was drawn before. -/
theorem drawn_cases {drawn : Wire} (member : drawn ∈ after.wires) :
    (∃ port, drawn.joins wire.first ⟨joint, port⟩ = true) ∨
      (∃ port, drawn.joins ⟨joint, port⟩ wire.second = true) ∨ drawn ∈ before.wires.erase wire := by
  obtain ⟨near, far, nearPort, farPort, isNear, isFar, perm⟩ := splits.wires
  rcases List.mem_cons.mp (perm.mem_iff.mp member) with rfl | later
  · exact .inl ⟨nearPort, isNear⟩
  · rcases List.mem_cons.mp later with rfl | others
    · exact .inr (.inl ⟨farPort, isFar⟩)
    · exact .inr (.inr others)

/-- The joint is linked to the first live end. -/
theorem linked_anchor (anchored : before.isLive wire.first = true ∨ before.isLive wire.second = true) :
    after.Linked (.socket joint) (before.anchor wire) := by
  by_cases first : before.isLive wire.first = true
  · have other := splits.other_of_isLive first
    obtain ⟨near, drawn, port, joins⟩ := splits.exists_near
    have adjacent := adjacent_of_joins drawn joins ((splits.isLive_other other).trans first)
      (splits.isLive_joint rfl)
    rw [splits.folded_other other, splits.folded_joint rfl] at adjacent
    rw [anchor, if_pos first]
    exact Linked.symm (.single adjacent)
  · have second := anchored.resolve_left first
    have other := splits.other_of_isLive second
    obtain ⟨far, drawn, port, joins⟩ := splits.exists_far
    have adjacent := adjacent_of_joins drawn joins (splits.isLive_joint rfl)
      ((splits.isLive_other other).trans second)
    rw [splits.folded_other other, splits.folded_joint rfl] at adjacent
    rw [anchor, if_neg first]
    exact .single adjacent

/-- What was linked is linked: the joint links the ends of the wire. -/
theorem linked_of_before {s t : Terminal} (linked : before.Linked s t) : after.Linked s t := by
  have step (s t : Terminal) (adjacent : before.Adjacent s t) : after.Linked s t := by
    obtain ⟨drawn, member, liveFirst, liveSecond, ends⟩ := adjacent
    have otherFirst := splits.other_of_isLive liveFirst
    have otherSecond := splits.other_of_isLive liveSecond
    have liveFirst' := (splits.isLive_other otherFirst).trans liveFirst
    have liveSecond' := (splits.isLive_other otherSecond).trans liveSecond
    have joined : after.Linked (before.folded drawn.first) (before.folded drawn.second) := by
      rw [← splits.folded_other otherFirst, ← splits.folded_other otherSecond]
      by_cases same : drawn = wire
      · subst same
        obtain ⟨near, nearDrawn, nearPort, isNear⟩ := splits.exists_near
        obtain ⟨far, farDrawn, farPort, isFar⟩ := splits.exists_far
        have toJoint := adjacent_of_joins nearDrawn isNear liveFirst' (splits.isLive_joint rfl)
        have fromJoint := adjacent_of_joins farDrawn isFar (splits.isLive_joint rfl) liveSecond'
        have onePort : after.folded ⟨joint, farPort⟩ = after.folded ⟨joint, nearPort⟩ :=
          (splits.folded_joint rfl).trans (splits.folded_joint rfl).symm
        exact .head toJoint (.single (onePort ▸ fromJoint))
      · exact .single ⟨drawn, splits.drawn_other member same, liveFirst', liveSecond',
          .inl ⟨rfl, rfl⟩⟩
    rcases ends with ⟨rfl, rfl⟩ | ⟨rfl, rfl⟩
    · exact joined
    · exact joined.symm
  exact Relation.reflTransGen_closed step _ _ linked

/-- Every end of the two new wires is an end of the split wire or a port of the joint. -/
theorem origin_of_end {drawn : Wire} (member : drawn ∈ after.wires) {terminal : Terminal}
    (atEnd : terminal ∈ drawn.ends) :
    terminal.node = joint ∨ ∃ original ∈ before.wires, terminal ∈ original.ends := by
  rcases splits.drawn_cases member with ⟨port, joins⟩ | ⟨port, joins⟩ | other
  · rcases (Wire.mem_ends_of_joins joins).mp atEnd with rfl | rfl
    · exact .inr ⟨wire, splits.drawn, List.mem_cons_self⟩
    · exact .inl rfl
  · rcases (Wire.mem_ends_of_joins joins).mp atEnd with rfl | rfl
    · exact .inl rfl
    · exact .inr ⟨wire, splits.drawn, List.mem_cons_of_mem _ List.mem_cons_self⟩
  · exact .inr ⟨drawn, List.mem_of_mem_erase other, atEnd⟩

/-- The ends of the wires are still ends of wires. -/
theorem image_of_end {original : Wire} (member : original ∈ before.wires) {terminal : Terminal}
    (atEnd : terminal ∈ original.ends) : ∃ drawn ∈ after.wires, terminal ∈ drawn.ends := by
  by_cases same : original = wire
  · subst same
    obtain ⟨near, nearDrawn, _, isNear⟩ := splits.exists_near
    obtain ⟨far, farDrawn, _, isFar⟩ := splits.exists_far
    rcases List.mem_pair.mp atEnd with rfl | rfl
    · exact ⟨near, nearDrawn, (Wire.mem_ends_of_joins isNear).mpr (.inl rfl)⟩
    · exact ⟨far, farDrawn, (Wire.mem_ends_of_joins isFar).mpr (.inr rfl)⟩
  · exact ⟨original, splits.drawn_other member same, atEnd⟩

/-- The port of the joint is found at each of its terminals. -/
theorem wiredPort?_joint {terminal : Terminal} (same : terminal.node = joint) :
    after.wiredPort? terminal = some (.socket joint) := by
  obtain ⟨node, found, isJoint⟩ := splits.isJoint
  rw [wiredPort?_eq, splits.folded_joint same, same, found, Option.map_some,
    Node.portShape_of_isJoint isJoint, WiredPort.socket]

/-- Other ports are found as before. -/
theorem wiredPort?_other {terminal : Terminal} (other : terminal.node ≠ joint) :
    after.wiredPort? terminal = before.wiredPort? terminal := by
  rw [wiredPort?_eq, wiredPort?_eq, splits.folded_other other, splits.node? _ other]

/-- The port of the joint is on the wires, together with the ports that were. -/
theorem mem_wiredPorts {port : WiredPort} :
    port ∈ after.wiredPorts ↔ port = .socket joint ∨ port ∈ before.wiredPorts := by
  rw [Circuit.mem_wiredPorts, Circuit.mem_wiredPorts]
  constructor
  · rintro ⟨drawn, member, terminal, atEnd, found⟩
    by_cases same : terminal.node = joint
    · rw [splits.wiredPort?_joint same] at found
      exact .inl (Option.some.inj found).symm
    · rw [splits.wiredPort?_other same] at found
      obtain ⟨original, inBefore, atEnd⟩ := (splits.origin_of_end member atEnd).resolve_left same
      exact .inr ⟨original, inBefore, terminal, atEnd, found⟩
  · rintro (rfl | ⟨original, inBefore, terminal, atEnd, found⟩)
    · obtain ⟨near, drawn, port, isNear⟩ := splits.exists_near
      exact ⟨near, drawn, ⟨joint, port⟩, (Wire.mem_ends_of_joins isNear).mpr (.inr rfl),
        splits.wiredPort?_joint rfl⟩
    · have live : before.isLive terminal = true := by
        rw [← isSome_wiredPort?, found, Option.isSome_some]
      obtain ⟨drawn, member, atEnd⟩ := splits.image_of_end inBefore atEnd
      refine ⟨drawn, member, terminal, atEnd, ?_⟩
      rw [splits.wiredPort?_other (splits.other_of_isLive live), found]

/-- The node of a port that was on the wires is not the joint. -/
theorem other_of_mem_wiredPorts {port : WiredPort} (listed : port ∈ before.wiredPorts) :
    port.terminal.node ≠ joint := by
  obtain ⟨node, found, _⟩ := shape_of_mem_wiredPorts listed
  exact splits.other_of_isLive (by rw [isLive, found, Option.isSome_some])

section Classes

variable (unclaimed : before.Unclaimed wire joint)
include unclaimed

/-- The ends of a wire that is drawn afterwards were linked, the first live end of the split wire standing
for the joint. -/
theorem linked_of_drawn {drawn : Wire} (member : drawn ∈ after.wires)
    (liveFirst : after.isLive drawn.first = true) (liveSecond : after.isLive drawn.second = true) :
    before.Linked (before.origin wire joint (after.folded drawn.first))
      (before.origin wire joint (after.folded drawn.second)) := by
  rcases splits.drawn_cases member with ⟨port, joins⟩ | ⟨port, joins⟩ | other
  · rcases Wire.joins_iff.mp joins with ⟨atFirst, atSecond⟩ | ⟨atFirst, atSecond⟩
    · rw [origin_joint ((folded_node _).trans (congrArg Terminal.node atSecond))]
      exact (splits.linked_end (.inl atFirst) liveFirst).symm
    · rw [origin_joint ((folded_node _).trans (congrArg Terminal.node atFirst))]
      exact splits.linked_end (.inl atSecond) liveSecond
  · rcases Wire.joins_iff.mp joins with ⟨atFirst, atSecond⟩ | ⟨atFirst, atSecond⟩
    · rw [origin_joint ((folded_node _).trans (congrArg Terminal.node atFirst))]
      exact splits.linked_end (.inr atSecond) liveSecond
    · rw [origin_joint ((folded_node _).trans (congrArg Terminal.node atSecond))]
      exact (splits.linked_end (.inr atFirst) liveFirst).symm
  · have claimed := unclaimed drawn (List.mem_of_mem_erase other)
    by_cases first : drawn.first.node = joint <;> by_cases second : drawn.second.node = joint
    · rw [origin_joint ((folded_node _).trans first), origin_joint ((folded_node _).trans second)]
      exact .refl
    · rw [splits.isLive_other second] at liveSecond
      rw [origin_joint ((folded_node _).trans first), splits.origin_other second]
      exact claimed drawn.first.port drawn.second
        (Wire.joins_iff.mpr (.inl ⟨by rw [← first], rfl⟩)) liveSecond
    · rw [splits.isLive_other first] at liveFirst
      rw [origin_joint ((folded_node _).trans second), splits.origin_other first]
      exact (claimed drawn.second.port drawn.first
        (Wire.joins_iff.mpr (.inr ⟨rfl, by rw [← second]⟩)) liveFirst).symm
    · rw [splits.isLive_other first] at liveFirst
      rw [splits.isLive_other second] at liveSecond
      rw [splits.origin_other first, splits.origin_other second]
      exact .single ⟨drawn, List.mem_of_mem_erase other, liveFirst, liveSecond, .inl ⟨rfl, rfl⟩⟩

/-- What is linked was linked, the first live end of the split wire standing for the joint. -/
theorem linked_of_after {s t : Terminal} (linked : after.Linked s t) :
    before.Linked (before.origin wire joint s) (before.origin wire joint t) := by
  induction linked with
  | refl => exact .refl
  | tail _ adjacent inductionHypothesis =>
    obtain ⟨drawn, member, liveFirst, liveSecond, ends⟩ := adjacent
    have joined := splits.linked_of_drawn unclaimed member liveFirst liveSecond
    rcases ends with ⟨rfl, rfl⟩ | ⟨rfl, rfl⟩
    · exact inductionHypothesis.trans joined
    · exact inductionHypothesis.trans joined.symm

/-- Ports that were on the wires are linked as before. -/
theorem linked_iff {s t : Terminal} (otherS : s.node ≠ joint) (otherT : t.node ≠ joint) :
    after.Linked s t ↔ before.Linked s t := by
  refine ⟨fun linked => ?_, splits.linked_of_before⟩
  have originally := splits.linked_of_after unclaimed linked
  rwa [origin, if_neg otherS, origin, if_neg otherT] at originally

variable (anchored : before.isLive wire.first = true ∨ before.isLive wire.second = true)
include anchored

/-- A port that was on the wires is linked to the joint if it was to the first live end of the wire. -/
theorem linked_socket_iff {s : Terminal} (other : s.node ≠ joint) :
    after.Linked s (.socket joint) ↔ before.Linked s (before.anchor wire) := by
  constructor
  · intro linked
    have originally := splits.linked_of_after unclaimed linked
    rwa [origin, if_neg other, origin_socket] at originally
  · intro linked
    exact (splits.linked_of_before linked).trans (splits.linked_anchor anchored).symm

/-- The class of a port gains the port of the joint if it is the class of the first live end of the
wire. -/
theorem mem_classPorts_iff {port other : WiredPort} {root : Fin before.wiredPorts.length}
    {root' : Fin after.wiredPorts.length} (inClass : port ∈ before.classPorts root)
    (inClass' : port ∈ after.classPorts root') :
    other ∈ after.classPorts root' ↔
      (other = .socket joint ∧ before.Linked port.terminal (before.anchor wire)) ∨
        other ∈ before.classPorts root := by
  have old := splits.other_of_mem_wiredPorts (mem_wiredPorts_of_classPorts inClass)
  rw [mem_classPorts_iff_linked inClass', mem_classPorts_iff_linked inClass, splits.mem_wiredPorts]
  constructor
  · rintro ⟨rfl | listed, linked⟩
    · exact .inl ⟨rfl, (splits.linked_socket_iff unclaimed anchored old).mp linked⟩
    · exact .inr ⟨listed, (splits.linked_iff unclaimed old
        (splits.other_of_mem_wiredPorts listed)).mp linked⟩
  · rintro (⟨rfl, linked⟩ | ⟨listed, linked⟩)
    · exact ⟨.inl rfl, (splits.linked_socket_iff unclaimed anchored old).mpr linked⟩
    · exact ⟨.inr listed, splits.linked_of_before linked⟩

end Classes

end Circuit.Splits

/-- The wire ends at the net. -/
def Net.carries (net : Net) (wire : Wire) : Bool :=
  net.has wire.first.node wire.first.port || net.has wire.second.node wire.second.port

/-- The second net is the first one with a wire split by a joint: it joins the same ports and the same
joints, and the new joint if the wire ended at it. -/
structure Net.Splits (wire : Wire) (joint : NodeId) (before after : Net) : Prop where
  width : after.width = before.width
  sources : after.sources.Perm before.sources
  sinks : after.sinks.Perm before.sinks
  joints : after.joints.Perm (if before.carries wire then joint :: before.joints else before.joints)

/-- The net of some ports and of the port of a joint, in any order, is the net of the ports with a wire
split by the joint, if the wire ends there. -/
theorem Net.Splits.of_perm {wire : Wire} {joint : NodeId} {before after : List WiredPort} {id : Nat}
    (id' : Nat)
    (perm : after.Perm
      (if (Net.ofPorts id before).carries wire then .socket joint :: before else before)) :
    (Net.ofPorts id before).Splits wire joint (Net.ofPorts id' after) := by
  have redraws : (Net.ofPorts id (if (Net.ofPorts id before).carries wire then
      .socket joint :: before else before)).Redraws (fun node => node) (Net.ofPorts id' after) :=
    Net.redraws_ofPorts (by rwa [WiredPort.renumbered_self, List.map_id']) id id'
  obtain ⟨width, sources, sinks, joints⟩ := redraws
  rw [Terminal.renumbered_self, List.map_id'] at sources sinks
  rw [List.map_id'] at joints
  refine ⟨width.trans ?_, sources.trans (.of_eq ?_), sinks.trans (.of_eq ?_), joints.trans (.of_eq ?_)⟩
  all_goals split <;> rfl

namespace Circuit

/-- The first live end of a wire is on the wires. -/
theorem exists_place_of_anchor {circuit : Circuit} {wire : Wire} (drawn : wire ∈ circuit.wires)
    (anchored : circuit.isLive wire.first = true ∨ circuit.isLive wire.second = true) :
    ∃ place, (circuit.wiredPorts.get place).terminal = circuit.anchor wire := by
  rw [anchor]
  split
  · next first => exact exists_place_of_end drawn (by simp [Wire.ends]) first
  · next first =>
    exact exists_place_of_end drawn (by simp [Wire.ends]) (anchored.resolve_left first)

/-- A wire ends at the nets of the ports that are linked to its first live end. -/
theorem carries_iff {circuit : Circuit} {wire : Wire} (drawn : wire ∈ circuit.wires)
    {port : WiredPort} {root : Fin circuit.wiredPorts.length}
    (inClass : port ∈ circuit.classPorts root) (id : Nat) :
    (Net.ofPorts id (circuit.classPorts root)).carries wire = true ↔
      circuit.Linked port.terminal (circuit.anchor wire) := by
  have listed := mem_wiredPorts_of_classPorts inClass
  rw [Net.carries, Bool.or_eq_true, has_iff_linked inClass, has_iff_linked inClass, anchor]
  split
  · next first =>
    refine ⟨fun either => either.elim (fun linked => linked) fun linked => ?_, .inl⟩
    have second := isLive_of_linked listed linked
    exact linked.tail ⟨wire, drawn, first, second, .inr ⟨rfl, rfl⟩⟩
  · next first =>
    exact ⟨fun either => either.resolve_left fun linked => first (isLive_of_linked listed linked), .inr⟩

end Circuit

/-- Two numberings that tell the same items apart correspond one to one. -/
theorem exists_bijective_of_fibers {α β γ : Type} {f : α → β} {g : α → γ}
    (reachedF : Function.Surjective f) (reachedG : Function.Surjective g)
    (apart : ∀ a b, f a = f b ↔ g a = g b) :
    ∃ number : β → γ, Function.Bijective number ∧ ∀ a, number (f a) = g a := by
  have numbered (a : α) : g (Function.surjInv reachedF (f a)) = g a :=
    (apart _ _).mp (Function.surjInv_eq reachedF (f a))
  refine ⟨fun b => g (Function.surjInv reachedF b), ⟨fun b c same => ?_, fun c => ?_⟩, numbered⟩
  · have origins := (apart _ _).mpr same
    rwa [Function.surjInv_eq reachedF, Function.surjInv_eq reachedF] at origins
  · obtain ⟨a, rfl⟩ := reachedG c
    exact ⟨f a, numbered a⟩

namespace Circuit.Splits

variable {wire : Wire} {joint : NodeId} {before after : Circuit} (splits : Splits wire joint before after)
  (unclaimed : before.Unclaimed wire joint)
  (anchored : before.isLive wire.first = true ∨ before.isLive wire.second = true)
include splits unclaimed anchored

/-- The nets of a port, before and after the wire is split. -/
theorem net_splits {port : WiredPort} {root : Fin before.wiredPorts.length}
    {root' : Fin after.wiredPorts.length} (inClass : port ∈ before.classPorts root)
    (inClass' : port ∈ after.classPorts root') (id id' : Nat) :
    (Net.ofPorts id (before.classPorts root)).Splits wire joint
      (Net.ofPorts id' (after.classPorts root')) := by
  have members (other : WiredPort) : other ∈ after.classPorts root' ↔
      (other = .socket joint ∧ before.Linked port.terminal (before.anchor wire)) ∨
        other ∈ before.classPorts root :=
    splits.mem_classPorts_iff unclaimed anchored inClass inClass'
  refine .of_perm id' ?_
  split
  · next ends =>
    have linked := (carries_iff splits.drawn inClass id).mp ends
    have fresh : WiredPort.socket joint ∉ before.classPorts root := fun member =>
      splits.other_of_mem_wiredPorts (mem_wiredPorts_of_classPorts member) rfl
    refine (List.perm_ext_iff_of_nodup (nodup_classPorts_root root')
      (List.nodup_cons.mpr ⟨fresh, nodup_classPorts_root root⟩)).mpr fun other => ?_
    rw [members, List.mem_cons]
    exact or_congr_left (and_iff_left linked)
  · next ends =>
    have apart := mt (carries_iff splits.drawn inClass id).mpr ends
    refine (List.perm_ext_iff_of_nodup (nodup_classPorts_root root')
      (nodup_classPorts_root root)).mpr fun other => ?_
    rw [members]
    exact or_iff_right fun socket => apart socket.2

/-- The nets correspond one to one. -/
theorem nets_correspond :
    ∃ number : Fin (Netlist.build before).nets.length → Fin (Netlist.build after).nets.length,
      Function.Bijective number ∧ ∀ id,
        ((Netlist.build before).nets.get id).Splits wire joint
          ((Netlist.build after).nets.get (number id)) := by
  have exists_later (place : Fin before.wiredPorts.length) :
      ∃ place', after.wiredPorts.get place' = before.wiredPorts.get place :=
    List.get_of_mem (splits.mem_wiredPorts.mpr (.inr (List.get_mem ..)))
  choose later atLater using exists_later
  have other (place : Fin before.wiredPorts.length) :
      (before.wiredPorts.get place).terminal.node ≠ joint :=
    splits.other_of_mem_wiredPorts (List.get_mem ..)
  have reached : Function.Surjective fun place => after.netAt (later place) := by
    intro id
    obtain ⟨place', rfl⟩ := netAt_surjective id
    rcases splits.mem_wiredPorts.mp (List.get_mem after.wiredPorts place') with isSocket | listed
    · obtain ⟨place, atAnchor⟩ := exists_place_of_anchor splits.drawn anchored
      refine ⟨place, netAt_eq_iff.mpr ?_⟩
      rw [atLater, atAnchor, isSocket]
      exact (splits.linked_anchor anchored).symm
    · obtain ⟨place, here⟩ := List.get_of_mem listed
      exact ⟨place, congrArg after.netAt
        (after.nodup_wiredPorts.injective_get ((atLater place).trans here))⟩
  have apart (first second : Fin before.wiredPorts.length) :
      before.netAt first = before.netAt second ↔
        after.netAt (later first) = after.netAt (later second) := by
    rw [netAt_eq_iff, netAt_eq_iff, atLater, atLater,
      splits.linked_iff unclaimed (other first) (other second)]
  obtain ⟨number, bijective, numbered⟩ := exists_bijective_of_fibers netAt_surjective reached apart
  refine ⟨number, bijective, fun id => ?_⟩
  obtain ⟨place, rfl⟩ := netAt_surjective id
  rw [numbered, get_netAt, get_netAt]
  exact splits.net_splits unclaimed anchored (mem_classPorts.mpr ⟨place, rfl, rfl⟩)
    (mem_classPorts.mpr ⟨later place, atLater place, rfl⟩) _ _

end Circuit.Splits

end Breadboard
