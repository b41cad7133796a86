import Breadboard.Proofs.Net.Partition
import Breadboard.Proofs.Net.Terminals

/-!
# Nets are the connected components of the wires

A wire whose two ends are live makes its terminals adjacent, and terminals linked by a path of such
wires lie on one net. The ports on the wires are partitioned by uniting the ends of every wire; each
class of the partition is a net, and classes are numbered by the first port that belongs to them.

The main statement, `nets_are_components`, says which ports have a net, when two of them share it,
and in which order nets are numbered. It holds for every list of wires, dangling and repeated ones
and wires from a port to itself included.
-/

namespace Breadboard

namespace Circuit

variable {circuit : Circuit}

/-- A wire with two live ends joins the terminals, in either order. -/
def Adjacent (circuit : Circuit) (s t : Terminal) : Prop :=
  ∃ wire ∈ circuit.wires, circuit.isLive wire.first = true ∧ circuit.isLive wire.second = true ∧
    ((circuit.folded wire.first = s ∧ circuit.folded wire.second = t) ∨
      (circuit.folded wire.first = t ∧ circuit.folded wire.second = s))

/-- A path of wires with live ends leads from one terminal to the other. -/
def Linked (circuit : Circuit) : Terminal → Terminal → Prop :=
  Relation.ReflTransGen circuit.Adjacent

/-- The partition of the ports that the wires leave. -/
def partition (circuit : Circuit) : DisjointSets circuit.wiredPorts.length :=
  circuit.wires.foldl (circuit.uniteEnds circuit.wiredPorts) (.singletons circuit.wiredPorts.length)

/-- The classes of the partition, by their roots, in the order of their first ports. -/
def classes (circuit : Circuit) : List (Fin circuit.wiredPorts.length) :=
  ((List.finRange circuit.wiredPorts.length).map circuit.partition.root).eraseDups

/-- The ports of a class, in their order. -/
def classPorts (circuit : Circuit) (root : Fin circuit.wiredPorts.length) : List WiredPort :=
  ((List.finRange circuit.wiredPorts.length).filter
    fun place => circuit.partition.root place == root).map circuit.wiredPorts.get

/-- Every class becomes a net, at the place of the class. -/
theorem build_nets (circuit : Circuit) :
    (Netlist.build circuit).nets =
      circuit.classes.mapIdx fun id root => Net.ofPorts id (circuit.classPorts root) := by
  have found (place) : (circuit.partition.find place).2 = circuit.partition.root place :=
    (circuit.partition.find_exact place).1
  have entries : (List.finRange circuit.wiredPorts.length).map
        (fun place => (circuit.wiredPorts.get place, (circuit.partition.find place).2)) =
      (List.finRange circuit.wiredPorts.length).map
        fun place => (circuit.wiredPorts.get place, circuit.partition.root place) := by
    simp only [found]
  change (List.map _ (List.map Prod.snd (List.map _ _)).eraseDups).mapIdx Net.ofPorts = _
  rw [show circuit.wires.foldl (circuit.uniteEnds circuit.wiredPorts) _ = circuit.partition from rfl,
    entries]
  simp only [List.map_map, List.mapIdx_eq_zipIdx_map, List.zipIdx_map, List.filter_map]
  rfl

/-- A port is in a class exactly if the root of the class stands above its place. -/
theorem mem_classPorts {root : Fin circuit.wiredPorts.length} {port : WiredPort} :
    port ∈ circuit.classPorts root ↔
      ∃ place, circuit.wiredPorts.get place = port ∧ circuit.partition.root place = root := by
  simp only [classPorts, List.mem_map, List.mem_filter, List.mem_finRange, true_and, beq_iff_eq]
  exact exists_congr fun place => and_comm

/-- The root of every place is a class. -/
theorem root_mem_classes (place : Fin circuit.wiredPorts.length) :
    circuit.partition.root place ∈ circuit.classes :=
  List.mem_eraseDups.mpr (List.mem_map_of_mem (List.mem_finRange place))

/-- No class is listed twice. -/
theorem nodup_classes (circuit : Circuit) : circuit.classes.Nodup :=
  FirstOccurrences.nodup_eraseDups _

/-- Places with one terminal are one place. -/
theorem place_ext {i j : Fin circuit.wiredPorts.length}
    (same : (circuit.wiredPorts.get i).terminal = (circuit.wiredPorts.get j).terminal) : i = j :=
  circuit.nodup_wiredPorts.injective_get
    (wiredPorts_terminal_injective (List.get_mem ..) (List.get_mem ..) same)

/-- A terminal is at some place exactly if it is at some wire end. -/
theorem exists_place_iff {terminal : Terminal} :
    (∃ place, (circuit.wiredPorts.get place).terminal = terminal) ↔
      terminal ∈ circuit.wireTerminals := by
  rw [mem_wireTerminals]
  constructor
  · rintro ⟨place, rfl⟩
    exact ⟨_, List.get_mem .., rfl⟩
  · rintro ⟨port, member, rfl⟩
    obtain ⟨place, rfl⟩ := List.get_of_mem member
    exact ⟨place, rfl⟩

/-- The place that a wire end is looked up at is the one of its terminal. -/
theorem place_of_wiredPort? {terminal : Terminal} {place : Fin circuit.wiredPorts.length} :
    (circuit.wiredPort? terminal).bind circuit.wiredPorts.finIdxOf? = some place ↔
      circuit.isLive terminal = true ∧
        (circuit.wiredPorts.get place).terminal = circuit.folded terminal := by
  cases found : circuit.wiredPort? terminal with
  | none =>
    have dead : circuit.isLive terminal = false := by rw [← isSome_wiredPort?, found]; rfl
    simp [dead]
  | some port =>
    have live : circuit.isLive terminal = true := by rw [← isSome_wiredPort?, found]; rfl
    simp only [Option.bind_some, List.finIdxOf?_eq_some_iff, live, true_and]
    rw [← terminal_of_wiredPort? found]
    constructor
    · rintro ⟨rfl, _⟩
      rfl
    · intro same
      obtain ⟨_, _, named, _, foundNamed⟩ := mem_wiredPorts.mp (List.get_mem circuit.wiredPorts place)
      have here : circuit.wiredPorts.get place = port := wiredPort_ext foundNamed found same
      refine ⟨here, fun other earlier again => ?_⟩
      have places : other = place :=
        circuit.nodup_wiredPorts.injective_get (again.trans here.symm)
      exact absurd places (Fin.ne_of_lt earlier)

/-- A wire with two live ends unites the places of their terminals. -/
def Unites (circuit : Circuit) (wire : Wire) (i j : Fin circuit.wiredPorts.length) : Prop :=
  (circuit.isLive wire.first = true ∧
      (circuit.wiredPorts.get i).terminal = circuit.folded wire.first) ∧
    circuit.isLive wire.second = true ∧
      (circuit.wiredPorts.get j).terminal = circuit.folded wire.second

/-- Two places are in one class exactly if wires unite them, one after the other. -/
theorem root_eq_iff_united (i j : Fin circuit.wiredPorts.length) :
    circuit.partition.root i = circuit.partition.root j ↔
      Relation.EqvGen (fun x y => ∃ wire ∈ circuit.wires, circuit.Unites wire x y) i j := by
  let place? (terminal : Terminal) :=
    (circuit.wiredPort? terminal).bind circuit.wiredPorts.finIdxOf?
  let pair? (wire : Wire) := (place? wire.first).bind fun a =>
    (place? wire.second).map fun b => (a, b)
  have pairExact (wire : Wire) (x y) : pair? wire = some (x, y) ↔
      place? wire.first = some x ∧ place? wire.second = some y := by
    simp only [pair?, Option.bind_eq_some_iff, Option.map_eq_some_iff, Prod.mk.injEq]
    grind
  rw [partition, DisjointSets.same_foldl_singletons_iff pair?]
  · simp only [pairExact, place?, place_of_wiredPort?]
    rfl
  · intro sets wire a b paired
    obtain ⟨first, second⟩ := (pairExact wire a b).mp paired
    simp only [place?] at first second
    simp only [uniteEnds, first, second]
  · intro sets wire unpaired place
    simp only [pair?, place?] at unpaired
    unfold uniteEnds
    split
    · next first second => simp [first, second] at unpaired
    · rfl

/-- Adjacency does not depend on the end from which it is seen. -/
instance (circuit : Circuit) : Std.Symm circuit.Adjacent :=
  ⟨fun _ _ ⟨wire, drawn, first, second, ends⟩ => ⟨wire, drawn, first, second, ends.symm⟩⟩

/-- Being linked is symmetric. -/
theorem Linked.symm {s t : Terminal} (linked : circuit.Linked s t) : circuit.Linked t s :=
  Std.Symm.symm (r := Relation.ReflTransGen circuit.Adjacent) s t linked

/-- A live wire end has a place. -/
theorem exists_place_of_end {wire : Wire} (drawn : wire ∈ circuit.wires) {terminal : Terminal}
    (atEnd : terminal ∈ wire.ends) (live : circuit.isLive terminal = true) :
    ∃ place, (circuit.wiredPorts.get place).terminal = circuit.folded terminal := by
  rw [exists_place_iff, wireTerminals]
  exact List.mem_map_of_mem (List.mem_filter.mpr
    ⟨List.mem_flatMap.mpr ⟨wire, drawn, atEnd⟩, live⟩)

/-- A path of wires from the terminal of a place leads to the terminal of a place in its class. -/
theorem exists_place_of_linked {i : Fin circuit.wiredPorts.length} {t : Terminal}
    (linked : circuit.Linked (circuit.wiredPorts.get i).terminal t) :
    ∃ j, (circuit.wiredPorts.get j).terminal = t ∧
      circuit.partition.root i = circuit.partition.root j := by
  induction linked with
  | refl => exact ⟨i, rfl, rfl⟩
  | tail _ adjacent inductionHypothesis =>
    obtain ⟨j, atJ, sameClass⟩ := inductionHypothesis
    obtain ⟨wire, drawn, liveFirst, liveSecond, ends⟩ := adjacent
    obtain ⟨a, atA⟩ := exists_place_of_end drawn (by simp [Wire.ends]) liveFirst
    obtain ⟨b, atB⟩ := exists_place_of_end drawn (by simp [Wire.ends]) liveSecond
    have united : circuit.partition.root a = circuit.partition.root b :=
      (root_eq_iff_united a b).mpr
        (.rel _ _ ⟨wire, drawn, ⟨liveFirst, atA⟩, liveSecond, atB⟩)
    rcases ends with ⟨first, second⟩ | ⟨first, second⟩
    · have here : j = a := place_ext (atJ.trans (first.symm.trans atA.symm))
      exact ⟨b, atB.trans second, sameClass.trans (here ▸ united)⟩
    · have here : j = b := place_ext (atJ.trans (second.symm.trans atB.symm))
      exact ⟨a, atA.trans first, sameClass.trans (here ▸ united.symm)⟩

/-- Two places are in one class exactly if a path of wires links their terminals. -/
theorem root_eq_iff_linked (i j : Fin circuit.wiredPorts.length) :
    circuit.partition.root i = circuit.partition.root j ↔
      circuit.Linked (circuit.wiredPorts.get i).terminal (circuit.wiredPorts.get j).terminal := by
  constructor
  · rw [root_eq_iff_united]
    intro united
    induction united with
    | refl x => exact .refl
    | symm x y _ inductionHypothesis => exact inductionHypothesis.symm
    | trans x y z _ _ first second => exact first.trans second
    | rel x y related =>
      obtain ⟨wire, drawn, ⟨liveFirst, atFirst⟩, liveSecond, atSecond⟩ := related
      exact .single ⟨wire, drawn, liveFirst, liveSecond, .inl ⟨atFirst.symm, atSecond.symm⟩⟩
  · intro linked
    obtain ⟨k, atK, sameClass⟩ := exists_place_of_linked linked
    rw [sameClass, place_ext atK]

/-- The ports of a class are ports on the wires. -/
theorem mem_wiredPorts_of_classPorts {root : Fin circuit.wiredPorts.length} {port : WiredPort}
    (member : port ∈ circuit.classPorts root) : port ∈ circuit.wiredPorts := by
  obtain ⟨place, rfl, _⟩ := mem_classPorts.mp member
  exact List.get_mem ..

/-- A net reaches a port exactly if the terminal of the port is in its class. -/
theorem has_classPorts {id : Nat} {root : Fin circuit.wiredPorts.length} {node : NodeId}
    {port : String} :
    (Net.ofPorts id (circuit.classPorts root)).has node port = true ↔
      ∃ place, (circuit.wiredPorts.get place).terminal = circuit.folded ⟨node, port⟩ ∧
        circuit.partition.root place = root := by
  have reached (member : WiredPort) (listed : member ∈ circuit.wiredPorts) :
      (if member.shape.joint = true then member.terminal.node = node
        else member.terminal = ⟨node, port⟩) ↔ member.terminal = circuit.folded ⟨node, port⟩ := by
    obtain ⟨at', found, shape, isFolded⟩ := shape_of_mem_wiredPorts listed
    rw [shape, Node.portShape_joint, ← isFolded, folded_eq_iff, isFolded]
    grind
  rw [Net.has_ofPorts]
  constructor
  · rintro ⟨member, inClass, here⟩
    obtain ⟨place, rfl, sameRoot⟩ := mem_classPorts.mp inClass
    exact ⟨place, (reached _ (mem_wiredPorts_of_classPorts inClass)).mp here, sameRoot⟩
  · rintro ⟨place, here, sameRoot⟩
    have inClass : circuit.wiredPorts.get place ∈ circuit.classPorts root :=
      mem_classPorts.mpr ⟨place, rfl, sameRoot⟩
    exact ⟨_, inClass, (reached _ (mem_wiredPorts_of_classPorts inClass)).mpr here⟩

/-- The nets are the classes, each with its place as its number. -/
theorem mem_build_nets {net : Net} :
    net ∈ (Netlist.build circuit).nets ↔
      ∃ id root, circuit.classes[id]? = some root ∧ net = Net.ofPorts id (circuit.classPorts root) := by
  rw [build_nets, List.mem_iff_getElem?]
  simp only [List.getElem?_mapIdx, Option.map_eq_some_iff]
  exact exists_congr fun id => exists_congr fun root => and_congr_right fun _ => eq_comm

/-- The net of a port is the class of its terminal.

Proof: classes are disjoint, so the first net that reaches the port is the only one. -/
theorem netOf?_eq_some_iff {node : NodeId} {port : String} {id : Nat} :
    (Netlist.build circuit).netOf? node port = some id ↔
      ∃ place, (circuit.wiredPorts.get place).terminal = circuit.folded ⟨node, port⟩ ∧
        circuit.classes[id]? = some (circuit.partition.root place) := by
  have sound {net : Net}
      (found : (Netlist.build circuit).nets.find? (fun net => net.has node port) = some net) :
      ∃ place, (circuit.wiredPorts.get place).terminal = circuit.folded ⟨node, port⟩ ∧
        circuit.classes[net.id]? = some (circuit.partition.root place) := by
    obtain ⟨id, root, atClass, rfl⟩ := mem_build_nets.mp (List.mem_of_find?_eq_some found)
    have reaches := List.find?_some found
    obtain ⟨place, here, rfl⟩ := has_classPorts.mp reaches
    exact ⟨place, here, atClass⟩
  rw [Netlist.netOf?, Option.map_eq_some_iff]
  constructor
  · rintro ⟨net, found, rfl⟩
    exact sound found
  · rintro ⟨place, here, atClass⟩
    have reaches : (Net.ofPorts id (circuit.classPorts (circuit.partition.root place))).has node port
        = true := has_classPorts.mpr ⟨place, here, rfl⟩
    have isFound : ((Netlist.build circuit).nets.find? fun net => net.has node port).isSome :=
      List.find?_isSome.mpr ⟨_, mem_build_nets.mpr ⟨id, _, atClass, rfl⟩, reaches⟩
    obtain ⟨net, found⟩ := Option.isSome_iff_exists.mp isFound
    obtain ⟨other, there, atOther⟩ := sound found
    have samePlace : other = place := place_ext (there.trans here.symm)
    rw [samePlace] at atOther
    obtain ⟨inside, _⟩ := List.getElem?_eq_some_iff.mp atOther
    exact ⟨net, found, (List.getElem?_inj inside circuit.nodup_classes).mp (atOther.trans atClass.symm)⟩

/-- A terminal at a wire end has a net, and no other port has one. -/
theorem isSome_netOf?_iff {node : NodeId} {port : String} :
    ((Netlist.build circuit).netOf? node port).isSome = true ↔
      circuit.folded ⟨node, port⟩ ∈ circuit.wireTerminals := by
  rw [Option.isSome_iff_exists, ← exists_place_iff]
  constructor
  · rintro ⟨id, found⟩
    obtain ⟨place, here, _⟩ := netOf?_eq_some_iff.mp found
    exact ⟨place, here⟩
  · rintro ⟨place, here⟩
    obtain ⟨id, atClass⟩ := List.mem_iff_getElem?.mp (root_mem_classes place)
    exact ⟨id, netOf?_eq_some_iff.mpr ⟨place, here, atClass⟩⟩

/-- A folded terminal is at a wire end exactly if the node is live and a wire end names it. -/
theorem folded_mem_wireTerminals_iff {terminal : Terminal} :
    circuit.folded terminal ∈ circuit.wireTerminals ↔
      circuit.isLive terminal = true ∧
        ∃ wire ∈ circuit.wires, ∃ named ∈ wire.ends,
          circuit.folded named = circuit.folded terminal := by
  have liveness (named : Terminal) (same : circuit.folded named = circuit.folded terminal) :
      circuit.isLive named = circuit.isLive terminal := by
    have nodes := congrArg Terminal.node same
    rw [folded_node, folded_node] at nodes
    rw [isLive, isLive, nodes]
  simp only [wireTerminals, List.mem_map, List.mem_filter, List.mem_flatMap]
  constructor
  · rintro ⟨named, ⟨⟨wire, drawn, atEnd⟩, live⟩, same⟩
    exact ⟨liveness named same ▸ live, wire, drawn, named, atEnd, same⟩
  · rintro ⟨live, wire, drawn, named, atEnd, same⟩
    exact ⟨named, ⟨⟨wire, drawn, atEnd⟩, liveness named same ▸ live⟩, same⟩

/-- Two ports share a net exactly if the first is at a wire end and a path of wires links it to the
second. -/
theorem shares_net_iff {s t : Terminal} :
    (∃ id, (Netlist.build circuit).netOf? s.node s.port = some id ∧
        (Netlist.build circuit).netOf? t.node t.port = some id) ↔
      circuit.folded s ∈ circuit.wireTerminals ∧
        circuit.Linked (circuit.folded s) (circuit.folded t) := by
  constructor
  · rintro ⟨id, netOfS, netOfT⟩
    obtain ⟨i, atI, classOfI⟩ := netOf?_eq_some_iff.mp netOfS
    obtain ⟨j, atJ, classOfJ⟩ := netOf?_eq_some_iff.mp netOfT
    have sameRoot := Option.some.inj (classOfI.symm.trans classOfJ)
    rw [root_eq_iff_linked, atI, atJ] at sameRoot
    exact ⟨exists_place_iff.mp ⟨i, atI⟩, sameRoot⟩
  · rintro ⟨wired, linked⟩
    obtain ⟨i, atI⟩ := exists_place_iff.mpr wired
    obtain ⟨j, atJ, sameRoot⟩ := exists_place_of_linked (atI ▸ linked)
    obtain ⟨id, atClass⟩ := List.mem_iff_getElem?.mp (root_mem_classes i)
    exact ⟨id, netOf?_eq_some_iff.mpr ⟨i, atI, atClass⟩,
      netOf?_eq_some_iff.mpr ⟨j, atJ, sameRoot ▸ atClass⟩⟩

/-- The number of the net at a place is the place of its class among the classes. -/
theorem netOf?_place (place : Fin circuit.wiredPorts.length) :
    (Netlist.build circuit).netOf? (circuit.wiredPorts.get place).terminal.node
        (circuit.wiredPorts.get place).terminal.port =
      some (circuit.classes.idxOf (circuit.partition.root place)) := by
  obtain ⟨_, _, _, isFolded⟩ := shape_of_mem_wiredPorts (List.get_mem circuit.wiredPorts place)
  exact netOf?_eq_some_iff.mpr
    ⟨place, isFolded.symm, List.getElem?_idxOf (root_mem_classes place)⟩

/-- The numbers of the nets, met in the order of the wire ends, first occur in ascending order,
without gaps.

Proof: the terminals at the wire ends first occur in the order of the places, and the classes of the
places first occur in the order in which they are listed. -/
theorem netOf?_numbering (circuit : Circuit) :
    (circuit.wireTerminals.filterMap fun terminal =>
        (Netlist.build circuit).netOf? terminal.node terminal.port).eraseDups =
      List.range (Netlist.build circuit).nets.length := by
  let number (terminal : Terminal) : Nat :=
    ((Netlist.build circuit).netOf? terminal.node terminal.port).getD 0
  have numbered : (circuit.wireTerminals.filterMap fun terminal =>
      (Netlist.build circuit).netOf? terminal.node terminal.port) =
        circuit.wireTerminals.map number := by
    rw [← List.filterMap_eq_map]
    refine List.filterMap_congr fun terminal member => ?_
    obtain ⟨place, rfl⟩ := exists_place_iff.mpr member
    simp only [Function.comp_apply, number, netOf?_place, Option.getD_some]
  have places : circuit.wiredPorts =
      (List.finRange circuit.wiredPorts.length).map circuit.wiredPorts.get :=
    (List.map_get_finRange _).symm
  have throughPlaces : (circuit.wiredPorts.map WiredPort.terminal).map number =
      ((List.finRange circuit.wiredPorts.length).map circuit.partition.root).map
        circuit.classes.idxOf := by
    conv_lhs => rw [places]
    rw [List.map_map, List.map_map, List.map_map]
    refine List.map_congr_left fun place _ => ?_
    simp only [Function.comp_apply, number, netOf?_place, Option.getD_some]
  rw [numbered, ← FirstOccurrences.eraseDups_map_eraseDups, ← wiredPorts_terminals, throughPlaces,
    build_nets, List.length_mapIdx]
  exact FirstOccurrences.eraseDups_places _

/-- Nets are the connected components of the wires. A port has a net exactly if its node is live and
some wire end names its terminal; two ports share a net exactly if moreover a path of wires whose
ends are all live links their terminals; all ports of a joint answer the same; and the nets have the
numbers from zero on, in the order in which a terminal of each first appears among the wire ends. -/
theorem nets_are_components (circuit : Circuit) :
    (∀ t : Terminal, ((Netlist.build circuit).netOf? t.node t.port).isSome = true ↔
      circuit.isLive t = true ∧ ∃ wire ∈ circuit.wires, ∃ named ∈ wire.ends,
        circuit.folded named = circuit.folded t) ∧
    (∀ s t : Terminal,
      (∃ id, (Netlist.build circuit).netOf? s.node s.port = some id ∧
        (Netlist.build circuit).netOf? t.node t.port = some id) ↔
      (circuit.isLive s = true ∧ ∃ wire ∈ circuit.wires, ∃ named ∈ wire.ends,
        circuit.folded named = circuit.folded s) ∧
      circuit.Linked (circuit.folded s) (circuit.folded t)) ∧
    (∀ node port other, (circuit.node? node).any Node.isJoint = true →
      (Netlist.build circuit).netOf? node port = (Netlist.build circuit).netOf? node other) ∧
    (Netlist.build circuit).nets.map Net.id = List.range (Netlist.build circuit).nets.length ∧
    (circuit.wireTerminals.filterMap fun t =>
        (Netlist.build circuit).netOf? t.node t.port).eraseDups =
      List.range (Netlist.build circuit).nets.length := by
  refine ⟨fun t => ?_, fun s t => ?_, fun node port other joint => ?_, ?_, netOf?_numbering circuit⟩
  · rw [isSome_netOf?_iff, folded_mem_wireTerminals_iff]
  · rw [shares_net_iff, folded_mem_wireTerminals_iff]
  · have sameTerminal : circuit.folded ⟨node, port⟩ = circuit.folded ⟨node, other⟩ :=
      (folded_eq_iff _ _).mpr (.inr ⟨rfl, joint⟩)
    refine Option.ext fun id => ?_
    rw [netOf?_eq_some_iff, netOf?_eq_some_iff, sameTerminal]
  · rw [build_nets]
    refine List.ext_getElem (by simp) fun id _ _ => ?_
    simp only [List.getElem_map, List.getElem_mapIdx, List.getElem_range]
    rfl

end Circuit

end Breadboard
