import Breadboard.Proofs.Form.Rereading

/-!
# Handles are stable

Over time a circuit is edited, its nodes are changed in place, and it is saved and loaded again. All the
while a handle names the node that it was given for, or nothing once that node was removed: no slot is
taken twice, and a file keeps vacant slots, the last ones too.
-/

namespace Breadboard

/-- What is done with a circuit. -/
inductive Deed where
  | edit (made : Edit Circuit)
  /-- A node is changed in place. -/
  | change (id : NodeId) (made : Node Circuit → Node Circuit)
  /-- The circuit is saved, on one line or spread over lines, and loaded again. -/
  | reload (spread : Bool)

namespace Deed

/-- What is loaded where a circuit was saved, with the next fresh revision. Only what fits machine words is
saved. -/
def reloaded? (spread : Bool) (circuit : Circuit) (fresh : Revision) : Option (Circuit × Revision) :=
  if circuit.Storable then
    Circuit.ofText? (if spread then circuit.fileText else circuit.toJson.compact) fresh
  else none

/-- A circuit and the next fresh revision after a deed. A circuit that is not loaded stays. -/
def apply (start : Circuit × Revision) : Deed → Circuit × Revision
  | edit made => (made.apply start.2 start.1, start.2 + 1)
  | change id made => (start.1.modifyNode id made, start.2)
  | reload spread => (reloaded? spread start.1 start.2).getD start

/-- A circuit and the next fresh revision after some deeds, one after the other. -/
def run (start : Circuit × Revision) (deeds : List Deed) : Circuit × Revision :=
  deeds.foldl apply start

/-- The handle that a deed gives out for the node that it adds to a circuit. -/
def given (circuit : Circuit) : Deed → Option NodeId
  | edit (.add _) => some circuit.nodes.next
  | _ => none

/-- The handles that some deeds give out, in their order. -/
def handles (start : Circuit × Revision) : List Deed → List NodeId
  | [] => []
  | deed :: rest => (deed.given start.1).toList ++ handles (deed.apply start) rest

/-- The deed removes the node of a handle. -/
def Removes (id : NodeId) : Deed → Prop
  | edit (.remove removed) => removed = id
  | _ => False

/-- What a deed that leaves a node turns it into: a move places it elsewhere, a change in place is what it
is, and saving and loading keep what a file keeps of it. -/
def Turns (id : NodeId) (before after : Node Circuit) : Deed → Prop
  | edit (.move moved place) => after = if moved = id then { before with position := place } else before
  | change changed made => after = if changed = id then made before else before
  | reload _ => after = before ∨ after.bare = before.filed
  | _ => after = before

/-- What some deeds, one after the other, turn a node into that none of them removes. -/
def Leads (id : NodeId) (before : Node Circuit) : List Deed → Node Circuit → Prop
  | [], after => after = before
  | deed :: rest, after => ∃ between, deed.Turns id before between ∧ Leads id between rest after

/-- The wires that a deed leaves, in their order. -/
def rewired (circuit : Circuit) : Deed → List Wire
  | edit (.remove id) =>
    if circuit.nodes.contains id then circuit.wires.filter fun wire => !wire.touches id
    else circuit.wires
  | edit (.connect first second) => circuit.wires ++ [⟨first, second⟩]
  | edit (.disconnect a b) => circuit.wires.filter fun wire => !wire.joins a b
  | _ => circuit.wires

/-- If the deed wires two ports, both of them are ports of nodes. -/
def Anchors (circuit : Circuit) : Deed → Prop
  | edit (.connect first second) =>
    (circuit.node? first.node).isSome = true ∧ (circuit.node? second.node).isSome = true
  | _ => True

/-- Every one of some deeds that wires two ports finds the nodes of both. -/
def AllAnchor (start : Circuit × Revision) : List Deed → Prop
  | [] => True
  | deed :: rest => deed.Anchors start.1 ∧ AllAnchor (deed.apply start) rest

/-- All that a deed does to the handles and the wires of a circuit. -/
structure Does (deed : Deed) (before after : Circuit) : Prop where
  next : after.nodes.next = before.nodes.next + (deed.given before).toList.length
  /-- A vacant slot stays vacant. -/
  vacant : ∀ id < before.nodes.next, before.node? id = none → after.node? id = none
  removed : ∀ id, deed.Removes id → after.node? id = none
  kept : ∀ id node, before.node? id = some node → ¬deed.Removes id →
    ∃ turned, after.node? id = some turned ∧ deed.Turns id node turned
  wires : after.wires = deed.rewired before

end Deed

namespace Circuit

/-- Both ends of every wire are ports of nodes. -/
def Anchored (circuit : Circuit) : Prop :=
  ∀ wire ∈ circuit.wires, (circuit.node? wire.first.node).isSome = true ∧
    (circuit.node? wire.second.node).isSome = true

end Circuit

namespace Deed

variable {deed : Deed} {before after : Circuit}

/-- A deed that neither gives out a handle nor removes a node does what it should if nodes become what it
turns them into, and wires what it leaves of them. -/
theorem Does.of_turns (gives : deed.given before = none) (keeps : ∀ id, ¬deed.Removes id)
    (size : after.nodes.next = before.nodes.next)
    (vacant : ∀ id, before.node? id = none → after.node? id = none)
    (turns : ∀ id node, before.node? id = some node →
      ∃ turned, after.node? id = some turned ∧ deed.Turns id node turned)
    (wires : after.wires = deed.rewired before) : deed.Does before after where
  next := by rw [gives, size]; rfl
  vacant id _ := vacant id
  removed id removes := absurd removes (keeps id)
  kept id node found _ := turns id node found
  wires := wires

/-- A deed that touches no node does what it should if it leaves the wires that it should. -/
theorem Does.of_same (gives : deed.given before = none) (keeps : ∀ id, ¬deed.Removes id)
    (nodes : after.nodes = before.nodes) (turns : ∀ id node, deed.Turns id node node)
    (wires : after.wires = deed.rewired before) : deed.Does before after := by
  have same (id : NodeId) : after.node? id = before.node? id := by
    rw [Circuit.node?, Circuit.node?, nodes]
  exact .of_turns gives keeps (by rw [nodes]) (fun id isVacant => (same id).trans isVacant)
    (fun id node found => ⟨node, (same id).trans found, turns id node⟩) wires

/-- A deed that changes one node in place does what it should if it leaves all wires. -/
theorem Does.of_modified (gives : deed.given before = none) (keeps : ∀ id, ¬deed.Removes id) {id : NodeId}
    {made : Node Circuit → Node Circuit} (nodes : after.nodes = before.nodes.modify id made)
    (turns : ∀ other node, deed.Turns other node (if id = other then made node else node))
    (wires : after.wires = deed.rewired before) : deed.Does before after := by
  have modified (other : NodeId) :
      after.node? other = if id = other then (before.node? other).map made else before.node? other := by
    rw [Circuit.node?, nodes]
    exact Arena.get?_modify ..
  refine .of_turns gives keeps (by simp [nodes, Arena.next, Arena.modify]) (fun other isVacant => ?_)
    (fun other node found => ⟨_, ?_, turns other node⟩) wires
  · rw [modified, isVacant, Option.map_none, ite_self]
  · rw [modified, found]
    split <;> rfl

/-- Adding a node takes a new slot. -/
theorem does_add (added : Node Circuit) (circuit : Circuit) (fresh : Revision) :
    Does (.edit (.add added)) circuit (circuit.addNode added fresh) := by
  have nodes {id : NodeId} (inside : id < circuit.nodes.next) :
      (circuit.addNode added fresh).node? id = circuit.node? id := by
    rw [Circuit.addNode, Circuit.node?, Arena.get?_alloc, if_neg (Nat.ne_of_gt inside)]
    rfl
  constructor
  · simp [given, Circuit.addNode, Arena.next, Arena.alloc]
  · exact fun id inside isVacant => (nodes inside).trans isVacant
  · exact fun id removes => removes.elim
  · exact fun id node found _ => ⟨node, (nodes (Arena.lt_of_get? found)).trans found, rfl⟩
  · rfl

/-- Removing a node vacates its slot and drops the wires at it. -/
theorem does_remove (removed : NodeId) (circuit : Circuit) (fresh : Revision) :
    Does (.edit (.remove removed)) circuit (circuit.removeNode removed fresh) := by
  by_cases present : circuit.nodes.contains removed = true
  · have nodes (id : NodeId) : (circuit.removeNode removed fresh).node? id =
        if removed = id then none else circuit.node? id := by
      rw [Circuit.removeNode, if_pos present, Circuit.node?, Arena.get?_remove]
      rfl
    constructor
    · simp [Circuit.removeNode, present, given, Arena.next, Arena.remove]
    · intro id _ isVacant
      rw [nodes, isVacant, ite_self]
    · rintro id rfl
      rw [nodes, if_pos rfl]
    · intro id node found stays
      have isOther : removed ≠ id := stays
      exact ⟨node, by rw [nodes, if_neg isOther, found], rfl⟩
    · rw [Circuit.removeNode, if_pos present, rewired, if_pos present]
  · have same : circuit.removeNode removed fresh = circuit := by
      rw [Circuit.removeNode, if_neg present]
    rw [same]
    refine ⟨rfl, fun _ _ isVacant => isVacant, ?_, fun id node found _ => ⟨node, found, rfl⟩, ?_⟩
    · rintro id rfl
      rw [Arena.contains, Bool.not_eq_true, Option.isSome_eq_false_iff, Option.isNone_iff_eq_none] at present
      exact present
    · rw [rewired, if_neg present]

/-- Where no wire joins two ports, none is dropped. -/
theorem wires_of_joinCount {circuit : Circuit} {a b : Terminal} (none : circuit.joinCount a b = 0) :
    (circuit.wires.filter fun wire => !wire.joins a b) = circuit.wires := by
  rw [Circuit.joinCount, List.length_eq_zero_iff, List.filter_eq_nil_iff] at none
  exact List.filter_eq_self.mpr fun wire member => by simpa using none wire member

/-- Saving and loading keep all slots, and what a file keeps of the nodes. -/
theorem does_reload (spread : Bool) {circuit read : Circuit} {fresh next : Revision}
    (reloads : reloaded? spread circuit fresh = some (read, next)) : Does (.reload spread) circuit read := by
  rw [reloaded?] at reloads
  split at reloads
  · next storable =>
    have isText : (if spread then circuit.fileText else circuit.toJson.compact) ∈ circuit.texts := by
      cases spread <;> simp [Circuit.texts]
    have bare := Circuit.bare_of_text storable isText reloads
    have nodes (id : NodeId) : (read.node? id).map Node.bare = (circuit.node? id).map Node.filed := by
      rw [← Circuit.node?_bare, bare]
      exact Circuit.node?_viewed circuit id
    obtain ⟨wires, _, size⟩ := read.frame_bare
    rw [bare] at wires size
    refine .of_turns rfl (fun _ => id) ?_ (fun id isVacant => ?_) (fun id node found => ?_) ?_
    · simpa [Circuit.filed, Circuit.viewed_eq, Arena.map, Arena.next] using size.symm
    · have here := nodes id
      rwa [isVacant, Option.map_none, Option.map_eq_none_iff] at here
    · have here := nodes id
      rw [found, Option.map_some] at here
      obtain ⟨turned, isThere, same⟩ := Option.map_eq_some_iff.mp here
      exact ⟨turned, isThere, .inr same⟩
    · simpa [rewired, Circuit.filed, Circuit.viewed_eq] using wires.symm
  · cases reloads

/-- Every deed does what it should, and no more. -/
theorem does_apply (deed : Deed) (start : Circuit × Revision) : deed.Does start.1 (deed.apply start).1 := by
  obtain ⟨circuit, fresh⟩ := start
  cases deed with
  | edit made =>
    cases made with
    | add added => exact does_add added circuit fresh
    | remove removed => exact does_remove removed circuit fresh
    | touch => exact .of_same rfl (fun _ => id) rfl (fun _ _ => rfl) rfl
    | connect first second => exact .of_same rfl (fun _ => id) rfl (fun _ _ => rfl) rfl
    | disconnect a b =>
      simp only [apply, Edit.apply, Circuit.disconnect]
      split
      · next none => exact .of_same rfl (fun _ => id) rfl (fun _ _ => rfl) (wires_of_joinCount none).symm
      · exact .of_same rfl (fun _ => id) rfl (fun _ _ => rfl) rfl
    | move moved place =>
      simp only [apply, Edit.apply, Circuit.moveNode]
      split
      · exact .of_modified rfl (fun _ => id) rfl (fun _ _ => rfl) rfl
      · next absent =>
        refine .of_turns rfl (fun _ => id) rfl (fun _ isVacant => isVacant) (fun id node found => ?_) rfl
        have isOther : moved ≠ id := by
          rintro rfl
          rw [Arena.contains, show circuit.nodes.get? moved = some node from found] at absent
          exact absent rfl
        exact ⟨node, found, (if_neg isOther).symm⟩
  | change changed made => exact .of_modified rfl (fun _ => id) rfl (fun _ _ => rfl) rfl
  | reload spread =>
    cases reloads : reloaded? spread circuit fresh with
    | none =>
      simp only [apply, reloads, Option.getD_none]
      exact .of_same rfl (fun _ => id) rfl (fun _ _ => .inl rfl) rfl
    | some result =>
      simp only [apply, reloads, Option.getD_some]
      exact does_reload spread reloads

/-- A node that no deed removes stays, whatever it becomes. -/
theorem Does.stays (does : deed.Does before after) {id : NodeId} (present : (before.node? id).isSome = true)
    (keeps : ¬deed.Removes id) : (after.node? id).isSome = true := by
  obtain ⟨node, found⟩ := Option.isSome_iff_exists.mp present
  obtain ⟨_, isThere, _⟩ := does.kept id node found keeps
  exact Option.isSome_of_eq_some isThere

/-- Where all wires lead to nodes, and the deed wires nodes only, all wires lead to nodes after it. A deed
that removes a node drops its wires. -/
theorem Does.anchored (does : deed.Does before after) (anchors : deed.Anchors before)
    (anchored : before.Anchored) : after.Anchored := by
  have ofKept (wire : Wire) (member : wire ∈ before.wires) (first : ¬deed.Removes wire.first.node)
      (second : ¬deed.Removes wire.second.node) :
      (after.node? wire.first.node).isSome = true ∧ (after.node? wire.second.node).isSome = true :=
    ⟨does.stays (anchored wire member).1 first, does.stays (anchored wire member).2 second⟩
  intro wire member
  rw [does.wires] at member
  cases deed with
  | edit made =>
    cases made with
    | add added => exact ofKept wire member id id
    | touch => exact ofKept wire member id id
    | move moved place => exact ofKept wire member id id
    | disconnect a b => exact ofKept wire (List.mem_filter.mp member).1 id id
    | connect first second =>
      rcases List.mem_append.mp member with old | new
      · exact ofKept wire old id id
      · obtain rfl := List.mem_singleton.mp new
        exact ⟨does.stays anchors.1 id, does.stays anchors.2 id⟩
    | remove removed =>
      rw [rewired] at member
      split at member
      · obtain ⟨old, apart⟩ := List.mem_filter.mp member
        simp only [Wire.touches, Bool.not_or, Bool.and_eq_true, Bool.not_eq_true', beq_eq_false_iff_ne]
          at apart
        exact ofKept wire old (fun isFirst => apart.1 isFirst.symm) fun isSecond => apart.2 isSecond.symm
      · next absent =>
        -- No node had the handle, so no wire led to it.
        have isOther {id : NodeId} (present : (before.node? id).isSome = true) : removed ≠ id := by
          rintro rfl
          exact absent present
        exact ofKept wire member (isOther (anchored wire member).1) (isOther (anchored wire member).2)
  | change changed made => exact ofKept wire member id id
  | reload spread => exact ofKept wire member id id

variable (start : Circuit × Revision)

/-- Only the next slot is given out. -/
theorem eq_next_of_given {circuit : Circuit} {id : NodeId} (gives : deed.given circuit = some id) :
    id = circuit.nodes.next := by
  cases deed with
  | edit made =>
    cases made with
    | add added => exact (Option.some.inj gives).symm
    | _ => cases gives
  | _ => cases gives

/-- The handles that some deeds give out are the slots from the next one on, one after the other. -/
theorem handles_eq_range' (deeds : List Deed) :
    handles start deeds = List.range' start.1.nodes.next (handles start deeds).length := by
  induction deeds generalizing start with
  | nil => rfl
  | cons deed rest inductionHypothesis =>
    have next := (does_apply deed start).next
    have later := inductionHypothesis (deed.apply start)
    rw [handles]
    cases gives : deed.given start.1 with
    | none =>
      rw [gives] at next
      rw [later, next]
      simp
    | some id =>
      rw [gives] at next
      obtain rfl := eq_next_of_given gives
      rw [later, next]
      simp [List.range'_succ]

/-- A vacant slot stays vacant. -/
theorem vacant_run (deeds : List Deed) {id : NodeId} (inside : id < start.1.nodes.next)
    (isVacant : start.1.node? id = none) : (run start deeds).1.node? id = none := by
  induction deeds generalizing start with
  | nil => exact isVacant
  | cons deed rest inductionHypothesis =>
    have does := does_apply deed start
    exact inductionHypothesis _ (does.next ▸ Nat.lt_add_right _ inside) (does.vacant id inside isVacant)

/-- A handle that was removed names no node any more. -/
theorem removed_run (deeds : List Deed) {id : NodeId} (inside : id < start.1.nodes.next)
    (removes : ∃ deed ∈ deeds, deed.Removes id) : (run start deeds).1.node? id = none := by
  induction deeds generalizing start with
  | nil => exact absurd removes (by simp)
  | cons deed rest inductionHypothesis =>
    have does := does_apply deed start
    have insideAfter : id < (deed.apply start).1.nodes.next := does.next ▸ Nat.lt_add_right _ inside
    obtain ⟨removal, member, removes⟩ := removes
    rcases List.mem_cons.mp member with rfl | later
    · exact vacant_run _ rest insideAfter (does.removed id removes)
    · exact inductionHypothesis _ insideAfter ⟨removal, later, removes⟩

/-- A handle that is not removed names what the deeds made of its node. -/
theorem kept_run (deeds : List Deed) {id : NodeId} {node : Node Circuit}
    (found : start.1.node? id = some node) (keeps : ∀ deed ∈ deeds, ¬deed.Removes id) :
    ∃ kept, (run start deeds).1.node? id = some kept ∧ Leads id node deeds kept := by
  induction deeds generalizing start node with
  | nil => exact ⟨node, found, rfl⟩
  | cons deed rest inductionHypothesis =>
    obtain ⟨between, foundBetween, turns⟩ :=
      (does_apply deed start).kept id node found (keeps deed List.mem_cons_self)
    obtain ⟨kept, isKept, leads⟩ := inductionHypothesis (deed.apply start) foundBetween
      fun deed member => keeps deed (List.mem_cons_of_mem _ member)
    exact ⟨kept, isKept, between, turns, leads⟩

/-- Where all wires lead to nodes, and only nodes are wired, all wires lead to nodes in the end. -/
theorem anchored_run (deeds : List Deed) (anchored : start.1.Anchored) (anchors : AllAnchor start deeds) :
    (run start deeds).1.Anchored := by
  induction deeds generalizing start with
  | nil => exact anchored
  | cons deed rest inductionHypothesis =>
    exact inductionHypothesis _ ((does_apply deed start).anchored anchors.1 anchored) anchors.2

/-- Deeds are done one after the other. -/
theorem run_append (past future : List Deed) : run start (past ++ future) = run (run start past) future :=
  List.foldl_append

/-- **Handles are stable.** Over all deeds, handles are given out in ascending order, none that was in use
before, and each names the node that was added for it. From any moment on, a handle that names no node any
more, or whose node is removed later, never names one again, and every other handle keeps naming its own node,
which the deeds change and nothing else. At any moment the nodes are listed in the order of their handles,
each that lives and no other, and the next deed leaves all wires in their order, but for those at a node that
it removes, those that join two ports that it separates, and the one that it adds. If all wires led to nodes
in the beginning, and every deed that wired two ports found the nodes of both, all wires lead to nodes. -/
theorem handles_stable (start : Circuit × Revision) (past future : List Deed) :
    (handles start (past ++ future)).Pairwise (· < ·) ∧
    (∀ id ∈ handles start (past ++ future), start.1.nodes.next ≤ id) ∧
    (∀ added id, given (run start past).1 (.edit (.add added)) = some id →
      (apply (run start past) (.edit (.add added))).1.node? id = some added) ∧
    (∀ id < (run start past).1.nodes.next,
      (run start past).1.node? id = none ∨ (∃ deed ∈ future, deed.Removes id) →
        (run start (past ++ future)).1.node? id = none) ∧
    (∀ id node, (run start past).1.node? id = some node → (∀ deed ∈ future, ¬deed.Removes id) →
      ∃ kept, (run start (past ++ future)).1.node? id = some kept ∧ Leads id node future kept) ∧
    ((run start past).1.nodes.items.map Prod.fst).Pairwise (· < ·) ∧
    (∀ id node, (id, node) ∈ (run start past).1.nodes.items ↔ (run start past).1.node? id = some node) ∧
    (∀ deed, (apply (run start past) deed).1.wires = rewired (run start past).1 deed) ∧
    (start.1.Anchored → AllAnchor start past → (run start past).1.Anchored) := by
  refine ⟨?_, fun id member => ?_, fun added id gives => ?_, fun id inside gone => ?_,
    fun id node found keeps => ?_, List.pairwise_map.mpr (Arena.pairwise_items _), fun id node => Arena.mem_items,
    fun deed => (does_apply deed _).wires, fun anchored anchors => anchored_run start past anchored anchors⟩
  · rw [handles_eq_range']
    exact List.pairwise_lt_range'
  · rw [handles_eq_range', List.mem_range'_1] at member
    exact member.1
  · obtain rfl := eq_next_of_given gives
    exact (Arena.get?_alloc ..).trans (if_pos rfl)
  · rw [run_append]
    rcases gone with isVacant | removes
    · exact vacant_run _ future inside isVacant
    · exact removed_run _ future inside removes
  · rw [run_append]
    exact kept_run _ future found keeps

/-- A pin is wired to a lamp. -/
def wiredLamp : List Deed :=
  [.edit (.add (.ofPart (.inputPin .one (.bit false)))), .edit (.add (.ofPart (.light false))),
    .edit (.connect ⟨0, "out"⟩ ⟨1, "in"⟩)]

/-- The pin is removed, the circuit is saved and loaded, and another pin is added and labelled. -/
def exchangedPin : List Deed :=
  [.edit (.remove 0), .reload false, .edit (.add (.ofPart (.inputPin .one (.bit false)))),
    .change 2 fun node => { node with label := "B" }]

/-- The pin that is added last has a handle of its own, that of the first pin names nothing in the end, the
lamp kept its own, and before its pin was removed no wire led nowhere. -/
theorem exchangedPin_keeps_handles :
    handles (.empty 0, 1) (wiredLamp ++ exchangedPin) = [0, 1, 2] ∧
      (run (.empty 0, 1) (wiredLamp ++ exchangedPin)).1.node? 0 = none ∧
      (∃ kept, (run (.empty 0, 1) (wiredLamp ++ exchangedPin)).1.node? 1 = some kept) ∧
      (run (.empty 0, 1) wiredLamp).1.Anchored := by
  have given : handles (.empty 0, 1) (wiredLamp ++ exchangedPin) = [0, 1, 2] := by decide +kernel
  have next : (run (.empty 0, 1) wiredLamp).1.nodes.next = 2 := rfl
  have unwired : (Circuit.empty 0).Anchored := by simp [Circuit.Anchored, Circuit.empty]
  have anchors : AllAnchor (.empty 0, 1) wiredLamp := ⟨trivial, trivial, ⟨rfl, rfl⟩, trivial⟩
  have removes : ∃ deed ∈ exchangedPin, deed.Removes 0 := ⟨_, List.mem_cons_self, rfl⟩
  have keeps : ∀ deed ∈ exchangedPin, ¬deed.Removes 1 := by simp [exchangedPin, Removes]
  obtain ⟨_, _, _, gone, kept, _, _, _, anchored⟩ := handles_stable (.empty 0, 1) wiredLamp exchangedPin
  obtain ⟨lamp, isLamp, _⟩ := kept 1 _ rfl keeps
  exact ⟨given, gone 0 (next ▸ Nat.zero_lt_two) (.inr removes), ⟨lamp, isLamp⟩, anchored unwired anchors⟩

end Deed

end Breadboard
