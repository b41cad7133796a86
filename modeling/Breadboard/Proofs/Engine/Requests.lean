import Breadboard.Proofs.Engine.Currency
import Mathlib.Data.Set.Lattice

/-!
# What an evaluation asks for

Every level asks the cache for the netlist of its circuit once, before its passes, and the initial pass
settles every chip of the level. Later passes settle some of the chips again, which asks for nothing
new. So an evaluation that settles asks for the netlists of all circuits down to the depth limit and for
no others, by their revisions; what signals are, and what the cache keeps, makes no difference to that.
-/

namespace Breadboard

namespace NetlistCache

/-- The revisions of the kept netlists. -/
def revisions (cache : NetlistCache) : List Revision :=
  cache.entries.map (·.netlist.revision)

/-- The revisions of the kept netlists that were asked for since the last sweep. -/
def wanted (cache : NetlistCache) : List Revision :=
  (cache.entries.filter (·.used)).map (·.netlist.revision)

/-- Between two states of a cache the netlists of some revisions were asked for, once or more often, and
of no others. -/
structure Requests (requested : Set Revision) (before after : NetlistCache) : Prop where
  kept : ∀ revision, revision ∈ after.revisions ↔ revision ∈ before.revisions ∨ revision ∈ requested
  marked : ∀ revision, revision ∈ after.wanted ↔ revision ∈ before.wanted ∨ revision ∈ requested
  /-- One netlist is kept for every revision. -/
  distinct : before.revisions.Nodup → after.revisions.Nodup
  /-- Every netlist that is built is kept, beside those that were. -/
  built : after.builds + before.size = before.builds + after.size

/-- Nothing was asked for. -/
theorem Requests.none (cache : NetlistCache) : Requests ∅ cache cache where
  kept revision := by simp
  marked revision := by simp
  distinct := id
  built := rfl

/-- What was asked for first and what was asked for then. -/
theorem Requests.trans {first second : Set Revision} {start between finish : NetlistCache}
    (one : Requests first start between) (two : Requests second between finish) :
    Requests (first ∪ second) start finish where
  kept revision := by rw [two.kept, one.kept, Set.mem_union, or_assoc]
  marked revision := by rw [two.marked, one.marked, Set.mem_union, or_assoc]
  distinct := two.distinct ∘ one.distinct
  built := by
    have builtFirst := one.built
    have builtThen := two.built
    omega

/-- A marked netlist was asked for before or belongs to the revision that it is marked for. -/
theorem used_marked (revision : Revision) (entry : CachedNetlist) :
    (if entry.netlist.revision == revision then { entry with used := true } else entry).used =
      (entry.used || entry.netlist.revision == revision) := by
  cases same : entry.netlist.revision == revision with
  | true => exact (Bool.or_true _).symm
  | false => exact (Bool.or_false _).symm

/-- Marking the netlist of a revision, if one is kept, asks for the revision. -/
theorem requests_marked {cache : NetlistCache} {revision : Revision} (present : revision ∈ cache.revisions) :
    Requests {revision} cache
      { cache with
        entries := cache.entries.map fun entry =>
          if entry.netlist.revision == revision then { entry with used := true } else entry } where
  kept other := by
    simp only [revisions, List.map_map, Function.comp_def, netlist_marked, Set.mem_singleton_iff]
    rw [or_iff_left_of_imp]
    rintro rfl
    exact present
  marked other := by
    obtain ⟨entry, member, same⟩ := List.mem_map.mp present
    simp only [wanted, List.filter_map, List.map_map, Function.comp_def, netlist_marked, used_marked]
    simp only [List.mem_map, List.mem_filter, Bool.or_eq_true, beq_iff_eq, Set.mem_singleton_iff]
    constructor
    · rintro ⟨entry, ⟨member, used | same⟩, rfl⟩
      · exact .inl ⟨entry, ⟨member, used⟩, rfl⟩
      · exact .inr same
    · rintro (⟨entry, ⟨member, used⟩, rfl⟩ | rfl)
      · exact ⟨entry, ⟨member, .inl used⟩, rfl⟩
      · exact ⟨entry, ⟨member, .inr same⟩, same⟩
  distinct distinct := by
    simpa only [revisions, List.map_map, Function.comp_def, netlist_marked] using distinct
  built := by simp [size]

/-- Building a netlist, if none is kept of its revision, asks for the revision. -/
theorem requests_built {cache : NetlistCache} {netlist : Netlist}
    (absent : netlist.revision ∉ cache.revisions) :
    Requests {netlist.revision} cache ⟨cache.entries ++ [⟨netlist, true⟩], cache.builds + 1⟩ where
  kept other := by simp [revisions]
  marked other := by simp [wanted]
  distinct distinct := by
    rw [revisions, List.map_append]
    exact distinct.append (List.nodup_singleton _) (List.disjoint_singleton.mpr absent)
  built := by
    simp only [size, List.length_append, List.length_singleton]
    omega

/-- Asking for a circuit asks for its revision. -/
theorem requests_getOrBuild (cache : NetlistCache) (circuit : Circuit) :
    Requests {circuit.revision} cache (cache.getOrBuild circuit).2 := by
  have isKept : cache.get? circuit.revision = Option.none ↔ circuit.revision ∉ cache.revisions := by
    simpa [revisions] using get?_eq_none_iff
  unfold getOrBuild
  split
  · next found =>
    refine requests_marked (by_contra fun absent => ?_)
    rw [isKept.mpr absent] at found
    cases found
  · next none =>
    have absent : (Netlist.build circuit).revision ∉ cache.revisions := isKept.mp none
    exact requests_built absent

/-- A sweep keeps what was asked for, and forgets that it was. -/
theorem revisions_sweep (cache : NetlistCache) : cache.sweep.revisions = cache.wanted := by
  simp [revisions, wanted, sweep, Function.comp_def]

/-- After a sweep nothing has been asked for. -/
theorem wanted_sweep (cache : NetlistCache) : cache.sweep.wanted = [] := by
  refine List.map_eq_nil_iff.mpr (List.filter_eq_nil_iff.mpr fun entry member => ?_)
  obtain ⟨_, _, rfl⟩ := List.mem_map.mp member
  exact Bool.false_ne_true

/-- One netlist is kept for every revision, and none was asked for since the last sweep. -/
structure Swept (cache : NetlistCache) : Prop where
  distinct : cache.revisions.Nodup
  unmarked : cache.wanted = []

/-- An empty cache is swept. -/
theorem swept_empty : empty.Swept :=
  ⟨.nil, rfl⟩

/-- A cleared cache is swept. -/
theorem swept_clear (cache : NetlistCache) : cache.clear.Swept :=
  ⟨.nil, rfl⟩

variable {requested : Set Revision} {before after : NetlistCache}

/-- A sweep leaves a swept cache after requests. -/
theorem Requests.sweep (requests : Requests requested before after) (swept : before.Swept) :
    after.sweep.Swept where
  distinct := by
    rw [revisions_sweep]
    exact ((List.filter_sublist).map _).nodup (requests.distinct swept.distinct)
  unmarked := wanted_sweep after

/-- After requests to a swept cache a sweep keeps exactly what was asked for. -/
theorem Requests.mem_revisions_sweep (requests : Requests requested before after)
    (swept : before.Swept) (revision : Revision) :
    revision ∈ after.sweep.revisions ↔ revision ∈ requested := by
  rw [revisions_sweep, requests.marked, swept.unmarked]
  simp

/-- Requests to a swept cache build a netlist for everything that was asked for and not kept before,
counted in what a sweep keeps. -/
theorem Requests.builds_eq (requests : Requests requested before after) (swept : before.Swept) :
    after.builds =
      before.builds + (after.sweep.revisions.filter (· ∉ before.revisions)).length := by
  -- All that is kept after the requests was kept before or was asked for and not kept before.
  have parts : after.revisions.Perm
      (before.revisions ++ after.sweep.revisions.filter (· ∉ before.revisions)) := by
    refine (List.perm_ext_iff_of_nodup (requests.distinct swept.distinct) ?_).mpr fun revision => ?_
    · refine swept.distinct.append ((requests.sweep swept).distinct.filter _) fun revision left right => ?_
      simp only [List.mem_filter, decide_eq_true_eq] at right
      exact right.2 left
    · simp only [requests.kept, List.mem_append, List.mem_filter, decide_eq_true_eq,
        requests.mem_revisions_sweep swept]
      tauto
  have counted := parts.length_eq
  have built := requests.built
  rw [List.length_append] at counted
  simp only [revisions, List.length_map] at counted
  simp only [size] at built
  simp only [revisions]
  omega

end NetlistCache

namespace Circuit

/-- The revisions of a circuit and of those inside its chips, so many levels down. -/
def revisionsWithin (levels : Nat) (circuit : Circuit) : Set Revision :=
  { revision | ∃ path inner, circuit.inside? path = some inner ∧ path.length < levels ∧
    inner.revision = revision }

/-- The revisions of the circuits inside the chips of a circuit, so many levels down. -/
def revisionsBelow (levels : Nat) (circuit : Circuit) : Set Revision :=
  { revision | ∃ id node body, circuit.node? id = some node ∧ node.part = .chip body ∧
    revision ∈ body.circuit.revisionsWithin levels }

/-- The levels of a circuit are its own one and those inside its chips. -/
theorem revisionsWithin_succ (levels : Nat) (circuit : Circuit) :
    circuit.revisionsWithin (levels + 1) = {circuit.revision} ∪ circuit.revisionsBelow levels := by
  ext revision
  constructor
  · rintro ⟨path, inner, leads, short, rfl⟩
    cases path with
    | nil =>
      rw [inside?] at leads
      exact .inl (congrArg Circuit.revision (Option.some.inj leads)).symm
    | cons id path =>
      obtain ⟨node, body, found, isChip, deeper⟩ := inside?_cons_iff.mp leads
      exact .inr ⟨id, node, body, found, isChip, path, inner, deeper, Nat.lt_of_succ_lt_succ short, rfl⟩
  · rintro (rfl | ⟨id, node, body, found, isChip, path, inner, leads, short, rfl⟩)
    · exact ⟨[], circuit, by rw [inside?], Nat.succ_pos _, rfl⟩
    · exact ⟨id :: path, inner, inside?_cons_iff.mpr ⟨node, body, found, isChip, leads⟩,
        Nat.succ_lt_succ short, rfl⟩

/-- On no level there is no revision. -/
theorem revisionsWithin_zero (circuit : Circuit) : circuit.revisionsWithin 0 = ∅ :=
  Set.eq_empty_of_forall_notMem fun _ ⟨_, _, _, short, _⟩ => absurd short (Nat.not_lt_zero _)

variable {left right : Circuit}

/-- Circuits with one blueprint bear the same revisions. -/
theorem revisionsWithin_of_blueprint_eq (same : left.blueprint = right.blueprint) (levels : Nat) :
    left.revisionsWithin levels = right.revisionsWithin levels := by
  have one {left right : Circuit} (same : left.blueprint = right.blueprint) :
      left.revisionsWithin levels ⊆ right.revisionsWithin levels := by
    rintro revision ⟨path, inner, leads, short, rfl⟩
    obtain ⟨other, leadsToo, sameInner⟩ := inside?_of_blueprint_eq same.symm leads
    exact ⟨path, other, leadsToo, short, revision_of_blueprint_eq sameInner⟩
  exact Set.Subset.antisymm (one same) (one same.symm)

/-- Circuits with one blueprint bear the same revisions below. -/
theorem revisionsBelow_of_blueprint_eq (same : left.blueprint = right.blueprint) (levels : Nat) :
    left.revisionsBelow levels = right.revisionsBelow levels := by
  have one {left right : Circuit} (same : left.blueprint = right.blueprint) :
      left.revisionsBelow levels ⊆ right.revisionsBelow levels := by
    rintro revision ⟨id, node, body, found, isChip, member⟩
    obtain ⟨other, foundOther, sameNode⟩ := counterpart_of_viewed_eq same found
    obtain ⟨otherBody, isOther, sameInner⟩ := Node.chip_of_outlined_eq sameNode isChip
    rw [revisionsWithin_of_blueprint_eq sameInner] at member
    exact ⟨id, other, otherBody, foundOther, isOther, member⟩
  exact Set.Subset.antisymm (one same) (one same.symm)

end Circuit

open NetlistCache (Requests requests_getOrBuild)

namespace NetlistCache

/-- The netlists of some revisions were asked for, and of no others than some; of all of these, if the
pass was the initial one. -/
def Asked (initial : Bool) (all : Set Revision) (before after : NetlistCache) : Prop :=
  ∃ requested ⊆ all, (initial = true → requested = all) ∧ Requests requested before after

variable {initial : Bool} {first second all : Set Revision} {start between finish : NetlistCache}

/-- Where there is nothing to ask for, nothing was asked for. -/
theorem Asked.none (initial : Bool) (cache : NetlistCache) : Asked initial ∅ cache cache :=
  ⟨∅, Set.Subset.rfl, fun _ => rfl, .none cache⟩

/-- In a later pass it may be that nothing was asked for. -/
theorem Asked.idle (all : Set Revision) (cache : NetlistCache) : Asked false all cache cache :=
  ⟨∅, Set.empty_subset all, fun isInitial => absurd isInitial Bool.false_ne_true, .none cache⟩

/-- All of it was asked for. -/
theorem Requests.asked (initial : Bool) (requests : Requests all start finish) :
    Asked initial all start finish :=
  ⟨all, Set.Subset.rfl, fun _ => rfl, requests⟩

/-- What was asked for in one part of a pass and in another. -/
theorem Asked.trans (one : Asked initial first start between)
    (two : Asked initial second between finish) : Asked initial (first ∪ second) start finish := by
  obtain ⟨requestedFirst, withinFirst, allFirst, requestsFirst⟩ := one
  obtain ⟨requestedThen, withinThen, allThen, requestsThen⟩ := two
  refine ⟨_, Set.union_subset_union withinFirst withinThen, fun isInitial => ?_,
    requestsFirst.trans requestsThen⟩
  rw [allFirst isInitial, allThen isInitial]

/-- Later passes ask for nothing new. -/
theorem Asked.again (one : Asked initial all start between) (two : Asked false all between finish) :
    Asked initial all start finish := by
  obtain ⟨requestedFirst, withinFirst, allFirst, requestsFirst⟩ := one
  obtain ⟨requestedThen, withinThen, _, requestsThen⟩ := two
  refine ⟨_, Set.union_subset withinFirst withinThen, fun isInitial => ?_,
    requestsFirst.trans requestsThen⟩
  rw [allFirst isInitial, Set.union_eq_left.mpr withinThen]

end NetlistCache

/-- Settling the circuits inside chips keeps their blueprints, and asks for the netlists of the circuits
so many levels down if no fault arises. -/
structure InnerSettling.AsksWithin (levels : Nat) (settleInner : InnerSettling) : Prop where
  keeps : settleInner.Abide Node.KeepsBlueprint (fun _ => True) (fun _ => True) settleInner
  asks : ∀ circuit cache report, (settleInner circuit cache).2.2 = .ok report →
    Requests (circuit.revisionsWithin levels) cache (settleInner circuit cache).2.1

/-- An evaluation keeps blueprints, whatever is known of circuits and caches. -/
theorem invariant_blueprint :
    Invariant Node.KeepsBlueprint (fun _ => True) (fun _ => True) fun _ => True :=
  .of_blueprint (fun _ _ => trivial) (fun _ _ => trivial) (fun _ _ _ _ _ _ => trivial) fun _ _ => trivial

namespace Node

/-- The revisions of the circuits inside a node, so many levels down. -/
def revisionsBelow (levels : Nat) (node : Node Circuit) : Set Revision :=
  { revision | ∃ body, node.part = .chip body ∧ revision ∈ body.circuit.revisionsWithin levels }

/-- A chip has the revisions of its circuit below it. -/
theorem revisionsBelow_of_chip {node : Node Circuit} {body : Chip Circuit}
    (isChip : node.part = .chip body) (levels : Nat) :
    node.revisionsBelow levels = body.circuit.revisionsWithin levels := by
  ext revision
  constructor
  · rintro ⟨other, isOther, member⟩
    rw [isChip] at isOther
    cases isOther
    exact member
  · exact fun member => ⟨body, isChip, member⟩

/-- A node without a circuit has no revisions below it. -/
theorem revisionsBelow_of_not_chip {node : Node Circuit} (noChip : ∀ body, node.part ≠ .chip body)
    (levels : Nat) : node.revisionsBelow levels = ∅ :=
  Set.eq_empty_of_forall_notMem fun _ ⟨body, isChip, _⟩ => noChip body isChip

/-- A chip that is due asks for the circuits inside it, and every chip is due in the initial pass. -/
theorem asked_stepIn {levels : Nat} {settleInner : InnerSettling}
    (inner : settleInner.AsksWithin levels) (initial : Bool) (node : Node Circuit)
    (cache : NetlistCache) (faultless : (node.stepIn settleInner initial cache).2.2 = none) :
    NetlistCache.Asked initial (node.revisionsBelow levels) cache
      (node.stepIn settleInner initial cache).2.1 := by
  cases part : node.part with
  | chip body =>
    have driven := Circuit.revisionsWithin_of_blueprint_eq
      (Circuit.blueprint_drivePins body node.inputs body.currentBindings.inputs) levels
    have asks := inner.asks (body.drivenAsBound node.inputs) cache
    rw [Chip.drivenAsBound, driven, ← revisionsBelow_of_chip part] at asks
    revert faultless
    simp only [stepIn, part, Chip.step_eq_holding]
    by_cases due : body.isDue initial node.inputs = true
    · simp only [if_pos due]
      revert asks
      rw [← Chip.drivenAsBound]
      rcases settleInner (body.drivenAsBound node.inputs) cache with ⟨reached, after, fault | report⟩
      · intro _ faultless
        cases faultless
      · exact fun asks _ => (asks report rfl).asked initial
    · simp only [if_neg due]
      intro _
      have later : initial = false := by
        by_contra isInitial
        exact due (by simp [Chip.isDue, Bool.eq_true_of_not_eq_false isInitial])
      rw [later]
      exact .idle _ cache
  | _ =>
    rw [revisionsBelow_of_not_chip (by simp [part])]
    simp only [stepIn, part]
    exact .none initial cache

end Node

namespace Circuit

variable {levels : Nat} {settleInner : InnerSettling}

/-- The revisions of the circuits inside some slots, so many levels down. -/
def slotsBelow (levels : Nat) (slots : List (Option (Node Circuit))) : Set Revision :=
  { revision | ∃ node, some node ∈ slots ∧ revision ∈ node.revisionsBelow levels }

/-- The revisions inside slots are those inside the first and those inside the others. -/
theorem slotsBelow_cons (levels : Nat) (node : Node Circuit) (rest : List (Option (Node Circuit))) :
    slotsBelow levels (some node :: rest) = node.revisionsBelow levels ∪ slotsBelow levels rest := by
  ext revision
  simp only [slotsBelow, List.mem_cons, Option.some.injEq, Set.mem_ofPred_eq, Set.mem_union, or_and_right,
    exists_or, exists_eq_left]

/-- The revisions inside the slots of a circuit are those below it. -/
theorem slotsBelow_slots (levels : Nat) (circuit : Circuit) :
    slotsBelow levels circuit.nodes.slots = circuit.revisionsBelow levels := by
  ext revision
  constructor
  · rintro ⟨node, member, body, isChip, below⟩
    obtain ⟨id, here⟩ := List.mem_iff_getElem?.mp member
    exact ⟨id, node, body, by rw [node?, Arena.get?, here, Option.join_some], isChip, below⟩
  · rintro ⟨id, node, body, found, isChip, below⟩
    rw [node?, Arena.get?, Option.join_eq_some_iff] at found
    exact ⟨node, List.mem_of_getElem? found, body, isChip, below⟩

/-- The nodes of a level ask for the circuits inside them, one after the other.

Proof: by induction on the slots. -/
theorem asked_stepSlots (inner : settleInner.AsksWithin levels) (initial : Bool)
    (slots : List (Option (Node Circuit))) (cache : NetlistCache) (changed : Bool)
    (steps : (stepSlots (Node.stepIn settleInner initial) slots cache).2.2 = .ok changed) :
    NetlistCache.Asked initial (slotsBelow levels slots) cache
      (stepSlots (Node.stepIn settleInner initial) slots cache).2.1 := by
  induction slots generalizing cache changed with
  | nil =>
    rw [show slotsBelow levels [] = ∅ by simp [slotsBelow]]
    exact .none initial cache
  | cons slot rest inductionHypothesis =>
    cases slot with
    | none =>
      have same : slotsBelow levels (none :: rest) = slotsBelow levels rest := by simp [slotsBelow]
      rw [same]
      exact inductionHypothesis cache changed steps
    | some node =>
      have stepped := node.asked_stepIn inner initial cache
      rw [slotsBelow_cons]
      revert stepped steps
      simp only [stepSlots]
      rcases node.stepIn settleInner initial cache with ⟨reached, after, _ | fault⟩
      · have others := inductionHypothesis after
        revert others
        dsimp only
        rcases stepSlots (Node.stepIn settleInner initial) rest after with
          ⟨reachedRest, afterRest, fault | later⟩
        · intro _ steps
          cases steps
        · exact fun others _ stepped => (stepped rfl).trans (others later rfl)
      · intro steps
        cases steps

/-- A pass keeps the blueprint of its level. -/
theorem blueprint_pass (inner : settleInner.AsksWithin levels) (initial : Bool) (netlist : Netlist)
    (circuit : Circuit) (cache : NetlistCache) :
    (pass (Node.stepIn settleInner initial) netlist circuit cache).1.blueprint = circuit.blueprint := by
  have passes : Abides (Related Node.KeepsBlueprint) _ circuit
      (pass (Node.stepIn settleInner initial) netlist circuit cache) _ := invariant_blueprint.pass
    (fun _ holds _ isKnown => invariant_blueprint.stepIn inner.keeps initial holds isKnown)
    (Eq.refl netlist.nets) trivial trivial
  exact passes.2.1.blueprint_eq

/-- A pass over a level asks for the circuits inside its chips, and for all of them if it is the initial
one. -/
theorem asked_pass (inner : settleInner.AsksWithin levels) (initial : Bool) (netlist : Netlist)
    (circuit : Circuit) (cache : NetlistCache) (changed : Bool)
    (passes : (pass (Node.stepIn settleInner initial) netlist circuit cache).2.2 = .ok changed) :
    NetlistCache.Asked initial (circuit.revisionsBelow levels) cache
      (pass (Node.stepIn settleInner initial) netlist circuit cache).2.1 := by
  revert passes
  simp only [pass]
  generalize netlist.nets.map (fun net => (net, net.resolve circuit)) = signals
  have staged := (invariant_blueprint.related_stage circuit signals).blueprint_eq
  have stepped := asked_stepSlots inner initial (circuit.stage signals).nodes.slots cache
  rw [slotsBelow_slots, revisionsBelow_of_blueprint_eq staged] at stepped
  revert stepped
  rcases stepSlots (Node.stepIn settleInner initial) (circuit.stage signals).nodes.slots cache with
    ⟨reached, after, fault | changed⟩
  · intro _ passes
    cases passes
  · exact fun stepped _ => stepped changed rfl

/-- Passes over a level ask for the circuits inside its chips, and for all of them if there is an initial
pass among them.

Proof: by induction on the passes left. -/
theorem asked_passes (inner : settleInner.AsksWithin levels) (netlist : Netlist) (left : Nat)
    (report : Settling) (circuit : Circuit) (cache : NetlistCache) {settled : Settling}
    (settles : (passes (fun initial => pass (Node.stepIn settleInner initial) netlist) left report circuit
      cache).2.2 = .ok settled) :
    NetlistCache.Asked (report.passes == 0 && left != 0) (circuit.revisionsBelow levels) cache
      (passes (fun initial => pass (Node.stepIn settleInner initial) netlist) left report circuit
        cache).2.1 := by
  induction left generalizing report circuit cache with
  | zero =>
    rw [show (report.passes == 0 && 0 != 0) = false from Bool.and_false _]
    exact .idle _ cache
  | succ left inductionHypothesis =>
    have asked := asked_pass inner (report.passes == 0) netlist circuit cache
    have same := revisionsBelow_of_blueprint_eq
      (blueprint_pass inner (report.passes == 0) netlist circuit cache) levels
    revert settles asked same
    rw [show (report.passes == 0 && left + 1 != 0) = (report.passes == 0) by simp]
    simp only [passes]
    rcases pass (Node.stepIn settleInner (report.passes == 0)) netlist circuit cache with
      ⟨reached, after, fault | changed⟩
    · intro settles
      cases settles
    · simp only
      split
      · exact fun _ asked _ => asked changed rfl
      · intro settles asked same
        have later := inductionHypothesis _ reached after settles
        rw [same] at later
        exact (asked changed rfl).again later

/-- Settling a level asks for its own circuit and for those inside its chips. -/
theorem requests_settle (inner : settleInner.AsksWithin levels) {maxPasses : Nat} (allowed : 0 < maxPasses)
    (circuit : Circuit) (cache : NetlistCache) {report : Settling}
    (settles : (circuit.settle settleInner maxPasses cache).2.2 = .ok report) :
    Requests (circuit.revisionsWithin (levels + 1)) cache
      (circuit.settle settleInner maxPasses cache).2.1 := by
  obtain ⟨requested, _, all, requests⟩ := asked_passes inner (cache.getOrBuild circuit).1 maxPasses .idle
    circuit (cache.getOrBuild circuit).2 settles
  have isInitial : (Settling.idle.passes == 0 && maxPasses != 0) = true := by
    simp [Settling.idle, allowed.ne']
  rw [revisionsWithin_succ, ← all isInitial]
  exact (requests_getOrBuild cache circuit).trans requests

/-- Settling the circuit inside a chip asks for the circuits down to the depth limit.

Proof: by induction on the levels left. -/
theorem asksWithin_settleWithin {maxPasses : Nat} (allowed : 0 < maxPasses) (below : Except Fault Settling)
    (levels : Nat) : (settleWithin maxPasses below levels).AsksWithin levels := by
  refine ⟨invariant_blueprint.settleWithin maxPasses below levels, ?_⟩
  induction levels with
  | zero =>
    intro circuit cache _ _
    rw [revisionsWithin_zero]
    exact .none cache
  | succ levels inductionHypothesis =>
    intro circuit cache report settles
    have inner : (settleWithin maxPasses below levels).AsksWithin levels :=
      ⟨invariant_blueprint.settleWithin maxPasses below levels, inductionHypothesis⟩
    have quieted := (invariant_blueprint.related_quieted circuit).blueprint_eq
    rw [← revisionsWithin_of_blueprint_eq quieted]
    exact requests_settle inner allowed circuit.quieted cache settles

/-- An evaluation at the top that settles asks for the netlists of all circuits down to the depth limit,
and for no others. -/
theorem requests_evaluate {limits : Limits} (allowed : 0 < limits.maxPasses) (circuit : Circuit)
    (cache : NetlistCache) (report : Settling)
    (settles : (circuit.evaluate limits .top cache).2.2 = .ok report) :
    Requests (circuit.revisionsWithin (limits.maxDepth + 1)) cache
      (circuit.evaluate limits .top cache).2.1 := by
  have begun := (invariant_blueprint.related_started limits .top circuit).blueprint_eq
  revert settles begun
  rw [evaluate_eq (show EvalContext.top.depth ≤ limits.maxDepth from Nat.zero_le _)]
  rcases circuit.started limits .top with ⟨reached, _ | fault⟩
  · intro settles begun
    rw [← revisionsWithin_of_blueprint_eq begun]
    exact requests_settle (asksWithin_settleWithin allowed _ limits.maxDepth) allowed reached cache settles
  · intro settles
    cases settles

end Circuit

end Breadboard
