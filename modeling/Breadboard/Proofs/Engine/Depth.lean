import Breadboard.Proofs.Engine.Clockwork
import Breadboard.Proofs.Engine.Steadiness

/-!
# What an evaluation reaches

An evaluation is given a number of levels, and every chip below the top uses one of them up. On the last
level the circuits inside chips are not settled any more, but they are driven all the same, in every pass.
So what is inside a chip on that level differs afterwards at the pins that the chip drives and nowhere
else, and no chip inside it is touched. This holds whatever netlists are kept and wherever a fault ends
the evaluation, since a pass does nothing to the circuits inside chips but to step the chips.
-/

namespace Breadboard

/-- The chip that the node is. -/
def Node.chip? (node : Node Circuit) : Option (Chip Circuit) :=
  match node.part with
  | .chip body => some body
  | _ => none

/-- The nodes are related chips, or no chips both. -/
def Node.Around (relation : Chip Circuit → Chip Circuit → Prop) (before after : Node Circuit) : Prop :=
  Option.Rel relation before.chip? after.chip?

/-- The node is what it was, or was driven. -/
def Node.Redriven (before after : Node Circuit) : Prop :=
  after = before ∨ ∃ signal, after = before.driveFrom signal

/-- The pins that the chip goes by and drives from its ports. -/
def Chip.drivenPins (chip : Chip Circuit) : List NodeId :=
  (chip.inputs.zip chip.currentBindings.inputs).map Prod.snd

/-- The second chip is the first one after its pins were driven, any number of times. -/
structure Chip.OnlyDriven (before after : Chip Circuit) : Prop where
  inputs : after.inputs = before.inputs
  outputs : after.outputs = before.outputs
  bindings : after.currentBindings = before.currentBindings
  circuit : Circuit.Related Node.Redriven before.circuit after.circuit
  undriven : ∀ id, id ∉ before.drivenPins → after.circuit.node? id = before.circuit.node? id

/-- The second chip is the first one but for levels that are evaluated and for the pins of the circuits
right below them. -/
def Chip.ReachedTo : Nat → Chip Circuit → Chip Circuit → Prop
  | 0, before, after => before.OnlyDriven after
  | levels + 1, before, after =>
    Circuit.Related (Node.Around (ReachedTo levels)) before.circuit after.circuit

namespace Node

variable {relation : Chip Circuit → Chip Circuit → Prop} {before after node : Node Circuit}
  {body : Chip Circuit}

/-- A node is the chip that its part is. -/
theorem chip?_eq_some_iff : node.chip? = some body ↔ node.part = .chip body := by
  obtain ⟨label, position, part, inputs, outputs⟩ := node
  cases part <;> simp [chip?]

/-- Any part but a chip makes no chip. -/
theorem chip?_eq_none (notChip : ∀ body, node.part ≠ .chip body) : node.chip? = none := by
  rw [Option.eq_none_iff_forall_ne_some]
  exact fun body isChip => notChip body (chip?_eq_some_iff.mp isChip)

/-- A node that stays the chip that it is, or stays none, is related. -/
theorem Around.of_chip?_eq (reflexive : ∀ body, relation body body) (same : after.chip? = before.chip?) :
    Around relation before after := by
  rw [Around, same]
  cases before.chip? with
  | none => exact .none
  | some body => exact .some (reflexive body)

theorem Around.trans {first second third : Node Circuit}
    (transitive : ∀ {first second third}, relation first second → relation second third →
      relation first third)
    (one : Around relation first second) (two : Around relation second third) :
    Around relation first third := by
  unfold Around at one two ⊢
  generalize first.chip? = left, second.chip? = middle, third.chip? = right at one two
  cases one with
  | none => exact two
  | some firstKept =>
    cases two with
    | some secondKept => exact .some (transitive firstKept secondKept)

/-- A related node of a chip is a related chip. -/
theorem Around.chip (around : Around relation before after) (isChip : before.part = .chip body) :
    ∃ reached, after.part = .chip reached ∧ relation body reached := by
  rw [Around, chip?_eq_some_iff.mpr isChip] at around
  generalize isReached : after.chip? = right at around
  cases around with
  | some kept => exact ⟨_, chip?_eq_some_iff.mp isReached, kept⟩

/-- A related node of what is no chip is none. -/
theorem Around.chip?_eq_none (around : Around relation before after) (none : before.chip? = none) :
    after.chip? = .none := by
  rw [Around, none] at around
  generalize after.chip? = right at around ⊢
  cases around with
  | none => rfl

/-- Driving a node leaves it the chip that it is or is not. -/
theorem chip?_driveFrom (signal : Option Signal) (node : Node Circuit) :
    (node.driveFrom signal).chip? = node.chip? := by
  obtain ⟨label, position, part, inputs, outputs⟩ := node
  cases part <;> rfl

/-- Quieting a node leaves it the chip that it is or is not. -/
theorem chip?_quieted (node : Node Circuit) : node.quieted.chip? = node.chip? := by
  obtain ⟨label, position, part, inputs, outputs⟩ := node
  cases part <;> rfl

/-- Stepping a primitive component makes no chip of it. -/
theorem chip?_step (notChip : ∀ body, node.part ≠ .chip body) : node.step.chip? = node.chip? := by
  obtain ⟨label, position, part, inputs, outputs⟩ := node
  cases part with
  | chip body => exact absurd rfl (notChip body)
  | resize direction => cases direction <;> rfl
  | _ => rfl

/-- The beginning of a tick leaves a node the chip that it is or is not. -/
theorem chip?_begun (interval : Nat) (node : Node Circuit) :
    (node.begun interval).chip? = node.chip? :=
  Option.ext fun body => by rw [chip?_eq_some_iff, chip?_eq_some_iff, chip_begun_iff]

/-- A pass over a level keeps of chips what their steps keep. -/
theorem levelInvariant_around (reflexive : ∀ body, relation body body)
    (transitive : ∀ {first second third}, relation first second → relation second third →
      relation first third) :
    LevelInvariant (Around relation) (fun _ => True) (fun _ => True) fun _ => True where
  refl _ := .of_chip?_eq reflexive rfl
  trans := .trans transitive
  staged _ _ := .of_chip?_eq reflexive rfl
  quieted node := .of_chip?_eq reflexive (chip?_quieted node)
  shown _ _ := .of_chip?_eq reflexive rfl
  lasts _ _ := trivial
  inner _ _ _ _ _ _ := trivial
  asked _ _ := trivial

/-- A driven node forgets what it was driven with before. -/
theorem Redriven.trans {first second third : Node Circuit} (one : first.Redriven second)
    (two : second.Redriven third) : first.Redriven third := by
  rcases one with rfl | ⟨earlier, rfl⟩
  · exact two
  · rcases two with rfl | ⟨later, rfl⟩
    · exact .inr ⟨earlier, rfl⟩
    · exact .inr ⟨later, driveFrom_driveFrom ..⟩

/-- A driven node is the chip that it was. -/
theorem Redriven.chip?_eq (redriven : before.Redriven after) : after.chip? = before.chip? := by
  rcases redriven with rfl | ⟨signal, rfl⟩
  · rfl
  · exact chip?_driveFrom signal before

/-- Driving leaves staged what was staged. -/
theorem Redriven.inputs (redriven : before.Redriven after) : after.inputs = before.inputs := by
  rcases redriven with rfl | ⟨signal, rfl⟩
  · rfl
  · obtain ⟨label, position, part, inputs, outputs⟩ := before
    cases part <;> rfl

end Node

namespace Chip

variable {chip before after : Chip Circuit} {id : NodeId}

/-- The pins that are driven are those that stand behind some port. -/
theorem isSome_driverAt? (chip : Chip Circuit) (id : NodeId) :
    (chip.driverAt? chip.currentBindings.inputs id).isSome = true ↔ id ∈ chip.drivenPins := by
  rw [driverAt?, Option.isSome_map, List.getLast?_isSome, ne_eq, List.filter_eq_nil_iff, drivenPins,
    List.mem_map]
  simp

/-- A chip that goes by current pins drives those that are bound. -/
theorem drivenPins_of_current (current : chip.currentBindings = computeBindings chip.circuit) :
    chip.drivenPins = chip.boundPins := by
  rw [drivenPins, current]
  rfl

theorem OnlyDriven.refl (chip : Chip Circuit) : chip.OnlyDriven chip :=
  ⟨rfl, rfl, rfl, .refl (fun _ => .inl rfl) _, fun _ _ => rfl⟩

theorem OnlyDriven.trans {first second third : Chip Circuit} (one : first.OnlyDriven second)
    (two : second.OnlyDriven third) : first.OnlyDriven third where
  inputs := two.inputs.trans one.inputs
  outputs := two.outputs.trans one.outputs
  bindings := two.bindings.trans one.bindings
  circuit := one.circuit.trans .trans two.circuit
  undriven id free := by
    have samePins : second.drivenPins = first.drivenPins := by
      rw [drivenPins, one.inputs, one.bindings, drivenPins]
    exact (two.undriven id (samePins ▸ free)).trans (one.undriven id free)

/-- A chip is driven around its driven circuit. -/
theorem onlyDriven_holding (chip : Chip Circuit) (inputs : PortMap) :
    chip.OnlyDriven (chip.holding inputs (chip.drivenAsBound inputs)) := by
  have related : Circuit.Related Node.Redriven chip.circuit (chip.drivenAsBound inputs) :=
    Circuit.related_drivePins (fun _ => .inl rfl) .trans (fun signal _ => .inr ⟨signal, rfl⟩) chip inputs _
  refine ⟨rfl, rfl, currentBindings_holding related.frame.revision, related, fun id free => ?_⟩
  have noDriver : chip.driverAt? chip.currentBindings.inputs id = none := by
    rwa [← isSome_driverAt?, Option.not_isSome_iff_eq_none] at free
  change (chip.drivenAsBound inputs).node? id = _
  rw [drivenAsBound, node?_drivePins, noDriver]
  simp only [Option.elim_none, Option.map_id']

/-- No more is reached of a chip than is. -/
theorem ReachedTo.refl (levels : Nat) (chip : Chip Circuit) : ReachedTo levels chip chip := by
  induction levels generalizing chip with
  | zero => exact OnlyDriven.refl chip
  | succ levels inductionHypothesis =>
    exact Circuit.Related.refl (fun _ => .of_chip?_eq inductionHypothesis rfl) chip.circuit

theorem ReachedTo.trans {levels : Nat} {first second third : Chip Circuit}
    (one : ReachedTo levels first second) (two : ReachedTo levels second third) :
    ReachedTo levels first third := by
  induction levels generalizing first second third with
  | zero => exact OnlyDriven.trans one two
  | succ levels inductionHypothesis => exact Circuit.Related.trans (.trans inductionHypothesis) one two

end Chip

/-- A step relates a node, if chips are related to what comes of their driven circuits, settled or not. -/
theorem Node.around_stepIn {relation : Chip Circuit → Chip Circuit → Prop}
    (reflexive : ∀ body, relation body body) {settleInner : InnerSettling}
    (driven : ∀ body inputs, relation body (body.holding inputs (body.drivenAsBound inputs)))
    (settled : ∀ body inputs cache,
      relation body (body.holding inputs (settleInner (body.drivenAsBound inputs) cache).1))
    (initial : Bool) (node : Node Circuit) (cache : NetlistCache) :
    Around relation node (node.stepIn settleInner initial cache).1 := by
  cases part : node.part with
  | chip body =>
    have settledHere := settled body node.inputs cache
    have drivenHere := driven body node.inputs
    rw [Around, chip?_eq_some_iff.mpr part]
    simp only [stepIn, part, Chip.step_eq_holding]
    split
    · revert settledHere
      rcases settleInner (body.drivenAsBound node.inputs) cache with ⟨reached, last, _ | _⟩ <;>
        exact fun kept => .some kept
    · exact .some drivenHere
  | _ =>
    refine .of_chip?_eq reflexive ?_
    simp only [stepIn, part]
    exact chip?_step (by simp [part])

/-- A step leaves a node a chip or none. -/
theorem Node.around_stepIn_any (settleInner : InnerSettling) (initial : Bool) (node : Node Circuit)
    (cache : NetlistCache) : Around (fun _ _ => True) node (node.stepIn settleInner initial cache).1 :=
  around_stepIn (fun _ => trivial) (fun _ _ => trivial) (fun _ _ _ => trivial) initial node cache

namespace Circuit

variable {before after circuit : Circuit}

/-- What steps keep of the chips on a level is kept when the level is settled, wherever a fault ends it. -/
theorem related_settle {relation : Chip Circuit → Chip Circuit → Prop}
    (reflexive : ∀ body, relation body body)
    (transitive : ∀ {first second third}, relation first second → relation second third →
      relation first third)
    {settleInner : InnerSettling}
    (stepped : ∀ initial node cache, Node.Around relation node (node.stepIn settleInner initial cache).1)
    (maxPasses : Nat) (circuit : Circuit) (cache : NetlistCache) :
    Related (Node.Around relation) circuit (circuit.settle settleInner maxPasses cache).1 := by
  have invariant := Node.levelInvariant_around reflexive transitive
  have passed : Abides (Related (Node.Around relation)) (fun _ => True) circuit
      (circuit.settle settleInner maxPasses cache) (circuit.settle settleInner maxPasses cache) :=
    invariant.passes
      (fun initial _ _ _ _ => invariant.pass
        (fun node _ cache _ => ⟨rfl, stepped initial node cache, trivial⟩) rfl trivial trivial)
      maxPasses .idle trivial trivial
  exact passed.2.1

/-- A step reaches as many levels as are left.

Proof: by induction on them. On the last level the circuit inside a chip is driven only; on any other one
it is driven and quieted, which leaves the chips in it alone, and settled with one level less. -/
theorem reachedTo_stepIn (maxPasses : Nat) (below : Except Fault Settling) (levels : Nat) (initial : Bool)
    (node : Node Circuit) (cache : NetlistCache) :
    Node.Around (Chip.ReachedTo levels) node
      (node.stepIn (settleWithin maxPasses below levels) initial cache).1 := by
  induction levels generalizing initial node cache with
  | zero =>
    refine Node.around_stepIn (Chip.ReachedTo.refl 0) (fun body => body.onlyDriven_holding)
      (fun body inputs _ => ?_) initial node cache
    rw [settleWithin]
    exact body.onlyDriven_holding inputs
  | succ levels inductionHypothesis =>
    have invariant := Node.levelInvariant_around (Chip.ReachedTo.refl levels) Chip.ReachedTo.trans
    have driven (body : Chip Circuit) (inputs : PortMap) :
        Related (Node.Around (Chip.ReachedTo levels)) body.circuit (body.drivenAsBound inputs) :=
      related_drivePins invariant.refl invariant.trans
        (fun signal node => .of_chip?_eq (.refl levels) (Node.chip?_driveFrom signal node)) body inputs _
    refine Node.around_stepIn (Chip.ReachedTo.refl (levels + 1)) driven (fun body inputs cache => ?_)
      initial node cache
    have quieted : Related (Node.Around (Chip.ReachedTo levels)) body.circuit
        (body.drivenAsBound inputs).quieted :=
      (driven body inputs).trans invariant.trans (invariant.related_quieted _)
    exact quieted.trans invariant.trans (related_settle (Chip.ReachedTo.refl levels) Chip.ReachedTo.trans
      inductionHypothesis maxPasses (body.drivenAsBound inputs).quieted cache)

/-- A tick reaches as many levels as the depth limit tells, wherever it ends. -/
theorem reachedTo_evaluate (limits : Limits) (circuit : Circuit) (cache : NetlistCache) :
    Related (Node.Around (Chip.ReachedTo limits.maxDepth)) circuit
      (circuit.evaluate limits .top cache).1 := by
  have invariant := Node.levelInvariant_around (Chip.ReachedTo.refl limits.maxDepth) Chip.ReachedTo.trans
  have begun : Related (Node.Around (Chip.ReachedTo limits.maxDepth)) circuit
      (circuit.beginTick limits.interval).1 :=
    related_of_begun invariant.refl
      (fun node => .of_chip?_eq (.refl _) (Node.chip?_begun limits.interval node)) circuit
  exact related_evaluate_of_begun begun invariant.trans
    (related_settle (Chip.ReachedTo.refl _) Chip.ReachedTo.trans
      (reachedTo_stepIn limits.maxPasses (.ok .tooDeep) limits.maxDepth) limits.maxPasses _ cache)

/-- Under a handle on the level that a path leads into stands the chip. -/
def HasChip (circuit : Circuit) (path : List NodeId) (id : NodeId) (node : Node Circuit)
    (body : Chip Circuit) : Prop :=
  ∃ level, circuit.inside? path = some level ∧ level.node? id = some node ∧ node.part = .chip body

/-- What stands under the handle is a node of the chip. -/
theorem HasChip.isChip {path : List NodeId} {id : NodeId} {node : Node Circuit} {body : Chip Circuit}
    (has : circuit.HasChip path id node body) : node.part = .chip body := by
  obtain ⟨_, _, _, isChip⟩ := has
  exact isChip

/-- A path leads into the chip that it begins with. -/
theorem inside?_cons (circuit : Circuit) (id : NodeId) (path : List NodeId) :
    circuit.inside? (id :: path) =
      ((circuit.node? id).bind Node.chip?).bind fun body => body.circuit.inside? path := by
  refine Option.ext fun inner => ?_
  simp only [inside?_cons_iff, Option.bind_eq_some_iff, Node.chip?_eq_some_iff]
  constructor
  · rintro ⟨node, body, found, isChip, leads⟩
    exact ⟨body, ⟨node, found, isChip⟩, leads⟩
  · rintro ⟨body, ⟨node, found, isChip⟩, leads⟩
    exact ⟨node, body, found, isChip, leads⟩

/-- A chip that a path leads on to stands in the chip that the path begins with. -/
theorem hasChip_cons_iff {first id : NodeId} {path : List NodeId} {node : Node Circuit}
    {body : Chip Circuit} :
    circuit.HasChip (first :: path) id node body ↔ ∃ outer around, circuit.node? first = some outer ∧
      outer.part = .chip around ∧ around.circuit.HasChip path id node body := by
  simp only [HasChip, inside?_cons_iff]
  constructor
  · rintro ⟨level, ⟨outer, around, found, isChip, leads⟩, here⟩
    exact ⟨outer, around, found, isChip, level, leads, here⟩
  · rintro ⟨outer, around, found, isChip, level, leads, here⟩
    exact ⟨level, ⟨outer, around, found, isChip, leads⟩, here⟩

/-- Related chips under one handle, or none, have related circuits inside them. -/
theorem Related.rel_chip? {relation : Chip Circuit → Chip Circuit → Prop}
    (related : Related (Node.Around relation) before after) (id : NodeId) :
    Option.Rel relation ((before.node? id).bind Node.chip?) ((after.node? id).bind Node.chip?) := by
  have here := related.nodes id
  generalize before.node? id = left, after.node? id = right at here
  cases here with
  | none => exact .none
  | some around => exact around

/-- Below the pins that are driven nothing is reached.

Proof: by induction on the levels. A chip in a driven circuit is what it was. -/
theorem inside?_of_reachedTo {levels : Nat}
    (related : Related (Node.Around (Chip.ReachedTo levels)) before after) {path : List NodeId}
    (deep : levels + 2 ≤ path.length) : after.inside? path = before.inside? path := by
  induction levels generalizing before after path with
  | zero =>
    -- The path leads through a chip that was driven into one that stands in its circuit.
    obtain ⟨outer, rest, rfl⟩ := List.exists_cons_of_length_pos (Nat.zero_lt_of_lt deep)
    obtain ⟨inner, path, rfl⟩ := List.exists_cons_of_length_pos (Nat.lt_of_succ_lt_succ deep)
    rw [inside?_cons, inside?_cons]
    have atOuter := related.rel_chip? outer
    generalize (before.node? outer).bind Node.chip? = left,
      (after.node? outer).bind Node.chip? = right at atOuter
    cases atOuter with
    | none => rfl
    | @some body reached driven =>
      have sameInner : (reached.circuit.node? inner).bind Node.chip? =
          (body.circuit.node? inner).bind Node.chip? := by
        have here := Chip.OnlyDriven.circuit driven |>.nodes inner
        generalize body.circuit.node? inner = left, reached.circuit.node? inner = right at here
        cases here with
        | none => rfl
        | some redriven => exact redriven.chip?_eq
      rw [Option.bind_some, Option.bind_some, inside?_cons, inside?_cons, sameInner]
  | succ levels inductionHypothesis =>
    obtain ⟨outer, path, rfl⟩ := List.exists_cons_of_length_pos (Nat.zero_lt_of_lt deep)
    rw [inside?_cons, inside?_cons]
    have atOuter := related.rel_chip? outer
    generalize (before.node? outer).bind Node.chip? = left,
      (after.node? outer).bind Node.chip? = right at atOuter
    cases atOuter with
    | none => rfl
    | some reached => exact inductionHypothesis reached (Nat.le_of_succ_le_succ deep)

/-- The chips on the last level that is reached are driven.

Proof: by induction on the levels. -/
theorem onlyDriven_of_reachedTo {levels : Nat}
    (related : Related (Node.Around (Chip.ReachedTo levels)) before after) {path : List NodeId}
    (last : path.length = levels) {id : NodeId} {node : Node Circuit} {body : Chip Circuit}
    (has : before.HasChip path id node body) :
    ∃ changed reached, after.HasChip path id changed reached ∧ body.OnlyDriven reached := by
  induction levels generalizing before after path with
  | zero =>
    obtain rfl := List.length_eq_zero_iff.mp last
    obtain ⟨level, leads, found, isChip⟩ := has
    rw [inside?, Option.some.injEq] at leads
    subst leads
    obtain ⟨changed, foundAfter, around⟩ := related.node? found
    obtain ⟨reached, isReached, driven⟩ := around.chip isChip
    exact ⟨changed, reached, ⟨after, by rw [inside?], foundAfter, isReached⟩, driven⟩
  | succ levels inductionHypothesis =>
    obtain ⟨first, path, rfl⟩ := List.exists_cons_of_length_eq_add_one last
    obtain ⟨outer, around, found, isAround, deeper⟩ := hasChip_cons_iff.mp has
    obtain ⟨outerAfter, foundAfter, kept⟩ := related.node? found
    obtain ⟨aroundAfter, isAroundAfter, relatedInside⟩ := kept.chip isAround
    obtain ⟨changed, reached, hasAfter, driven⟩ :=
      inductionHypothesis relatedInside (Nat.succ.inj last) deeper
    exact ⟨changed, reached, hasChip_cons_iff.mpr ⟨_, _, foundAfter, isAroundAfter, hasAfter⟩, driven⟩

end Circuit

end Breadboard
