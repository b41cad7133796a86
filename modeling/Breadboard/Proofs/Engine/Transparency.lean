import Breadboard.Proofs.Engine.Beginning

/-!
# Caches and derived pins are transparent

On a circuit that agrees with a table, with a cache that agrees with it too, an evaluation reaches what
an evaluation without caches reaches, and reports what it reports, unless a fault ends it. Below the
top the only fault is a depth that runs out of numbers, which the outcome for the circuits below the
depth limit decides.

Every function of the engine is matched with its plain counterpart, from the chip outward. All of them
keep circuit and cache in agreement with the table, because an evaluation retains every node.
-/

namespace Breadboard

variable {table : Revision → List Net}

/-- Driving a node retains it. -/
theorem Node.retains_driveFrom (signal : Option Signal) (node : Node Circuit) :
    Node.Retains table node (node.driveFrom signal) := by
  obtain ⟨label, position, part, inputs, outputs⟩ := node
  cases part with
  | chip body => exact .of_part rfl rfl rfl
  | _ => exact ⟨rfl, fun _ => faithful_of_not_chip fun body isChip => by cases isChip⟩

/-- Around a circuit of the same revision a chip keeps the pins that it was driven at. -/
theorem Chip.currentBindings_around {chip : Chip Circuit} {inputs : PortMap} {circuit : Circuit}
    (revision : circuit.revision = chip.circuit.revision) :
    (chip.around inputs circuit).currentBindings = computeBindings chip.circuit := by
  change (if chip.circuit.revision = circuit.revision then computeBindings chip.circuit
    else computeBindings circuit) = _
  rw [if_pos revision.symm]

/-- Putting a circuit of the same outline that agrees with the table into a chip retains the node. -/
theorem Node.retains_enclosing {node : Node Circuit} {body : Chip Circuit}
    (isChip : node.part = .chip body) (inputs : PortMap) {circuit : Circuit}
    (related : Circuit.Related (Node.Retains table) (body.driven inputs) circuit) :
    Node.Retains table node
      (node.enclosing (Chip.computeBindings body.circuit).outputs (body.around inputs circuit)) := by
  have retained : Circuit.Related (Node.Retains table) body.circuit circuit :=
    (Circuit.related_driven (fun _ => .of_part rfl rfl rfl)
      (fun first second => ⟨second.outline.trans first.outline, second.faithful ∘ first.faithful⟩)
      retains_driveFrom body inputs).trans
      (fun first second => ⟨second.outline.trans first.outline, second.faithful ∘ first.faithful⟩)
      related
  have outlines := retained.outline_eq
  constructor
  · obtain ⟨label, position, part, nodeInputs, outputs⟩ := node
    simp only at isChip
    subst isChip
    simp only [Node.outline, viewed, outlined, map, Part.map, Chip.map, Part.outline, enclosing,
      Chip.around]
    rw [show Circuit.viewed (fun _ => 0) Node.outlined circuit = circuit.outline from rfl, outlines]
    rfl
  · intro faithful other isOther
    obtain ⟨_, inner⟩ := faithful body isChip
    simp only [enclosing, Part.chip.injEq] at isOther
    subst isOther
    refine ⟨?_, retained.faithful inner⟩
    rw [Chip.currentBindings_around retained.frame.revision]
    exact (Circuit.computeBindings_of_outline_eq outlines retained.frame.revision).symm

/-- An evaluation retains every node. -/
theorem Node.lasting_retains (table : Revision → List Net) : Node.Lasting (Node.Retains table) where
  refl _ := .of_part rfl rfl rfl
  trans first second := ⟨second.outline.trans first.outline, second.faithful ∘ first.faithful⟩
  staged _ _ := .of_part rfl rfl rfl
  quieted node := by
    obtain ⟨_, _, part, _, _⟩ := node
    cases part <;> exact .of_part rfl rfl rfl
  shown _ _ _ := .of_part rfl rfl rfl
  stepped node notChip := by
    obtain ⟨label, position, part, inputs, outputs⟩ := node
    refine ⟨?_, fun _ => faithful_of_not_chip fun body isChip => ?_⟩
    · cases part with
      | resize direction => cases direction <;> rfl
      | _ => rfl
    · cases part with
      | chip inner => exact notChip inner rfl
      | resize direction => cases direction <;> cases isChip
      | _ => cases isChip
  enclosed _ _ isChip inputs _ related := retains_enclosing isChip inputs related

/-- The beginning of a tick retains a node. -/
theorem Node.retains_begun (interval : Nat) (node : Node Circuit) :
    Node.Retains table node (node.begun interval) := by
  obtain ⟨label, position, part, inputs, outputs⟩ := node
  cases part with
  | clock oscillator =>
    refine ⟨?_, fun _ => Node.faithful_of_not_chip fun body isChip => ?_⟩
    · simp only [Node.begun, Node.beginTick]
      cases oscillator.advance interval <;> rfl
    · simp only [Node.begun, Node.beginTick] at isChip
      cases advanced : oscillator.advance interval <;> rw [advanced] at isChip <;> cases isChip
  | _ => exact .of_part rfl rfl rfl

/-- An outcome reaches what is expected, with a result as told and a cache that agrees with the table,
or it is a fault, where faults are to be expected. -/
def Plainly {α β : Type} (table : Revision → List Net) (faults : Prop) (expected : α)
    (told : β → Prop) : α × NetlistCache × Except Fault β → Prop
  | (reached, cache, .ok result) => reached = expected ∧ told result ∧ cache.Knows table
  | (_, _, .error _) => faults

/-- What follows from what a result tells is told too. -/
theorem Plainly.imp {α β : Type} {table : Revision → List Net} {faults : Prop} {expected : α}
    {told other : β → Prop} {outcome : α × NetlistCache × Except Fault β}
    (plainly : Plainly table faults expected told outcome) (weaken : ∀ result, told result → other result) :
    Plainly table faults expected other outcome := by
  obtain ⟨reached, cache, fault | result⟩ := outcome
  · exact plainly
  · exact ⟨plainly.1, weaken result plainly.2.1, plainly.2.2⟩

/-- The step of a node reaches what is expected, tells something, and leaves a cache that agrees with
the table, or it is a fault, where faults are to be expected. -/
def StepsPlainly (table : Revision → List Net) (faults : Prop) (expected : Node Circuit) (told : Prop) :
    Node Circuit × NetlistCache × Option Fault → Prop
  | (reached, cache, none) => reached = expected ∧ told ∧ cache.Knows table
  | (_, _, some _) => faults

/-- Circuits inside chips are settled as they are plainly, if they agree with the table. -/
def SettlesPlainly (table : Revision → List Net) (faults : Prop) (plain : Circuit → Circuit)
    (settleInner : InnerSettling) : Prop :=
  ∀ circuit cache, circuit.Faithful table → cache.Knows table →
    Plainly table faults (plain circuit) (fun _ => True) (settleInner circuit cache)

variable {faults : Prop} {plain : Circuit → Circuit} {settleInner : InnerSettling}

/-- With what arrives at it staged, a node of a circuit that agrees with the table does so too. -/
theorem Circuit.Faithful.node {circuit : Circuit} (faithful : circuit.Faithful table) {id : NodeId}
    {node : Node Circuit} (found : circuit.node? id = some node) {arriving : PortMap} :
    (node.staged arriving).Faithful table := by
  obtain ⟨_, _, bound, inner⟩ := faithful
  intro body isChip
  rw [Node.staged_part] at isChip
  exact ⟨bound id node body found isChip, inner id node body found isChip⟩

/-- A chip with current pins is stepped around its driven circuit, which is settled if it is due. -/
theorem Chip.step_eq (settleInner : InnerSettling) (initial : Bool) {chip : Chip Circuit}
    (current : chip.currentBindings = Chip.computeBindings chip.circuit) (inputs outputs : PortMap)
    (cache : NetlistCache) :
    chip.step settleInner initial inputs outputs cache =
      if chip.settles initial inputs then
        match settleInner (chip.driven inputs) cache with
        | (circuit, cache, .ok _) =>
          (chip.around inputs circuit, (chip.around inputs circuit).copyOutputs
            (Chip.computeBindings chip.circuit).outputs outputs, cache, none)
        | (circuit, cache, .error fault) => (chip.around inputs circuit, outputs, cache, some fault)
      else
        (chip.around inputs (chip.driven inputs), (chip.around inputs (chip.driven inputs)).copyOutputs
          (Chip.computeBindings chip.circuit).outputs outputs, cache, none) := by
  cases settled : settleInner (chip.driven inputs) cache with
  | mk reached rest =>
    obtain ⟨reachedCache, outcome⟩ := rest
    rw [Chip.driven] at settled
    cases outcome <;> (simp only [Chip.step, Chip.bind, current, settled]; rfl)

/-- A node that agrees with the table is stepped as it is plainly. -/
theorem Node.stepIn_plain (settles : SettlesPlainly table faults plain settleInner) (initial : Bool)
    {node : Node Circuit} (faithful : node.Faithful table) {cache : NetlistCache}
    (knows : cache.Knows table) :
    StepsPlainly table faults (node.plainStep plain initial) True
      (node.stepIn settleInner initial cache) := by
  obtain ⟨label, position, part, inputs, outputs⟩ := node
  cases part with
  | chip body =>
    obtain ⟨current, inner⟩ := faithful body rfl
    have driven : (body.driven inputs).Faithful table :=
      (Circuit.related_driven (Node.lasting_retains table).refl (Node.lasting_retains table).trans
        retains_driveFrom body inputs).faithful inner
    have settled := settles (body.driven inputs) cache driven knows
    simp only [Node.stepIn, Chip.step_eq settleInner initial current, Node.plainStep, Chip.reached]
    by_cases due : body.settles initial inputs = true
    · rw [if_pos due, if_pos due]
      revert settled
      rcases settleInner (body.driven inputs) cache with ⟨reached, reachedCache, _ | _⟩
      · exact id
      · rintro ⟨rfl, _, knowsReached⟩
        exact ⟨rfl, trivial, knowsReached⟩
    · rw [if_neg due, if_neg due]
      exact ⟨rfl, trivial, knows⟩
  | _ => exact ⟨rfl, trivial, knows⟩

namespace Circuit

/-- Nodes in slots that are stepped as expected one by one are stepped as expected in turn, and what
is told of each of them is told of all. -/
theorem stepSlots_plain {step : Node Circuit → NetlistCache → Node Circuit × NetlistCache × Option Fault}
    {expected : Node Circuit → Node Circuit} {told : Node Circuit → Prop}
    (slots : List (Option (Node Circuit)))
    (each : ∀ node, some node ∈ slots → ∀ cache, cache.Knows table →
      StepsPlainly table faults (expected node) (told node) (step node cache))
    {cache : NetlistCache} (knows : cache.Knows table) :
    Plainly table faults (slots.map (Option.map expected))
      (fun changed => changed = (slots.any fun slot => slot.any fun node =>
          (expected node).outputs.differsFrom node.outputs) ∧ ∀ node, some node ∈ slots → told node)
      (stepSlots step slots cache) := by
  induction slots generalizing cache with
  | nil => exact ⟨rfl, ⟨rfl, by simp⟩, knows⟩
  | cons slot rest inductionHypothesis =>
    have later := fun node member => each node (List.mem_cons_of_mem _ member)
    cases slot with
    | none =>
      have tail := inductionHypothesis later knows
      simp only [stepSlots]
      revert tail
      rcases stepSlots step rest cache with ⟨reached, reachedCache, _ | changed⟩
      · exact id
      · rintro ⟨rfl, ⟨rfl, toldRest⟩, knowsReached⟩
        exact ⟨rfl, ⟨rfl, fun node member => toldRest node (by simpa using member)⟩, knowsReached⟩
    | some node =>
      have head := each node List.mem_cons_self cache knows
      simp only [stepSlots]
      revert head
      rcases step node cache with ⟨stepped, steppedCache, _ | _⟩
      · rintro ⟨rfl, toldHead, knowsStepped⟩
        have tail := inductionHypothesis later knowsStepped
        revert tail
        simp only
        rcases stepSlots step rest steppedCache with ⟨reached, reachedCache, _ | changed⟩
        · exact id
        · rintro ⟨rfl, ⟨rfl, toldRest⟩, knowsReached⟩
          refine ⟨rfl, ⟨rfl, fun other member => ?_⟩, knowsReached⟩
          rcases List.mem_cons.mp member with same | inRest
          · exact Option.some.inj same ▸ toldHead
          · exact toldRest other inRest
      · exact id

section

variable {level circuit : Circuit} {expected : Node Circuit → Node Circuit}
  (staged : ∀ id, level.node? id =
    (circuit.node? id).map fun node => node.staged (circuit.arriving id))
include staged

/-- In the slots of a level whose inputs were staged are its nodes with what arrived at them. -/
theorem mem_slots_of_staged {node : Node Circuit} : some node ∈ level.nodes.slots ↔
    ∃ id original, circuit.node? id = some original ∧
      original.staged (circuit.arriving id) = node := by
  rw [List.mem_iff_getElem?]
  refine exists_congr fun id => ?_
  rw [← Option.map_eq_some_iff, ← staged id, node?, Arena.get?, Option.join_eq_some_iff]

/-- Stepping what was staged and showing signals on joints makes the plain pass. -/
theorem showOnJoints_of_staged (frame : level.SameFrame circuit) :
    ({ level with nodes := ⟨level.nodes.slots.map (Option.map expected)⟩ } : Circuit).showOnJoints
        ((Netlist.build circuit).nets.map fun net => (net, net.resolve circuit)) =
      circuit.plainPass expected := by
  let stepped := { level with nodes := ⟨level.nodes.slots.map (Option.map expected)⟩ }
  obtain ⟨shownFrame, shown⟩ := showOnJoints_exact circuit stepped
  have atStepped (id : NodeId) : stepped.node? id = (level.node? id).map expected :=
    Arena.get?_map ..
  refine ext_node? ?_ (fun id => ?_) ?_ ?_
  · rw [shownFrame.size]
    simp [stepped, plainPass, frame.size]
  · rw [shown, atStepped, staged, node?_plainPass, Option.map_map, Option.map_map]
    simp only [Function.comp_def]
  · exact shownFrame.wires.trans frame.wires
  · exact shownFrame.revision.trans frame.revision

/-- A step of what was staged changes some output exactly if the plain pass does. -/
theorem any_differs_of_staged :
    (level.nodes.slots.any fun slot => slot.any fun node =>
        (expected node).outputs.differsFrom node.outputs) = circuit.passMoves expected := by
  rw [Bool.eq_iff_iff, passMoves_iff, List.any_eq_true]
  constructor
  · rintro ⟨_ | node, member, moved⟩
    · cases moved
    · obtain ⟨id, original, found, rfl⟩ := (mem_slots_of_staged staged).mp member
      rw [Option.any_some, Node.staged_outputs] at moved
      exact ⟨id, original, found, moved⟩
  · rintro ⟨id, original, found, moved⟩
    refine ⟨some (original.staged (circuit.arriving id)),
      (mem_slots_of_staged staged).mpr ⟨id, original, found, rfl⟩, ?_⟩
    rwa [Option.any_some, Node.staged_outputs]

end

/-- What is told of every node of a level as it is stepped in a pass. -/
def ToldInPass (told : Node Circuit → Prop) (circuit : Circuit) : Prop :=
  ∀ id node, circuit.node? id = some node → told (node.staged (circuit.arriving id))

/-- A pass over a level in which every node is stepped as expected is the plain one. -/
theorem pass_plain {step : Node Circuit → NetlistCache → Node Circuit × NetlistCache × Option Fault}
    {expected : Node Circuit → Node Circuit} {told : Node Circuit → Prop} {netlist : Netlist}
    {circuit : Circuit} (nets : netlist.nets = (Netlist.build circuit).nets)
    (each : circuit.ToldInPass fun node => ∀ cache, cache.Knows table →
      StepsPlainly table faults (expected node) (told node) (step node cache))
    {cache : NetlistCache} (knows : cache.Knows table) :
    Plainly table faults (circuit.plainPass expected)
      (fun changed => changed = circuit.passMoves expected ∧ circuit.ToldInPass told)
      (pass step netlist circuit cache) := by
  simp only [pass, nets]
  obtain ⟨frame, staged⟩ := circuit.stage_exact
  generalize circuit.stage _ = level at frame staged
  have slots := stepSlots_plain level.nodes.slots (fun node member => by
    obtain ⟨id, original, found, rfl⟩ := (mem_slots_of_staged staged).mp member
    exact each id original found) knows
  revert slots
  rcases stepSlots step level.nodes.slots cache with ⟨reached, reachedCache, _ | changed⟩
  · exact id
  · rintro ⟨rfl, ⟨rfl, toldSlots⟩, knowsReached⟩
    refine ⟨showOnJoints_of_staged staged frame, ⟨any_differs_of_staged staged, ?_⟩, knowsReached⟩
    intro id node found
    exact toldSlots _ ((mem_slots_of_staged staged).mpr ⟨id, node, found, rfl⟩)

/-- What is told of every node of a level as it is stepped in any of some passes. -/
def ToldInPasses (told : Bool → Node Circuit → Prop) (expected : Bool → Node Circuit → Node Circuit)
    (circuit : Circuit) (first past : Nat) : Prop :=
  ∀ pass, first ≤ pass → pass < past →
    (circuit.afterPasses expected pass).ToldInPass (told (pass == 0))

/-- Passes over a level in which every node is stepped as expected go through the plain sequence of
circuits.

Proof: by induction on the passes left. Every circuit of the sequence is one in which nodes are stepped
as expected. -/
theorem passes_plain
    {step : Bool → Node Circuit → NetlistCache → Node Circuit × NetlistCache × Option Fault}
    {expected : Bool → Node Circuit → Node Circuit} {told : Bool → Node Circuit → Prop}
    {within : Circuit → Prop} {netlist : Netlist}
    (nets : ∀ circuit, within circuit → netlist.nets = (Netlist.build circuit).nets)
    (each : ∀ initial circuit, within circuit → circuit.ToldInPass fun node =>
      ∀ cache, cache.Knows table →
        StepsPlainly table faults (expected initial node) (told initial node) (step initial node cache))
    (keeps : ∀ initial circuit, within circuit → within (circuit.plainPass (expected initial)))
    {circuit : Circuit} (starts : within circuit) (left : Nat) (report : Settling)
    {cache : NetlistCache} (knows : cache.Knows table) :
    Plainly table faults
      (circuit.afterPasses expected (Settling.follow (circuit.moves expected) left report).passes)
      (fun final => final = Settling.follow (circuit.moves expected) left report ∧
        circuit.ToldInPasses told expected report.passes final.passes)
      (passes (fun initial => pass (step initial) netlist) left report
        (circuit.afterPasses expected report.passes) cache) := by
  induction left generalizing report cache with
  | zero =>
    refine ⟨rfl, ⟨rfl, ?_⟩, knows⟩
    intro pass atLeast below
    exact absurd below (Nat.not_lt.mpr atLeast)
  | succ left inductionHypothesis =>
    have reached : within (circuit.afterPasses expected report.passes) := by
      induction report.passes with
      | zero => exact starts
      | succ passes inductionHypothesis => exact keeps _ _ inductionHypothesis
    have one := pass_plain (nets _ reached) (each (report.passes == 0) _ reached) knows
    simp only [passes, Settling.follow]
    revert one
    rcases pass (step (report.passes == 0)) netlist (circuit.afterPasses expected report.passes) cache
      with ⟨reached, reachedCache, _ | changed⟩
    · exact id
    · rintro ⟨rfl, ⟨rfl, toldHere⟩, knowsReached⟩
      simp only
      rw [show passMoves (expected (report.passes == 0)) (circuit.afterPasses expected report.passes) =
        circuit.moves expected report.passes from rfl]
      have toldFrom {past : Nat}
          (later : circuit.ToldInPasses told expected (report.passes + 1) past) :
          circuit.ToldInPasses told expected report.passes past := by
        intro pass atLeast below
        rcases Nat.eq_or_lt_of_le atLeast with rfl | after
        · exact toldHere
        · exact later pass after below
      split
      · refine ⟨rfl, ⟨rfl, toldFrom fun pass atLeast below => ?_⟩, knowsReached⟩
        exact absurd below (Nat.not_lt.mpr atLeast)
      · have rest := inductionHypothesis
          { report with
            passes := report.passes + 1
            changed := report.changed || circuit.moves expected report.passes
            capped := circuit.moves expected report.passes && left == 0 } knowsReached
        exact rest.imp fun final told => ⟨told.1, toldFrom told.2⟩

variable (settles : SettlesPlainly table faults plain settleInner)
include settles

/-- A level that agrees with the table is settled as it is plainly. -/
theorem settle_plain (related : ∀ circuit, Related (Node.Retains table) circuit (plain circuit))
    (maxPasses : Nat) {circuit : Circuit} (faithful : circuit.Faithful table)
    {cache : NetlistCache} (knows : cache.Knows table) :
    Plainly table faults (circuit.plainSettle (Node.plainStep plain) maxPasses)
      (· = circuit.plainReport (Node.plainStep plain) maxPasses)
      (circuit.settle settleInner maxPasses cache) := by
  have known : (Netlist.build circuit).nets = table circuit.revision := by
    obtain ⟨_, nets, _, _⟩ := faithful
    exact nets
  obtain ⟨nets, knowsAfter⟩ := NetlistCache.getOrBuild_exact knows known
  have lasting := Node.lasting_retains table
  have each (initial : Bool) (reached : Circuit) (within : Related (Node.Retains table) circuit reached) :
      reached.ToldInPass fun node => ∀ cache, cache.Knows table →
        StepsPlainly table faults (node.plainStep plain initial) True
          (node.stepIn settleInner initial cache) :=
    fun id node found cache knows =>
      Node.stepIn_plain settles initial ((within.faithful faithful).node found) knows
  have settled := passes_plain
    (fun reached within => nets.trans (nets_of_outline_eq within.outline_eq).symm) each
    (fun initial reached within => within.trans lasting.trans
      (related_plainPass lasting (lasting.plainStep related initial)
        (Node.isJoint_plainStep plain initial) reached))
    (.refl lasting.refl circuit) maxPasses .idle knowsAfter
  exact settled.imp fun report told => told.1

omit settles

/-- Circuits inside chips are settled as they are plainly, except for a fault at the depth limit.

Proof: by induction on the levels left; quieting a level keeps it in agreement with the table. -/
theorem settleWithin_plain (table : Revision → List Net) (maxPasses : Nat)
    (below : Except Fault Settling) (levels : Nat) :
    SettlesPlainly table (∃ fault, below = .error fault) (plainWithin maxPasses levels)
      (settleWithin maxPasses below levels) := by
  induction levels with
  | zero =>
    intro circuit cache _ knows
    cases below with
    | ok report => exact ⟨rfl, trivial, knows⟩
    | error fault => exact ⟨fault, rfl⟩
  | succ levels inductionHypothesis =>
    intro circuit cache faithful knows
    have lasting := Node.lasting_retains table
    have settled := settle_plain inductionHypothesis (related_plainWithin lasting maxPasses levels)
      maxPasses ((related_quieted lasting circuit).faithful faithful) knows
    simp only [settleWithin, plainWithin]
    revert settled
    rcases settle (settleWithin maxPasses below levels) maxPasses circuit.quieted cache with
      ⟨reached, reachedCache, _ | _⟩
    · exact id
    · rintro ⟨rfl, _, knowsReached⟩
      exact ⟨rfl, trivial, knowsReached⟩

/-- A circuit that a tick has begun for without a fault is the one before with its nodes retained. -/
theorem related_started {limits : Limits} {context : EvalContext} {circuit : Circuit}
    (faultless : (circuit.started limits context).2 = none) :
    Related (Node.Retains table) circuit (circuit.started limits context).1 := by
  unfold started at faultless ⊢
  split
  · next advances =>
    rw [if_pos advances] at faultless
    rw [beginTick_exact faultless]
    exact .of_map ⟨rfl, rfl, by simp [Arena.map]⟩ (fun _ => Node.begun limits.interval)
      (fun _ => Arena.get?_map ..) fun _ node _ => Node.retains_begun limits.interval node
  · exact related_quieted (Node.lasting_retains table) circuit

/-- An evaluation of a circuit that agrees with a table, with a cache that agrees with it, settles the
circuit that the tick has begun for as it is settled plainly, and reports so, except for faults. -/
theorem evaluate_plain {limits : Limits} {context : EvalContext} {circuit : Circuit}
    {cache : NetlistCache} (faithful : circuit.Faithful table) (knows : cache.Knows table)
    (inDepth : context.depth ≤ limits.maxDepth)
    (faultless : (circuit.started limits context).2 = none) :
    Plainly table (∃ fault, context.below limits = .error fault)
      ((circuit.started limits context).1.plainSettle
        (Node.plainStep (plainWithin limits.maxPasses (limits.maxDepth - context.depth)))
        limits.maxPasses)
      (· = (circuit.started limits context).1.plainReport
        (Node.plainStep (plainWithin limits.maxPasses (limits.maxDepth - context.depth)))
        limits.maxPasses)
      (circuit.evaluate limits context cache) := by
  rw [evaluate_eq inDepth, faultless]
  exact settle_plain (settleWithin_plain table limits.maxPasses (context.below limits) _)
    (related_plainWithin (Node.lasting_retains table) limits.maxPasses _) limits.maxPasses
    ((related_started faultless).faithful faithful) knows

/-- At the top an evaluation meets no fault once the tick has begun: it settles the circuit as it is
settled plainly, and reports so. -/
theorem evaluate_top {limits : Limits} {circuit : Circuit} {cache : NetlistCache}
    (faithful : circuit.Faithful table) (knows : cache.Knows table)
    (faultless : (circuit.beginTick limits.interval).2 = none) :
    ∃ after, circuit.evaluate limits .top cache =
        ((circuit.beginTick limits.interval).1.plainSettle
            (Node.plainStep (plainWithin limits.maxPasses limits.maxDepth)) limits.maxPasses, after,
          .ok ((circuit.beginTick limits.interval).1.plainReport
            (Node.plainStep (plainWithin limits.maxPasses limits.maxDepth)) limits.maxPasses)) ∧
      after.Knows table := by
  have inDepth : EvalContext.top.depth ≤ limits.maxDepth := Nat.zero_le _
  have started : circuit.started limits .top = circuit.beginTick limits.interval := rfl
  have plain := evaluate_plain faithful knows inDepth (by rw [started]; exact faultless)
  rw [started] at plain
  have below : EvalContext.top.below limits = .ok .tooDeep := if_pos (.inl rfl)
  revert plain
  rcases circuit.evaluate limits .top cache with ⟨reached, after, fault | report⟩
  · rintro ⟨fault, isFault⟩
    rw [below] at isFault
    cases isFault
  · rintro ⟨rfl, rfl, knowsAfter⟩
    exact ⟨after, rfl, knowsAfter⟩

end Circuit

end Breadboard
