import Breadboard.Proofs.Engine.Forgetting
import Breadboard.Proofs.Engine.Holding
import Breadboard.Proofs.Workshop.Stability

/-!
# Reloading a circuit

A circuit that is saved to a file and loaded again has fresh stamps and nothing derived, and no netlist
of it is kept. In a workshop in which circuits were built, and in which they are ticked, driven and
edited on their top levels, nobody can tell whether a circuit was reloaded: from then on the same actions
have the same outcomes, and all circuits hold the same.

The chips of circuits that were built go by current pins, because nothing has been derived yet. Ticks,
drives and edits on top levels leave it so. An edit inside a chip would not, once the chip keeps pins.
-/

namespace Breadboard

/-- A chip that the edit brings in, if any, keeps no pins. -/
def Edit.isNew {Inner : Type} : Edit Inner → Bool
  | .add node =>
    match node.part with
    | .chip body => body.bindings.isNone
    | _ => true
  | _ => true

namespace Action

/-- The action builds circuits: nothing is evaluated, and chips that are added are new. -/
def builds : Action → Bool
  | .edit _ change => change.isNew
  | .evaluate .. => false
  | _ => true

/-- The action leaves the structure of circuits inside chips: edits are made on the top level, chips that
are added are new, and evaluations are ticks. -/
def operates : Action → Bool
  | .edit target change => target.path.isEmpty && change.isNew
  | .evaluate _ _ context => context == .top
  | _ => true

end Action

namespace Workshop

variable {table : Revision → List Net} {workshop : Workshop}

/-- What an evaluation ends with, if the action is one of a circuit that is there. -/
def outcome? (workshop : Workshop) : Action → Option (Except Fault Settling)
  | .evaluate target limits context =>
    (workshop.circuit? target).map fun circuit =>
      (circuit.evaluate limits context workshop.cache).2.2
  | _ => none

/-- What the actions of a run end with, one after the other. -/
def outcomes (workshop : Workshop) : List Action → List (Option (Except Fault Settling))
  | [] => []
  | action :: rest => workshop.outcome? action :: (workshop.perform action).outcomes rest

/-- All that the circuits hold, but for stamps and what is derived. -/
def bare (workshop : Workshop) : List Circuit :=
  workshop.circuits.map Circuit.bare

/-- The workshop with the circuit at a place as a file would give it, and without kept netlists. -/
def reload (workshop : Workshop) (place : Nat) : Workshop :=
  match workshop.circuits[place]? with
  | some circuit =>
    let (renewed, fresh) := circuit.renew workshop.fresh
    { workshop.modify ⟨place, []⟩ fun _ => renewed with fresh, cache := .empty }
  | none => { workshop with cache := .empty }

/-- A property of all circuits is one of all circuits after the one at an address was changed, if it is one
of what becomes of this one. -/
theorem forall_modify {property : Circuit → Prop} (each : ∀ circuit ∈ workshop.circuits, property circuit)
    {address : Address} {change : Circuit → Circuit}
    (changed : ∀ circuit, workshop.circuits[address.place]? = some circuit →
      property (circuit.modifyInside change address.path)) :
    ∀ circuit ∈ (workshop.modify address change).circuits, property circuit := by
  intro circuit member
  obtain ⟨place, here⟩ := List.mem_iff_getElem?.mp member
  rw [Workshop.modify, List.getElem?_modify] at here
  obtain ⟨original, wasHere, rfl⟩ := Option.map_eq_some_iff.mp here
  split
  · next samePlace =>
    subst samePlace
    exact changed original wasHere
  · exact each original (List.mem_of_getElem? wasHere)

/-- A chip that an edit brings in is new if the edit is, around a circuit of the workshop. -/
theorem new_of_brings {edit : Edit Address} (isNew : edit.isNew = true) {fitted : Edit Circuit}
    (fits : workshop.fitted? edit = some fitted) {body : Chip Circuit} (brings : fitted.Brings body) :
    body.bindings = none ∧ ∃ address, workshop.circuit? address = some body.circuit := by
  unfold fitted? at fits
  split at fits
  · next label position source inputs outputs =>
    obtain ⟨circuit, found, rfl⟩ := Option.map_eq_some_iff.mp fits
    simp only [Edit.Brings, Edit.map, Node.map, Part.map, Part.chip.injEq] at brings
    subst brings
    exact ⟨Option.isNone_iff_eq_none.mp isNew, source.circuit, found⟩
  · next notChip =>
    cases fits
    cases edit with
    | add node =>
      obtain ⟨label, position, part, inputs, outputs⟩ := node
      cases part with
      | chip source => exact absurd rfl (notChip label position source inputs outputs)
      | _ => simp [Edit.Brings, Edit.map, Node.map, Part.map] at brings
    | _ => exact absurd brings id

/-- A circuit that is read keeps no pins. -/
theorem underived_of_read {text : String} {fresh next : Revision} {circuit : Circuit}
    (reads : Circuit.ofText? text fresh = some (circuit, next)) : circuit.Underived := by
  obtain ⟨json, _, isRead⟩ := Option.bind_eq_some_iff.mp reads
  obtain ⟨raw, _, same⟩ := Option.map_eq_some_iff.mp isRead
  have isRenewed : circuit = (raw.renew fresh).1 := congrArg Prod.fst same.symm
  exact isRenewed ▸ raw.underived_renew fresh

/-- An empty circuit keeps no pins. -/
theorem underived_empty (fresh : Revision) : (Circuit.empty fresh).Underived :=
  Circuit.everyChip_iff.mpr fun _ _ _ found => by cases found

section

variable {property : Chip Circuit → Prop}
  (each : ∀ circuit ∈ workshop.circuits, circuit.EveryChip property)
include each

/-- What holds of every chip in the workshop holds of every chip in the circuit at an address. -/
theorem everyChip_of_circuit? {address : Address} {circuit : Circuit}
    (found : workshop.circuit? address = some circuit) : circuit.EveryChip property := by
  obtain ⟨around, member, contained⟩ := contains_of_circuit? found
  exact Circuit.Throughout.of_contains (each around member) contained

/-- What holds of every chip in the workshop and in another circuit holds when this circuit joins. -/
theorem everyChip_join {circuit : Circuit} (joins : circuit.EveryChip property) :
    ∀ other ∈ workshop.circuits ++ [circuit], other.EveryChip property := by
  intro other member
  rcases List.mem_append.mp member with before | new
  · exact each other before
  · exact List.mem_singleton.mp new ▸ joins

end

/-- No chip keeps pins after a circuit at an address was changed, if none did before and the change leaves
it so. -/
theorem underived_modify (each : ∀ circuit ∈ workshop.circuits, circuit.Underived) (address : Address)
    {change : Circuit → Circuit} (kept : ∀ inner : Circuit, inner.Underived → (change inner).Underived) :
    ∀ circuit ∈ (workshop.modify address change).circuits, circuit.Underived := by
  refine forall_modify each fun circuit here => ?_
  have underived := each circuit (List.mem_of_getElem? here)
  exact underived.modifyInside address.path fun inner leads =>
    kept inner (Circuit.Throughout.of_contains underived ⟨_, leads⟩)

/-- While circuits are built, no chip keeps pins. -/
theorem underived_perform (each : ∀ circuit ∈ workshop.circuits, circuit.Underived) {action : Action}
    (builds : action.builds = true) : ∀ circuit ∈ (workshop.perform action).circuits, circuit.Underived := by
  cases action with
  | create => exact everyChip_join each (underived_empty _)
  | copy source =>
    simp only [perform]
    cases found : workshop.circuit? source with
    | none => simpa using each
    | some circuit => exact everyChip_join each (everyChip_of_circuit? each found)
  | read text =>
    simp only [perform]
    cases reads : Circuit.ofText? text workshop.fresh with
    | none => exact each
    | some result => exact everyChip_join each (underived_of_read reads)
  | edit target edit =>
    simp only [perform]
    cases fits : workshop.fitted? edit with
    | none => exact each
    | some fitted =>
      refine underived_modify each target fun inner underived => ?_
      refine Circuit.EveryChip.edit underived fitted _ fun body brings => ?_
      obtain ⟨isNew, address, found⟩ := new_of_brings builds fits brings
      exact ⟨isNew, everyChip_of_circuit? each found⟩
  | drive target id signal =>
    exact underived_modify each target fun inner underived =>
      underived.modifyNode id fun _ _ => Node.chip_of_driven
  | adjust target id change =>
    exact underived_modify each target fun inner underived =>
      underived.modifyNode id fun _ _ => Node.chip_of_adjusted
  | evaluate target limits context => cases builds
  | request target =>
    simp only [perform]
    cases workshop.circuit? target <;> exact each
  | sweep => exact each
  | clear => exact each

/-- All chips go by current pins after a change at an address that retains all nodes, if they did before. -/
theorem bound_modify (sound : workshop.Sound table) (each : ∀ circuit ∈ workshop.circuits, circuit.Bound)
    (address : Address) {change : Circuit → Circuit}
    (retains : ∀ inner, workshop.circuit? address = some inner →
      Circuit.Related (Node.Retains table) inner (change inner)) :
    ∀ circuit ∈ (workshop.modify address change).circuits, circuit.Bound := by
  refine forall_modify each fun circuit here => ?_
  have member := List.mem_of_getElem? here
  have related := Circuit.related_modifyInside address.path fun inner leads =>
    retains inner (by rw [circuit?, here]; exact leads)
  have faithful := Circuit.faithful_iff.mpr ⟨sound.tabled circuit member, each circuit member⟩
  exact (Circuit.faithful_iff.mp (related.faithful faithful)).2

/-- While workshops are operated, all chips go by current pins. -/
theorem bound_perform (sound : workshop.Sound table) (each : ∀ circuit ∈ workshop.circuits, circuit.Bound)
    {action : Action} (operates : action.operates = true) :
    ∀ circuit ∈ (workshop.perform action).circuits, circuit.Bound := by
  have lasting := Node.lasting_retains table
  cases action with
  | create => exact everyChip_join each (underived_empty _).bound
  | copy source =>
    simp only [perform]
    cases found : workshop.circuit? source with
    | none => simpa using each
    | some circuit => exact everyChip_join each (everyChip_of_circuit? each found)
  | read text =>
    simp only [perform]
    cases reads : Circuit.ofText? text workshop.fresh with
    | none => exact each
    | some result => exact everyChip_join each (underived_of_read reads).bound
  | edit target edit =>
    obtain ⟨level, isNew⟩ := Bool.and_eq_true_iff.mp operates
    simp only [perform]
    cases fits : workshop.fitted? edit with
    | none => exact each
    | some fitted =>
      refine forall_modify each fun circuit here => ?_
      rw [List.isEmpty_iff.mp level, Circuit.modifyInside]
      refine Circuit.EveryChip.edit (each circuit (List.mem_of_getElem? here)) fitted _ fun body brings => ?_
      obtain ⟨none, address, found⟩ := new_of_brings isNew fits brings
      exact ⟨Circuit.currentBindings_of_none none, everyChip_of_circuit? each found⟩
  | drive target id signal =>
    exact bound_modify sound each target fun inner _ =>
      Circuit.related_modifyNode lasting.refl inner id _ fun node _ => Node.retains_driven signal node
  | adjust target id change =>
    exact bound_modify sound each target fun inner _ =>
      Circuit.related_modifyNode lasting.refl inner id _ fun node _ => Node.retains_adjusted change node
  | evaluate target limits context =>
    obtain rfl : context = .top := by simpa [Action.operates] using operates
    simp only [perform]
    cases found : workshop.circuit? target with
    | none => exact each
    | some circuit =>
      have faithful := Circuit.faithful_iff.mpr
        ⟨sound.tabled_of_circuit? found, everyChip_of_circuit? each found⟩
      refine bound_modify sound each target fun inner isThere => ?_
      obtain rfl : circuit = inner := Option.some.inj (found.symm.trans isThere)
      exact Circuit.related_evaluate faithful sound.knows
  | request target =>
    simp only [perform]
    cases workshop.circuit? target <;> exact each
  | sweep => exact each
  | clear => exact each

/-- A change at an address changes the bare circuit at the place. -/
theorem bare_modify {change bareChange : Circuit → Circuit}
    (commutes : ∀ inner : Circuit, (change inner).bare = bareChange inner.bare) (workshop : Workshop)
    (address : Address) :
    (workshop.modify address change).bare =
      workshop.bare.modify address.place fun circuit => circuit.modifyInside bareChange address.path := by
  refine List.ext_getElem? fun place => ?_
  simp only [bare, modify, List.getElem?_map, List.getElem?_modify, Option.map_eq_map, Option.map_map]
  refine Option.map_congr fun circuit _ => ?_
  simp only [Function.comp_apply]
  split
  · exact Circuit.bare_modifyInside commutes circuit address.path
  · rfl

variable {left right : Workshop}

/-- At an address of workshops that hold the same are circuits that are the same once bare. -/
theorem circuit?_of_bare_eq (same : left.bare = right.bare) (address : Address) :
    (left.circuit? address).map Circuit.bare = (right.circuit? address).map Circuit.bare := by
  have through (workshop : Workshop) : (workshop.circuit? address).map Circuit.bare =
      (workshop.bare[address.place]?).bind fun circuit => circuit.inside? address.path := by
    rw [circuit?, bare, List.getElem?_map, Option.bind_map, Option.map_bind]
    congr 1
    funext circuit
    exact (circuit.inside?_bare address.path).symm
  rw [through, through, same]

/-- Workshops that hold the same fit edits alike, once these are bare. -/
theorem fitted?_of_bare_eq (same : left.bare = right.bare) (edit : Edit Address) :
    (left.fitted? edit).map Edit.bare = (right.fitted? edit).map Edit.bare := by
  unfold fitted?
  split
  · next label position source inputs outputs =>
    let around (circuit : Circuit) : Edit Circuit :=
      .add ⟨label, position, .chip ⟨source.name, source.inputs, source.outputs, circuit, none, .empty⟩,
        inputs, outputs⟩
    have through (workshop : Workshop) :
        ((workshop.circuit? source.circuit).map fun circuit =>
          (Edit.add ⟨label, position, .chip source, inputs, outputs⟩).map fun _ => circuit).map Edit.bare =
        ((workshop.circuit? source.circuit).map Circuit.bare).map around := by
      rw [Option.map_map, Option.map_map]
      rfl
    rw [through, through, circuit?_of_bare_eq same]
  · rfl

/-- All circuits of a workshop go by current pins, and some table tells its nets. -/
def Settled (workshop : Workshop) : Prop :=
  (∃ table, workshop.Sound table) ∧ ∀ circuit ∈ workshop.circuits, circuit.Bound

/-- Operating a workshop leaves pins current and nets told. -/
theorem Settled.perform (settled : workshop.Settled) {action : Action}
    (operates : action.operates = true) : (workshop.perform action).Settled := by
  obtain ⟨⟨table, sound⟩, bound⟩ := settled
  obtain ⟨continued, _, _, soundAfter⟩ := sound.perform action
  exact ⟨⟨continued, soundAfter⟩, bound_perform sound bound operates⟩

/-- Changes that agree once bare leave workshops that hold the same so. -/
theorem bare_modify_eq (same : left.bare = right.bare) (address : Address) (bareChange : Circuit → Circuit)
    {leftChange rightChange : Circuit → Circuit}
    (leftCommutes : ∀ inner : Circuit, (leftChange inner).bare = bareChange inner.bare)
    (rightCommutes : ∀ inner : Circuit, (rightChange inner).bare = bareChange inner.bare) :
    (left.modify address leftChange).bare = (right.modify address rightChange).bare := by
  rw [bare_modify leftCommutes, bare_modify rightCommutes, same]

/-- Circuits that are the same once bare leave workshops that hold the same so when they join. -/
theorem bare_join_eq (same : left.bare = right.bare) (leftNew rightNew : Option Circuit)
    (sameNew : leftNew.map Circuit.bare = rightNew.map Circuit.bare) :
    (left.circuits ++ leftNew.toList).map Circuit.bare =
      (right.circuits ++ rightNew.toList).map Circuit.bare := by
  have joined : ∀ circuit : Option Circuit,
      circuit.toList.map Circuit.bare = (circuit.map Circuit.bare).toList := by
    rintro (_ | circuit) <;> rfl
  rw [List.map_append, List.map_append, joined, joined, sameNew]
  exact congrArg (· ++ _) same

/-- What is read from a text is the same once bare, whatever revisions it is given. -/
theorem bare_read (text : String) (fresh other : Revision) :
    ((Circuit.ofText? text fresh).map Prod.fst).map Circuit.bare =
      ((Circuit.ofText? text other).map Prod.fst).map Circuit.bare := by
  have through (start : Revision) : ((Circuit.ofText? text start).map Prod.fst).map Circuit.bare =
      ((Json.parse? text).bind (Circuit.ofNested? false nestingLimit)).map Circuit.bare := by
    rw [Circuit.ofText?]
    cases Json.parse? text with
    | none => rfl
    | some json =>
      simp only [Option.bind_some, Circuit.ofJson?, Option.map_map]
      exact Option.map_congr fun raw _ => raw.bare_renew start
  rw [through, through]

/-- In workshops that hold the same an action that operates them has the same outcome, and afterwards they
hold the same. -/
theorem bare_perform (same : left.bare = right.bare) (leftSettled : left.Settled)
    (rightSettled : right.Settled) {action : Action} (operates : action.operates = true) :
    (left.perform action).bare = (right.perform action).bare ∧
      left.outcome? action = right.outcome? action := by
  cases action with
  | create => exact ⟨bare_join_eq same (some (.empty left.fresh)) (some (.empty right.fresh)) rfl, rfl⟩
  | copy source => exact ⟨bare_join_eq same _ _ (circuit?_of_bare_eq same source), rfl⟩
  | read text =>
    have through (workshop : Workshop) : (workshop.perform (.read text)).circuits =
        workshop.circuits ++ ((Circuit.ofText? text workshop.fresh).map Prod.fst).toList := by
      rw [perform]
      cases Circuit.ofText? text workshop.fresh with
      | none => exact (List.append_nil _).symm
      | some read => rfl
    refine ⟨?_, rfl⟩
    rw [bare, bare, through, through]
    exact bare_join_eq same _ _ (bare_read text left.fresh right.fresh)
  | edit target change =>
    refine ⟨?_, rfl⟩
    have fits := fitted?_of_bare_eq same change
    simp only [perform]
    cases leftFits : left.fitted? change with
    | none =>
      rw [leftFits] at fits
      rw [Option.map_eq_none_iff.mp fits.symm]
      exact same
    | some leftFitted =>
      rw [leftFits] at fits
      obtain ⟨rightFitted, rightFits, alike⟩ := Option.map_eq_some_iff.mp fits.symm
      rw [rightFits]
      refine bare_modify_eq same target (leftFitted.bare.apply 0)
        (Circuit.bare_apply leftFitted left.fresh) fun inner => ?_
      rw [← alike]
      exact Circuit.bare_apply rightFitted right.fresh inner
  | drive target id signal =>
    let driven (node : Node Circuit) : Node Circuit := (node.drive? signal).getD node
    have commutes (inner : Circuit) :
        (inner.modifyNode id driven).bare = inner.bare.modifyNode id driven :=
      Circuit.bare_modifyNode (Node.bare_driven signal) inner id
    exact ⟨bare_modify_eq same target (·.modifyNode id driven) commutes commutes, rfl⟩
  | adjust target id change =>
    have commutes (inner : Circuit) := Circuit.bare_modifyNode (Node.bare_adjusted change) inner id
    exact ⟨bare_modify_eq same target (·.modifyNode id (Node.adjusted change)) commutes commutes, rfl⟩
  | evaluate target limits context =>
    obtain rfl : context = .top := by simpa [Action.operates] using operates
    have there := circuit?_of_bare_eq same target
    simp only [perform, outcome?]
    cases leftFound : left.circuit? target with
    | none =>
      rw [leftFound] at there
      rw [Option.map_eq_none_iff.mp there.symm]
      exact ⟨same, rfl⟩
    | some circuit =>
      rw [leftFound] at there
      obtain ⟨other, rightFound, alike⟩ := Option.map_eq_some_iff.mp there.symm
      rw [rightFound]
      obtain ⟨⟨leftTable, leftSound⟩, leftBound⟩ := leftSettled
      obtain ⟨⟨rightTable, rightSound⟩, rightBound⟩ := rightSettled
      have leftFaithful := Circuit.faithful_iff.mpr
        ⟨leftSound.tabled_of_circuit? leftFound, everyChip_of_circuit? leftBound leftFound⟩
      have rightFaithful := Circuit.faithful_iff.mpr
        ⟨rightSound.tabled_of_circuit? rightFound, everyChip_of_circuit? rightBound rightFound⟩
      obtain ⟨outcome, reached⟩ := Circuit.evaluate_of_bare_eq alike.symm leftFaithful leftSound.knows
        rightFaithful rightSound.knows limits
      exact ⟨bare_modify_eq same target (fun _ => _) (fun _ => rfl) (fun _ => reached.symm),
        congrArg some outcome⟩
  | request target =>
    refine ⟨?_, rfl⟩
    have through (workshop : Workshop) :
        (workshop.perform (.request target)).circuits = workshop.circuits := by
      rw [perform]
      cases workshop.circuit? target <;> rfl
    rw [bare, bare, through, through]
    exact same
  | sweep => exact ⟨same, rfl⟩
  | clear => exact ⟨same, rfl⟩

/-- In workshops that hold the same the actions of a run that operates them have the same outcomes, and
afterwards they hold the same.

Proof: by induction on the actions. -/
theorem bare_run (same : left.bare = right.bare) (leftSettled : left.Settled)
    (rightSettled : right.Settled) {actions : List Action} (operate : actions.all Action.operates = true) :
    left.outcomes actions = right.outcomes actions ∧
      (left.run actions).bare = (right.run actions).bare := by
  induction actions generalizing left right with
  | nil => exact ⟨rfl, same⟩
  | cons action rest inductionHypothesis =>
    obtain ⟨operates, restOperates⟩ := Bool.and_eq_true_iff.mp operate
    obtain ⟨sameAfter, outcome⟩ := bare_perform same leftSettled rightSettled operates
    obtain ⟨outcomes, bare⟩ := inductionHypothesis sameAfter (leftSettled.perform operates)
      (rightSettled.perform operates) restOperates
    refine ⟨?_, bare⟩
    rw [Workshop.outcomes, Workshop.outcomes, outcome, outcomes]

/-- Operating a workshop at length leaves pins current and nets told.

Proof: by induction on the actions. -/
theorem Settled.run (settled : workshop.Settled) {actions : List Action}
    (operate : actions.all Action.operates = true) : (workshop.run actions).Settled := by
  induction actions generalizing workshop with
  | nil => exact settled
  | cons action rest inductionHypothesis =>
    obtain ⟨operates, restOperates⟩ := Bool.and_eq_true_iff.mp operate
    exact inductionHypothesis (settled.perform operates) restOperates

/-- While circuits are built, however many, no chip keeps pins.

Proof: by induction on the actions. -/
theorem underived_run (each : ∀ circuit ∈ workshop.circuits, circuit.Underived) {actions : List Action}
    (build : actions.all Action.builds = true) :
    ∀ circuit ∈ (workshop.run actions).circuits, circuit.Underived := by
  induction actions generalizing workshop with
  | nil => exact each
  | cons action rest inductionHypothesis =>
    obtain ⟨builds, restBuilds⟩ := Bool.and_eq_true_iff.mp build
    exact inductionHypothesis (underived_perform each builds) restBuilds

/-- Circuits that were built go by current pins, and some table tells their nets. -/
theorem settled_of_built {actions : List Action} (build : actions.all Action.builds = true) :
    (opened.run actions).Settled := by
  have none : ∀ circuit ∈ opened.circuits, circuit.Underived := fun circuit member => by cases member
  exact ⟨sound_run actions, fun circuit member => (underived_run none build circuit member).bound⟩

/-- A workshop holds the same when a circuit was reloaded. -/
theorem bare_reload (workshop : Workshop) (place : Nat) : (workshop.reload place).bare = workshop.bare := by
  unfold reload
  cases here : workshop.circuits[place]? with
  | none => rfl
  | some circuit =>
    refine List.ext_getElem? fun other => ?_
    simp only [bare, modify, Circuit.modifyInside, List.getElem?_map, List.getElem?_modify]
    split
    · next samePlace =>
      rw [← samePlace, here]
      exact congrArg some (circuit.bare_renew workshop.fresh)
    · rw [Option.map_eq_map, Option.map_id']

/-- A workshop in which a circuit was reloaded goes by current pins, and some table tells its nets. -/
theorem Settled.reload (settled : workshop.Settled) (place : Nat) : (workshop.reload place).Settled := by
  obtain ⟨⟨table, sound⟩, bound⟩ := settled
  have recorded (fresh : Revision) : NetlistCache.empty.StampedBefore fresh := by
    intro entry member
    cases member
  unfold Workshop.reload
  cases here : workshop.circuits[place]? with
  | none => exact ⟨⟨table, sound.recache (NetlistCache.knows_empty table) (recorded _)⟩, bound⟩
  | some circuit =>
    obtain ⟨continued, continues, notBefore, tabled, stamped⟩ :=
      circuit.renewable_renew table workshop.fresh
    refine ⟨⟨continued, ?_⟩, ?_⟩
    · have extended := sound.extend continues notBefore
      have modified := extended.modify ⟨place, []⟩ (fun _ _ => ⟨tabled, stamped⟩)
      exact modified.recache (NetlistCache.knows_empty continued) (recorded _)
    · refine forall_modify bound fun original _ => ?_
      rw [Circuit.modifyInside]
      exact (circuit.underived_renew workshop.fresh).bound

/-- Nobody can tell whether a circuit was reloaded. After circuits were built, and then ticked, driven and
edited on their top levels, let one of them be given anew, with fresh stamps throughout and nothing
derived, and let no netlist be kept. From then on ticks, drives and edits on top levels end with the
same reports or faults, and all nodes receive, drive and show the same, at every depth. -/
theorem reload_unobservable {built operated later : List Action} (place : Nat)
    (build : built.all Action.builds = true) (operate : operated.all Action.operates = true)
    (operateLater : later.all Action.operates = true) :
    (((opened.run built).run operated).reload place).outcomes later =
        ((opened.run built).run operated).outcomes later ∧
      ((((opened.run built).run operated).reload place).run later).bare =
        (((opened.run built).run operated).run later).bare := by
  have settled := (settled_of_built build).run operate
  exact bare_run (bare_reload _ place) (settled.reload place) settled operateLater

/-- The node is a chip that keeps pins. -/
def derivesPins (node : Node Circuit) : Bool :=
  match node.part with
  | .chip body => body.bindings.isSome
  | _ => false

/-- The switch of the delayed lamp is turned off and a second lamp is wired to the chip, with a tick after
each change. -/
def dimming : List Action :=
  [.drive ⟨1, []⟩ 0 (.bit false),
    .evaluate ⟨1, []⟩ .standard .top,
    .edit ⟨1, []⟩ (.add (.ofPart (.light false))),
    .edit ⟨1, []⟩ (.connect ⟨1, "out0"⟩ ⟨3, "in"⟩),
    .evaluate ⟨1, []⟩ .standard .top]

/-- The chip of the delayed lamp has derived its pins by the first tick, and has none when the lamp is
reloaded. The ticks that follow the changes report the same, and the lamp shows the same. -/
theorem delayedLamp_reloaded : ∃ lamp : Workshop,
    (delayedLamp .standard).dropLast.all Action.builds = true ∧ dimming.all Action.operates = true ∧
      lamp = (opened.run (delayedLamp .standard).dropLast).run [.evaluate ⟨1, []⟩ .standard .top] ∧
      (lamp.circuits.map fun circuit => circuit.nodes.values.any derivesPins) = [false, true] ∧
      ((lamp.reload 1).circuits.map fun circuit => circuit.nodes.values.any derivesPins) =
        [false, false] ∧
      ((lamp.outcomes dimming).filterMap fun outcome => outcome.bind Except.toOption) =
        [⟨true, 3, false, false⟩, ⟨false, 2, false, false⟩] ∧
      (lamp.reload 1).outcomes dimming = lamp.outcomes dimming ∧
      ((lamp.reload 1).run dimming).bare = (lamp.run dimming).bare := by
  refine ⟨_, rfl, rfl, rfl, ?_, ?_, ?_, ?_⟩
  · decide +kernel
  · decide +kernel
  · decide +kernel
  · exact reload_unobservable 1 rfl rfl rfl

end Workshop

end Breadboard
