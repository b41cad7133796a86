import Breadboard.Proofs.Engine.Sharing
import Breadboard.Proofs.Workshop.Actions

/-!
# Netlists of a workshop are never stale

At any time some table tells, by their revisions, the nets of all circuits in a workshop, on every
level, and of all netlists that its cache keeps, and all these revisions were given out already. An
edit, a new circuit and a circuit that is read continue the table at fresh revisions; nothing else
touches what nets are made from. So the cache answers with the nets that would be built.
-/

namespace Breadboard

namespace NetlistCache

variable {table continued : Revision → List Net} {fresh later : Revision} {cache : NetlistCache}

/-- A cache that agrees with a table agrees with every continuation of it. -/
theorem Knows.extend (knows : cache.Knows table) (stamped : cache.StampedBefore fresh)
    (continues : Continues fresh table continued) : cache.Knows continued := by
  intro entry member
  rw [continues _ (stamped entry member)]
  exact knows entry member

/-- What was stamped before a revision was stamped before every later one. -/
theorem StampedBefore.mono (stamped : cache.StampedBefore fresh) (notBefore : fresh ≤ later) :
    cache.StampedBefore later :=
  fun entry member => Nat.lt_of_lt_of_le (stamped entry member) notBefore

/-- A sweep leaves netlists of revisions given out already. -/
theorem StampedBefore.sweep (stamped : cache.StampedBefore fresh) : cache.sweep.StampedBefore fresh := by
  intro entry member
  obtain ⟨kept, wasUsed, rfl⟩ := List.mem_map.mp member
  exact stamped kept (List.mem_filter.mp wasUsed).1

end NetlistCache

namespace Workshop

variable {table continued : Revision → List Net} {workshop : Workshop}

/-- A table tells the nets of all circuits and of all kept netlists by revisions that were given out
already. -/
structure Sound (table : Revision → List Net) (workshop : Workshop) : Prop where
  tabled : ∀ circuit ∈ workshop.circuits, circuit.Tabled table
  stamped : ∀ circuit ∈ workshop.circuits, circuit.StampedBefore workshop.fresh
  knows : workshop.cache.Knows table
  recorded : workshop.cache.StampedBefore workshop.fresh

/-- A circuit at an address is part of a circuit of the workshop. -/
theorem contains_of_circuit? {address : Address} {inner : Circuit}
    (found : workshop.circuit? address = some inner) :
    ∃ circuit ∈ workshop.circuits, circuit.Contains inner := by
  obtain ⟨circuit, here, leads⟩ := Option.bind_eq_some_iff.mp found
  exact ⟨circuit, List.mem_of_getElem? here, address.path, leads⟩

namespace Sound

variable (sound : workshop.Sound table)
include sound

/-- The table tells the nets of a circuit at an address. -/
theorem tabled_of_circuit? {address : Address} {circuit : Circuit}
    (found : workshop.circuit? address = some circuit) : circuit.Tabled table := by
  obtain ⟨around, member, contained⟩ := contains_of_circuit? found
  exact (sound.tabled around member).of_contains contained

/-- A circuit at an address bears revisions that were given out already. -/
theorem stamped_of_circuit? {address : Address} {circuit : Circuit}
    (found : workshop.circuit? address = some circuit) : circuit.StampedBefore workshop.fresh := by
  obtain ⟨around, member, contained⟩ := contains_of_circuit? found
  exact (sound.stamped around member).of_contains contained

/-- A continued table tells what the table told, and further revisions may be given out. -/
theorem extend {later : Revision} (continues : Continues workshop.fresh table continued)
    (notBefore : workshop.fresh ≤ later) : Sound continued { workshop with fresh := later } where
  tabled circuit member := (sound.tabled circuit member).extend (sound.stamped circuit member) continues
  stamped circuit member := (sound.stamped circuit member).mono notBefore
  knows := sound.knows.extend sound.recorded continues
  recorded := sound.recorded.mono notBefore

/-- Another circuit that the table tells of may join. -/
theorem join {circuit : Circuit} (tabled : circuit.Tabled table)
    (stamped : circuit.StampedBefore workshop.fresh) :
    Sound table { workshop with circuits := workshop.circuits ++ [circuit] } where
  tabled other member := by
    rcases List.mem_append.mp member with before | new
    · exact sound.tabled other before
    · exact List.mem_singleton.mp new ▸ tabled
  stamped other member := by
    rcases List.mem_append.mp member with before | new
    · exact sound.stamped other before
    · exact List.mem_singleton.mp new ▸ stamped
  knows := sound.knows
  recorded := sound.recorded

/-- The circuit at an address may become one that the table tells of. -/
theorem modify (address : Address) {change : Circuit → Circuit}
    (changed : ∀ circuit, workshop.circuit? address = some circuit →
      (change circuit).Tabled table ∧ (change circuit).StampedBefore workshop.fresh) :
    Sound table (workshop.modify address change) := by
  have each (circuit : Circuit) (member : circuit ∈ (workshop.modify address change).circuits) :
      circuit.Tabled table ∧ circuit.StampedBefore workshop.fresh := by
    obtain ⟨place, here⟩ := List.mem_iff_getElem?.mp member
    rw [Workshop.modify, List.getElem?_modify] at here
    obtain ⟨original, wasHere, same⟩ := Option.map_eq_some_iff.mp here
    have isMember := List.mem_of_getElem? wasHere
    split at same
    · next samePlace =>
      subst samePlace same
      have leads (inner : Circuit) (found : original.inside? address.path = some inner) :=
        changed inner (by rw [circuit?, wasHere]; exact found)
      exact ⟨(sound.tabled original isMember).modifyInside address.path fun inner found =>
          (leads inner found).1,
        (sound.stamped original isMember).modifyInside address.path fun inner found =>
          (leads inner found).2⟩
    · subst same
      exact ⟨sound.tabled original isMember, sound.stamped original isMember⟩
  exact ⟨fun circuit member => (each circuit member).1, fun circuit member => (each circuit member).2,
    sound.knows, sound.recorded⟩

/-- The cache may become one that agrees with the table. -/
theorem recache {cache : NetlistCache} (knows : cache.Knows table)
    (recorded : cache.StampedBefore workshop.fresh) : Sound table { workshop with cache } :=
  ⟨sound.tabled, sound.stamped, knows, recorded⟩

/-- Changing the nodes of a circuit without changing a blueprint leaves everything told. -/
theorem modifyNode (address : Address) (id : NodeId) {change : Node Circuit → Node Circuit}
    (kept : ∀ node, (change node).blueprint = node.blueprint) :
    Sound table (workshop.modify address fun circuit => circuit.modifyNode id change) := by
  refine sound.modify address fun circuit found => ?_
  have same := (circuit.blueprint_modifyNode id change kept).symm
  exact ⟨(sound.tabled_of_circuit? found).of_blueprint_eq same,
    (sound.stamped_of_circuit? found).of_blueprint_eq same⟩

/-- What an edit brings in is part of a circuit of the workshop. -/
theorem told_of_brings {edit : Edit Address} {fitted : Edit Circuit}
    (fits : workshop.fitted? edit = some fitted) {body : Chip Circuit} (brings : fitted.Brings body) :
    body.circuit.Tabled table ∧ body.circuit.StampedBefore workshop.fresh := by
  unfold fitted? at fits
  split at fits
  · next label position source inputs outputs =>
    obtain ⟨circuit, found, rfl⟩ := Option.map_eq_some_iff.mp fits
    simp only [Edit.Brings, Edit.map, Node.map, Part.map, Part.chip.injEq] at brings
    subst brings
    exact ⟨sound.tabled_of_circuit? found, sound.stamped_of_circuit? found⟩
  · next notChip =>
    cases fits
    cases edit with
    | add node =>
      obtain ⟨label, position, part, inputs, outputs⟩ := node
      cases part with
      | chip source => exact absurd rfl (notChip label position source inputs outputs)
      | _ => simp [Edit.Brings, Edit.map, Node.map, Part.map] at brings
    | _ => exact absurd brings id

/-- After an edit a continued table tells the nets of the workshop. -/
theorem edit (target : Address) {edit : Edit Address} {fitted : Edit Circuit}
    (fits : workshop.fitted? edit = some fitted) :
    ∃ continued, Continues workshop.fresh table continued ∧ Sound continued
      { workshop.modify target fun circuit => fitted.apply workshop.fresh circuit with
        fresh := workshop.fresh + 1 } := by
  cases found : workshop.circuit? target with
  | none =>
    refine ⟨table, fun _ _ => rfl,
      (sound.extend (fun _ _ => rfl) (Nat.le_succ _)).modify target fun circuit isThere => ?_⟩
    rw [show circuit? { workshop with fresh := workshop.fresh + 1 } target = workshop.circuit? target
      from rfl, found] at isThere
    cases isThere
  | some circuit =>
    have edited := (sound.tabled_of_circuit? found).edit (sound.stamped_of_circuit? found) fitted
      fun body => sound.told_of_brings fits
    let nets := (Netlist.build (fitted.apply workshop.fresh circuit)).nets
    have continues := continues_update workshop.fresh table nets
    have extended := sound.extend continues (Nat.le_succ _)
    refine ⟨_, continues, extended.modify target fun inner isThere => ?_⟩
    rw [show circuit? { workshop with fresh := workshop.fresh + 1 } target = workshop.circuit? target
      from rfl, found] at isThere
    cases isThere
    exact edited

/-- After an evaluation the table tells the nets of the workshop. -/
theorem evaluate {target : Address} {circuit : Circuit} (found : workshop.circuit? target = some circuit)
    (limits : Limits) (context : EvalContext) :
    Sound table
      { workshop.modify target fun _ => (circuit.evaluate limits context workshop.cache).1 with
        cache := (circuit.evaluate limits context workshop.cache).2.1 } := by
  have tabled := sound.tabled_of_circuit? found
  have stamped := sound.stamped_of_circuit? found
  obtain ⟨related, knows⟩ := (Circuit.invariant_tabled table).evaluate limits context tabled sound.knows
  have stamps : Invariant Node.KeepsBlueprint (Circuit.StampedBefore workshop.fresh)
      (Circuit.StampedBefore workshop.fresh) (NetlistCache.StampedBefore workshop.fresh) :=
    .of_blueprint Circuit.StampedBefore.of_blueprint_eq Circuit.StampedBefore.of_blueprint_eq
      (fun stamped _ _ _ => stamped.inside)
      fun stamped recorded => recorded.getOrBuild (stamped _ (.refl _))
  have recorded := (stamps.evaluate limits context stamped sound.recorded).2
  have same := related.blueprint_eq.symm
  refine (sound.modify target fun _ _ => ?_).recache knows recorded
  exact ⟨tabled.of_blueprint_eq same, stamped.of_blueprint_eq same⟩

/-- After every action a continued table tells the nets of the workshop. -/
theorem perform (action : Action) :
    ∃ continued, Continues workshop.fresh table continued ∧
      workshop.fresh ≤ (workshop.perform action).fresh ∧ Sound continued (workshop.perform action) := by
  -- Most actions give out no revision and leave the table as it is.
  have still {after : Workshop} (soundAfter : Sound table after) (fresh : after.fresh = workshop.fresh) :
      ∃ continued, Continues workshop.fresh table continued ∧ workshop.fresh ≤ after.fresh ∧
        Sound continued after :=
    ⟨table, fun _ _ => rfl, fresh.ge, soundAfter⟩
  cases action with
  | create =>
    let nets := (Netlist.build (.empty workshop.fresh)).nets
    have entered : (Circuit.empty workshop.fresh).Tabled (Function.update table workshop.fresh nets) ∧
        (Circuit.empty workshop.fresh).StampedBefore (workshop.fresh + 1) := by
      refine Circuit.Tabled.enter rfl fun id node body found _ => ?_
      cases found
    have continues := continues_update workshop.fresh table nets
    have extended := sound.extend continues (Nat.le_succ _)
    exact ⟨_, continues, Nat.le_succ _, extended.join entered.1 entered.2⟩
  | copy source =>
    cases found : workshop.circuit? source with
    | none =>
      refine still ?_ rfl
      simpa [Workshop.perform, found] using sound
    | some circuit =>
      have joined := sound.join (sound.tabled_of_circuit? found) (sound.stamped_of_circuit? found)
      refine still ?_ rfl
      simpa [Workshop.perform, found] using joined
  | read text =>
    cases reads : Circuit.ofText? text workshop.fresh with
    | none =>
      simp only [Workshop.perform, reads]
      exact still sound rfl
    | some result =>
      obtain ⟨json, _, isRead⟩ := Option.bind_eq_some_iff.mp reads
      obtain ⟨raw, _, rfl⟩ := Option.map_eq_some_iff.mp isRead
      obtain ⟨continued, continues, notBefore, tabled, stamped⟩ :=
        Circuit.renewable_renew raw table workshop.fresh
      simp only [Workshop.perform, reads]
      exact ⟨continued, continues, notBefore, (sound.extend continues notBefore).join tabled stamped⟩
  | edit target edit =>
    cases fits : workshop.fitted? edit with
    | none =>
      simp only [Workshop.perform, fits]
      exact still sound rfl
    | some fitted =>
      obtain ⟨continued, continues, edited⟩ := sound.edit target fits
      simp only [Workshop.perform, fits]
      exact ⟨continued, continues, Nat.le_succ _, edited⟩
  | drive target id signal =>
    exact still (sound.modifyNode target id (Node.blueprint_driven signal)) rfl
  | adjust target id change =>
    exact still (sound.modifyNode target id (Node.blueprint_adjusted change)) rfl
  | evaluate target limits context =>
    cases found : workshop.circuit? target with
    | none =>
      simp only [Workshop.perform, found]
      exact still sound rfl
    | some circuit =>
      simp only [Workshop.perform, found]
      exact still (sound.evaluate found limits context) rfl
  | request target =>
    cases found : workshop.circuit? target with
    | none =>
      simp only [Workshop.perform, found]
      exact still sound rfl
    | some circuit =>
      have asked := sound.recache
        (NetlistCache.getOrBuild_exact sound.knows (sound.tabled_of_circuit? found _ (.refl circuit))).2
        (sound.recorded.getOrBuild (sound.stamped_of_circuit? found _ (.refl circuit)))
      simp only [Workshop.perform, found]
      exact still asked rfl
  | sweep => exact still (sound.recache sound.knows.sweep sound.recorded.sweep) rfl
  | clear =>
    refine still (sound.recache (NetlistCache.knows_clear table _) ?_) rfl
    intro entry member
    cases member

end Sound

/-- After all actions some table tells the nets of the workshop.

Proof: by induction on the actions. -/
theorem Sound.run (sound : workshop.Sound table) (actions : List Action) :
    ∃ continued, Sound continued (workshop.run actions) := by
  induction actions generalizing workshop table with
  | nil => exact ⟨table, sound⟩
  | cons action rest inductionHypothesis =>
    obtain ⟨_, _, _, soundAfter⟩ := sound.perform action
    exact inductionHypothesis soundAfter

/-- Whatever was done in a workshop, some table tells its nets. -/
theorem sound_run (actions : List Action) : ∃ table, Sound table (opened.run actions) := by
  have start : Sound (fun _ => []) opened := by
    refine ⟨?_, ?_, NetlistCache.knows_empty _, ?_⟩
    all_goals
      intro _ member
      cases member
  exact start.run actions

/-- The netlists of a workshop suit all of its circuits, and so does no netlist. -/
theorem suits_of_circuit? {actions : List Action} {address : Address} {circuit : Circuit}
    (found : (opened.run actions).circuit? address = some circuit) {cache : NetlistCache}
    (kept : cache = .empty ∨ cache = (opened.run actions).cache) : cache.Suits circuit := by
  obtain ⟨table, sound⟩ := sound_run actions
  refine ⟨table, sound.tabled_of_circuit? found, ?_⟩
  rcases kept with rfl | rfl
  · exact NetlistCache.knows_empty table
  · exact sound.knows

/-- No netlist of a workshop is ever stale. Whatever was done, circuits of one revision have the same
nets, on whatever levels they stand; asked for a circuit, the cache answers with the nets that would be
built; and an evaluation does what it would do if every netlist that it asks for were built anew. -/
theorem netlists_current (actions : List Action) :
    (∀ left right a b, (opened.run actions).circuit? left = some a →
      (opened.run actions).circuit? right = some b → a.revision = b.revision →
        (Netlist.build a).nets = (Netlist.build b).nets) ∧
    (∀ address circuit, (opened.run actions).circuit? address = some circuit →
      ((opened.run actions).cache.getOrBuild circuit).1.nets = (Netlist.build circuit).nets) ∧
    (∀ address circuit limits context, (opened.run actions).circuit? address = some circuit →
      circuit.evaluate limits context (opened.run actions).cache =
        circuit.evaluateAnew limits context (opened.run actions).cache) := by
  obtain ⟨table, sound⟩ := sound_run actions
  refine ⟨?_, ?_, ?_⟩
  · intro left right a b foundLeft foundRight sameRevision
    rw [sound.tabled_of_circuit? foundLeft _ (.refl a), sound.tabled_of_circuit? foundRight _ (.refl b),
      sameRevision]
  · intro address circuit found
    exact (NetlistCache.getOrBuild_exact sound.knows
      (sound.tabled_of_circuit? found _ (.refl circuit))).1
  · intro address circuit limits context found
    exact (Circuit.evaluateAnew_eq limits context (sound.tabled_of_circuit? found) sound.knows).symm

/-- A pin and a light are asked about, wired, and put into a chip. The chip is evaluated, so that the
cache keeps the nets inside it, and unwired again. -/
def lampActions : List Action :=
  [.create,
    .edit ⟨0, []⟩ (.add (.ofPart (.inputPin .one (.bit true)))),
    .edit ⟨0, []⟩ (.add (.ofPart (.light false))),
    .request ⟨0, []⟩,
    .edit ⟨0, []⟩ (.connect ⟨0, "out"⟩ ⟨1, "in"⟩),
    .create,
    .edit ⟨1, []⟩ (.add (.ofPart (.chip ⟨"LAMP", [], [], ⟨0, []⟩, none, .empty⟩))),
    .copy ⟨1, []⟩,
    .evaluate ⟨1, []⟩ .standard .top,
    .edit ⟨2, [0]⟩ (.disconnect ⟨0, "out"⟩ ⟨1, "in"⟩)]

/-- The circuit that went into the chip and the one inside it share a revision, their nets, and a kept
netlist. -/
theorem lamp_netlists_current : ∃ outside inside,
    (opened.run lampActions).circuit? ⟨0, []⟩ = some outside ∧
      (opened.run lampActions).circuit? ⟨1, [0]⟩ = some inside ∧ outside.revision = inside.revision ∧
        (Netlist.build outside).nets = (Netlist.build inside).nets ∧
        ((opened.run lampActions).cache.getOrBuild outside).1.nets = (Netlist.build outside).nets := by
  have sameRevision : ((opened.run lampActions).circuit? ⟨0, []⟩).map Circuit.revision = some 4 ∧
      ((opened.run lampActions).circuit? ⟨1, [0]⟩).map Circuit.revision = some 4 := by
    decide +kernel
  obtain ⟨outside, foundOutside, isFourth⟩ := Option.map_eq_some_iff.mp sameRevision.1
  obtain ⟨inside, foundInside, isFourthToo⟩ := Option.map_eq_some_iff.mp sameRevision.2
  have revisions := isFourth.trans isFourthToo.symm
  obtain ⟨shared, answered, _⟩ := netlists_current lampActions
  exact ⟨outside, inside, foundOutside, foundInside, revisions,
    shared _ _ outside inside foundOutside foundInside revisions, answered _ outside foundOutside⟩

end Workshop

end Breadboard
