import Breadboard.Proofs.Engine.Holding

/-!
# What an evaluation keeps at every depth

A relation between a node before and after that single changes keep, taken for the circuits inside chips as
well, node by node on every level, is kept by an evaluation too. Two relations are of this kind. Ports
stay: nothing that a node drives is taken away from it, but where a joint is cleared. And notes stay:
comments and components of no known kind keep what they drive, since nothing steps them and no net of their
own circuit counts them among its joints. A netlist that is not theirs may do so, and reaches the port of a
joint and no other one.
-/

namespace Breadboard

variable {own : Node Circuit → Node Circuit → Prop}

namespace Circuit

variable {before between after : Circuit}

/-- Every path leads into related circuits. -/
def RelatedInside (own : Node Circuit → Node Circuit → Prop) (before after : Circuit) : Prop :=
  ∀ path inner, before.inside? path = some inner →
    ∃ reached, after.inside? path = some reached ∧ Related own inner reached

/-- What relates every node to itself relates every circuit to itself at every depth. -/
theorem RelatedInside.refl (reflexive : ∀ node, own node node) (circuit : Circuit) :
    RelatedInside own circuit circuit :=
  fun _ inner leads => ⟨inner, leads, .refl reflexive inner⟩

/-- Changes one after the other relate circuits at every depth if they relate nodes. -/
theorem RelatedInside.trans
    (transitive : ∀ {first second third}, own first second → own second third → own first third)
    (one : RelatedInside own before between) (two : RelatedInside own between after) :
    RelatedInside own before after := by
  intro path inner leads
  obtain ⟨middle, leadsBetween, first⟩ := one path inner leads
  obtain ⟨reached, leadsAfter, second⟩ := two path middle leadsBetween
  exact ⟨reached, leadsAfter, first.trans transitive second⟩

end Circuit

/-- The nodes are related, and the circuits inside them at every depth. -/
def Node.Within (own : Node Circuit → Node Circuit → Prop) (before after : Node Circuit) : Prop :=
  own before after ∧ ∀ body, before.part = .chip body →
    ∃ reached, after.part = .chip reached ∧ body.circuit.RelatedInside own reached.circuit

/-- Circuits whose nodes are related at every depth are related at every depth. -/
theorem Circuit.Related.inside {before after : Circuit} (related : Related (Node.Within own) before after) :
    RelatedInside own before after := by
  intro path inner leads
  cases path with
  | nil =>
    rw [inside?] at leads
    cases leads
    exact ⟨after, by rw [inside?], related.imp fun _ _ within => within.1⟩
  | cons id path =>
    obtain ⟨node, body, found, isChip, deeper⟩ := inside?_cons_iff.mp leads
    obtain ⟨changed, foundAfter, _, within⟩ := related.node? found
    obtain ⟨reached, isReached, relatedInside⟩ := within body isChip
    obtain ⟨last, leadsAfter, relatedInner⟩ := relatedInside path inner deeper
    exact ⟨last, inside?_cons_iff.mpr ⟨changed, reached, foundAfter, isReached, leadsAfter⟩, relatedInner⟩

/-- A relation of nodes that their single changes keep, apart from what is shown on joints and from what
becomes of the circuits inside chips. -/
structure Node.KeptSingly (own : Node Circuit → Node Circuit → Prop) : Prop where
  refl : ∀ node, own node node
  trans : ∀ {first second third}, own first second → own second third → own first third
  staged : ∀ node inputs, own node (node.staged inputs)
  quieted : ∀ node, own node node.quieted
  stepped : ∀ node, (∀ body, node.part ≠ .chip body) → own node node.step
  driven : ∀ signal node, own node (node.driveFrom signal)
  begun : ∀ interval node, own node (node.begun interval)
  /-- A chip with another circuit inside it that its outputs were copied from, if they were. -/
  refitted : ∀ node body, node.part = .chip body → ∀ reached entries,
    own node { node with part := .chip reached, outputs := node.outputs.writeAll entries }

namespace Node

/-- Nodes that are related are so at every depth if the one has the chip of the other. -/
theorem Within.of_part (kept : KeptSingly own) {before after : Node Circuit} (related : own before after)
    (same : ∀ body, before.part = .chip body → after.part = .chip body) : Within own before after :=
  ⟨related, fun body isChip => ⟨body, same body isChip, .refl kept.refl body.circuit⟩⟩

variable (kept : KeptSingly own)
include kept

/-- A relation at every depth is reflexive. -/
theorem KeptSingly.within_refl (node : Node Circuit) : Within own node node :=
  .of_part kept (kept.refl node) fun _ => id

/-- A relation at every depth is transitive. -/
theorem KeptSingly.within_trans {first second third : Node Circuit} (one : Within own first second)
    (two : Within own second third) : Within own first third := by
  refine ⟨kept.trans one.1 two.1, fun body isChip => ?_⟩
  obtain ⟨middle, isMiddle, relatedFirst⟩ := one.2 body isChip
  obtain ⟨reached, isReached, relatedSecond⟩ := two.2 middle isMiddle
  exact ⟨reached, isReached, relatedFirst.trans kept.trans relatedSecond⟩

/-- Quieting a node relates it at every depth. -/
theorem KeptSingly.within_quieted (node : Node Circuit) : Within own node node.quieted := by
  refine .of_part kept (kept.quieted node) fun body isChip => ?_
  rw [Node.quieted, isChip]

/-- The beginning of a tick relates a node at every depth. -/
theorem KeptSingly.within_begun (interval : Nat) (node : Node Circuit) :
    Within own node (node.begun interval) := by
  refine .of_part kept (kept.begun interval node) fun body isChip => ?_
  simp only [Node.begun, beginTick, isChip, Node.quieted]

/-- Driving a node relates it at every depth. -/
theorem KeptSingly.within_driven (signal : Option Signal) (node : Node Circuit) :
    Within own node (node.driveFrom signal) := by
  refine .of_part kept (kept.driven signal node) fun body isChip => ?_
  simp only [driveFrom, drive?, isChip, Option.getD_none]

/-- A chip whose circuit was driven, and related at every depth from then on, is related at every depth. -/
theorem KeptSingly.within_refitted {node : Node Circuit} {body : Chip Circuit}
    (isChip : node.part = .chip body) {inputs : PortMap} {pins : List NodeId} (reached : Chip Circuit)
    (related : Circuit.Related (Within own) (body.drivePins inputs pins) reached.circuit)
    (entries : List (String × Signal)) :
    Within own node { node with part := .chip reached, outputs := node.outputs.writeAll entries } := by
  refine ⟨kept.refitted node body isChip reached entries, fun other isOther => ⟨reached, rfl, ?_⟩⟩
  obtain rfl := Part.chip.inj (isChip.symm.trans isOther)
  have driven : Circuit.Related (Within own) body.circuit (body.drivePins inputs pins) :=
    Circuit.related_drivePins kept.within_refl kept.within_trans kept.within_driven body inputs pins
  have both : Circuit.Related (Within own) body.circuit reached.circuit :=
    driven.trans kept.within_trans related
  exact both.inside

/-- What single changes keep of nodes the passes of an evaluation keep at every depth. -/
theorem KeptSingly.passInvariant (shown : ∀ node signal, own node (node.setOutput "joint" signal)) :
    PassInvariant (Within own) (fun _ => True) (fun _ => True) fun _ => True where
  refl := kept.within_refl
  trans := kept.within_trans
  staged node inputs := .of_part kept (kept.staged node inputs) fun _ => id
  quieted := kept.within_quieted
  shown node signal := .of_part kept (shown node signal) fun _ => id
  stepped node notChip :=
    .of_part kept (kept.stepped node notChip) fun body isChip => absurd isChip (notChip body)
  enclosed node body isChip inputs circuit related := by
    rw [enclosing, Chip.copyOutputs_eq]
    exact kept.within_refitted isChip (body.holding inputs circuit) related _
  abandoned node body isChip inputs circuit related :=
    kept.within_refitted isChip (body.holding inputs circuit) related []
  driven _ _ _ := trivial
  lasts _ _ := trivial
  inner _ _ _ _ _ _ := trivial
  asked _ _ := trivial

/-- What single changes keep of nodes lasts at every depth, where signals are shown on joints only. -/
theorem KeptSingly.lasting
    (shown : ∀ node signal, node.isJoint = true → own node (node.setOutput "joint" signal)) :
    Lasting (Within own) where
  refl := kept.within_refl
  trans := kept.within_trans
  staged node inputs := .of_part kept (kept.staged node inputs) fun _ => id
  quieted := kept.within_quieted
  shown node signal joint := .of_part kept (shown node signal joint) fun _ => id
  stepped node notChip :=
    .of_part kept (kept.stepped node notChip) fun body isChip => absurd isChip (notChip body)
  enclosed node body isChip inputs circuit related := by
    rw [enclosing, Chip.copyOutputs_eq]
    exact kept.within_refitted isChip (body.around inputs circuit) related _

omit kept

/-- Whatever a node drives it goes on to drive, unless it is a joint. -/
def KeepsPorts (before after : Node Circuit) : Prop :=
  after.isJoint = before.isJoint ∧ (before.isJoint = false →
    ∀ port, (before.outputs.get? port).isSome = true → (after.outputs.get? port).isSome = true)

/-- Signals that are written take none away. -/
theorem KeepsPorts.of_writes {before after : Node Circuit} (entries : List (String × Signal))
    (joint : after.isJoint = before.isJoint) (outputs : after.outputs = before.outputs.writeAll entries) :
    before.KeepsPorts after := by
  refine ⟨joint, fun _ port present => ?_⟩
  rw [outputs, PortMap.get?_writeAll, Option.isSome_or, present, Bool.or_true]

/-- Single changes take no signals away, except from joints. -/
theorem kept_keepsPorts : KeptSingly KeepsPorts where
  refl _ := .of_writes [] rfl rfl
  trans one two := ⟨two.1.trans one.1, fun notJoint port present =>
    two.2 (one.1.trans notJoint) port (one.2 notJoint port present)⟩
  staged _ _ := .of_writes [] rfl rfl
  quieted node := by
    obtain ⟨label, position, part, inputs, outputs⟩ := node
    cases part with
    | joint => exact ⟨rfl, nofun⟩
    | clock oscillator => exact .of_writes [("out", .bit oscillator.output)] rfl rfl
    | _ => exact .of_writes [] rfl rfl
  stepped node _ := by
    refine .of_writes node.emitted ?_ (by rw [step_eq])
    obtain ⟨label, position, part, inputs, outputs⟩ := node
    cases part with
    | resize direction => cases direction <;> rfl
    | _ => rfl
  driven signal node := by
    obtain ⟨label, position, part, inputs, outputs⟩ := node
    cases part with
    | inputPin width state =>
      rw [driveFrom_of_part rfl]
      exact .of_writes [("out", _)] rfl rfl
    | _ => exact .of_writes [] rfl rfl
  begun interval node := by
    obtain ⟨label, position, part, inputs, outputs⟩ := node
    cases part with
    | joint => exact ⟨rfl, nofun⟩
    | clock oscillator =>
      simp only [begun, beginTick]
      cases oscillator.advance interval with
      | error fault => exact .of_writes [] rfl rfl
      | ok advanced => exact .of_writes [("out", .bit advanced.output)] rfl rfl
    | _ => exact .of_writes [] rfl rfl
  refitted node body isChip reached entries := by
    refine .of_writes entries ?_ rfl
    simp only [isJoint, isChip]

/-- A comment, and a component of no known kind, is what it was and keeps what it drives at the ports that
are considered. -/
def KeepsNotes (considered : String → Prop) (before after : Node Circuit) : Prop :=
  before.part = .comment ∨ before.part = .unknown → after.part = before.part ∧
    ∀ port, considered port → after.outputs.get? port = before.outputs.get? port

/-- Single changes leave comments and components of no known kind alone. -/
theorem kept_keepsNotes (considered : String → Prop) : KeptSingly (KeepsNotes considered) where
  refl _ _ := ⟨rfl, fun _ _ => rfl⟩
  trans one two isNote := by
    obtain ⟨partFirst, outputsFirst⟩ := one isNote
    obtain ⟨partSecond, outputsSecond⟩ := two (partFirst ▸ isNote)
    exact ⟨partSecond.trans partFirst, fun port isConsidered =>
      (outputsSecond port isConsidered).trans (outputsFirst port isConsidered)⟩
  staged _ _ _ := ⟨rfl, fun _ _ => rfl⟩
  quieted node isNote := by rcases isNote with part | part <;> simp [quieted, part]
  stepped node _ isNote := by rcases isNote with part | part <;> simp [step, part]
  driven signal node isNote := by rcases isNote with part | part <;> simp [driveFrom, drive?, part]
  begun interval node isNote := by rcases isNote with part | part <;> simp [begun, beginTick, quieted, part]
  refitted node body isChip _ _ isNote := by rcases isNote with part | part <;> simp [isChip] at part

/-- A signal that is shown on a node as on a joint leaves the other ports. -/
theorem KeepsNotes.shown {considered : String → Prop} (beside : ¬considered "joint") (node : Node Circuit)
    (signal : Signal) : node.KeepsNotes considered (node.setOutput "joint" signal) := by
  refine fun _ => ⟨rfl, fun port isConsidered => ?_⟩
  rw [setOutput, PortMap.get?_insert, if_neg]
  rintro rfl
  exact beside isConsidered

end Node

end Breadboard
