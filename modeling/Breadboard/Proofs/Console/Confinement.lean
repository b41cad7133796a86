import Breadboard.Proofs.Console.Atomicity
import Breadboard.Proofs.Engine.Requests
import Breadboard.Proofs.Run.Agreement
import Breadboard.Proofs.Run.Touching
import Breadboard.Proofs.Signal.Literals

/-!
# What commands do to a session

Commands are confined. Ticks are made by the two commands that are there for it, and apart from ticks a
command changes the state of the one node that it names, or the list of watched names, or nothing. No command
changes what a circuit is made of, on any level.
-/

namespace Breadboard

section Naming

/-- The components differ in their state only: what a pin or a switch is driven to, or how an oscillator is
set. -/
inductive Part.Restates {Inner : Type} : Part Inner → Part Inner → Prop
  | inputPin (width : PinWidth) (before after : Signal) :
      Restates (.inputPin width before) (.inputPin width after)
  | switch (before after : Bool) : Restates (.switch before) (.switch after)
  | clock (before after : Oscillator) : Restates (.clock before) (.clock after)

/-- The nodes differ in the state of their component only. -/
structure Node.Restates (before after : Node Circuit) : Prop where
  label : after.label = before.label
  position : after.position = before.position
  inputs : after.inputs = before.inputs
  outputs : after.outputs = before.outputs
  part : before.part.Restates after.part

/-- The circuits differ in the state of one node only. -/
structure Circuit.RestatedAt (id : NodeId) (before after : Circuit) : Prop where
  frame : after.SameFrame before
  elsewhere : ∀ other, other ≠ id → after.node? other = before.node? other
  here : ∃ node restated, before.node? id = some node ∧ after.node? id = some restated ∧
    node.Restates restated

namespace Node

variable {node other : Node Circuit}

/-- A node in another state has the blueprint of the node. -/
theorem Restates.blueprint_eq (restates : node.Restates other) : other.blueprint = node.blueprint := by
  obtain ⟨label, position, part, inputs, outputs⟩ := node
  obtain ⟨otherLabel, otherPosition, otherPart, otherInputs, otherOutputs⟩ := other
  obtain ⟨rfl, rfl, rfl, rfl, parts⟩ := restates
  cases parts <;> rfl

/-- Driving a node puts it in another state. -/
theorem restates_of_drive? {signal : Signal} (drives : node.drive? signal = some other) :
    node.Restates other := by
  obtain ⟨label, position, part, inputs, outputs⟩ := node
  cases part with
  | inputPin width state =>
    obtain rfl := Option.some.inj drives
    exact ⟨rfl, rfl, rfl, rfl, .inputPin ..⟩
  | switch on =>
    obtain rfl := Option.some.inj drives
    exact ⟨rfl, rfl, rfl, rfl, .switch ..⟩
  | _ => contradiction

/-- What a node is driven to with a signal in the form of its width is shown on it. -/
theorem display?_of_drive? {signal : Signal} (form : signal.HasForm node.pinWidth)
    (drives : node.drive? signal = some other) : other.display? = some signal := by
  obtain ⟨label, position, part, inputs, outputs⟩ := node
  cases part with
  | inputPin width state =>
    obtain rfl := Option.some.inj drives
    exact congrArg some form
  | switch on =>
    obtain rfl := Option.some.inj drives
    exact congrArg some form
  | _ => contradiction

end Node

namespace Circuit

variable {circuit left right : Circuit} {id : NodeId} {node other : Node Circuit}

/-- Putting a node in another state in its place changes the state of that node only. -/
theorem restatedAt_modifyNode (found : circuit.node? id = some node) (restates : node.Restates other) :
    circuit.RestatedAt id (circuit.modifyNode id fun _ => other) where
  frame := ⟨rfl, rfl, by simp [modifyNode, Arena.modify]⟩
  elsewhere place away := by rw [node?_modifyNode, if_neg (Ne.symm away)]
  here := ⟨node, other, found, by rw [node?_modifyNode, if_pos rfl, found, Option.map_some], restates⟩

/-- Circuits that differ in the state of one node have one blueprint. -/
theorem RestatedAt.blueprint_eq (restated : left.RestatedAt id right) : right.blueprint = left.blueprint := by
  obtain ⟨⟨wires, revision, size⟩, elsewhere, node, other, found, reached, restates⟩ := restated
  refine viewed_ext size (fun place => ?_) wires revision
  by_cases here : place = id
  · subst here
    rw [found, reached, Option.map_some, Option.map_some]
    exact congrArg some restates.blueprint_eq
  · rw [elsewhere place here]

/-- Names are resolved in the blueprint as in the circuit. -/
theorem resolve_blueprint (circuit : Circuit) (name : String) :
    circuit.blueprint.resolve name = circuit.resolve name := by
  have labels : circuit.blueprint.findLabel? name = circuit.findLabel? name := by
    rw [findLabel?, findLabel?, blueprint, viewed_eq, Arena.items_map, List.find?_map, Option.map_map]
    rfl
  have handles : circuit.blueprint.nodes.contains = circuit.nodes.contains := by
    funext id
    rw [Arena.contains, Arena.contains]
    change (circuit.blueprint.node? id).isSome = (circuit.node? id).isSome
    rw [blueprint, node?_viewed, Option.isSome_map]
  rw [resolve, resolve, labels, handles]

/-- Names resolve alike in circuits with one blueprint. -/
theorem resolve_of_blueprint_eq (same : left.blueprint = right.blueprint) (name : String) :
    left.resolve name = right.resolve name := by
  rw [← resolve_blueprint left, same, resolve_blueprint]

end Circuit

/-- Ticks keep the blueprint, whatever netlists are kept.

Proof: by induction on the ticks. -/
theorem Scheduler.blueprint_steps (scheduler : Scheduler) (circuit : Circuit) (ticks : Nat) :
    (scheduler.steps circuit ticks).2.1.blueprint = circuit.blueprint := by
  induction ticks generalizing scheduler circuit with
  | zero => rfl
  | succ ticks inductionHypothesis =>
    have first : (scheduler.step circuit).2.1.blueprint = circuit.blueprint := by
      rcases scheduler.circuit_step circuit with same | evaluated
      · rw [same]
      · rw [evaluated]
        exact (invariant_blueprint.evaluate scheduler.limits .top trivial trivial).1.blueprint_eq
    exact (inductionHypothesis (scheduler.step circuit).1 (scheduler.step circuit).2.1).trans first

end Naming

section Effects

/-- The number of ticks that a command asks for. -/
def Command.ticks : Command → Nat
  | .step => 1
  | .run ticks => ticks
  | _ => 0

/-- The name of the node whose state a command is to change. -/
def Command.target? : Command → Option String
  | .set name _ => some name
  | .toggle name => some name
  | .clock name _ => some name
  | _ => none

/-- What a command does to a session that is carried out. -/
inductive Session.Does (session : Session) : Command → Session → Reply → Prop
  /-- Ticks are made, as many as the command asks for; there may be none. -/
  | ticked {command : Command} {reply : Reply} (idle : command.target? = none)
      (quits : reply = .quit ↔ command = .quit) : Does session command
      { session with
        scheduler := (session.scheduler.steps session.circuit command.ticks).1
        circuit := (session.scheduler.steps session.circuit command.ticks).2.1 } reply
  /-- A node is put in another state, and after a drive the reply tells what is shown on it. -/
  | restated {command : Command} {name shown : String} {id : NodeId} {node other : Node Circuit}
      (target : command.target? = some name) (resolves : session.circuit.resolve name = .ok id)
      (found : session.circuit.node? id = some node) (restates : node.Restates other)
      (echoes : ∀ literal, command = .set name literal →
        ∃ signal, other.display? = some signal ∧ shown = name ++ " <- " ++ signal.text) :
      Does session command { session with circuit := session.circuit.modifyNode id fun _ => other }
        (.shown shown)
  /-- A name is watched, unless it is already. -/
  | watched {name : String} {id : NodeId} (resolves : session.circuit.resolve name = .ok id) (shown : String) :
      Does session (.watch name)
        { session with
          watches := if session.watches.contains name then session.watches else session.watches ++ [name] }
        (.shown shown)
  /-- A name is not watched any more. -/
  | unwatched (name shown : String) :
      Does session (.unwatch name) { session with watches := session.watches.filter (· != name) }
        (.shown shown)

namespace Session

variable {session after : Session} {command : Command} {reply : Reply}

/-- What is carried out on a name is carried out on the node that the name resolves to. -/
theorem of_resolve_bind {α : Type} {circuit : Circuit} {name : String} {result : α}
    {next : NodeId → Except DriveError α} (executed : circuit.resolve name >>= next = .ok result) :
    ∃ id node, circuit.resolve name = .ok id ∧ circuit.node? id = some node ∧ next id = .ok result := by
  cases resolves : circuit.resolve name with
  | error error =>
    rw [resolves] at executed
    contradiction
  | ok id =>
    obtain ⟨node, found⟩ := Circuit.exists_of_resolve resolves
    rw [resolves, ok_bind] at executed
    exact ⟨id, node, rfl, found, executed⟩

/-- A drive that is carried out puts its node in a state that is told. -/
theorem does_set {name literal : String} (executed : session.set name literal = .ok (after, reply)) :
    session.Does (.set name literal) after reply := by
  obtain ⟨id, node, resolves, found, executed⟩ := of_resolve_bind executed
  rw [Circuit.driveNode] at executed
  cases reads : Signal.ofLiteral? node.pinWidth literal.toList with
  | none =>
    simp only [found, reads] at executed
    contradiction
  | some signal =>
    cases drives : node.drive? signal with
    | none =>
      simp only [found, reads, drives] at executed
      contradiction
    | some driven =>
      simp only [found, reads, drives] at executed
      obtain ⟨rfl, rfl⟩ := Prod.mk.inj (Except.ok.inj executed)
      refine .restated rfl resolves found (Node.restates_of_drive? drives) fun _ _ => ?_
      exact ⟨signal, Node.display?_of_drive? (Signal.hasForm_of_ofLiteral? reads) drives, rfl⟩

/-- A node with a state to flip can be driven. -/
theorem exists_drive?_of_flipped? {node : Node Circuit} {flipped : Bool}
    (flips : flipped? node = some flipped) : ∃ driven, node.drive? (.bit flipped) = some driven := by
  obtain ⟨label, position, part, inputs, outputs⟩ := node
  cases part with
  | inputPin width state => exact ⟨_, rfl⟩
  | switch on => exact ⟨_, rfl⟩
  | _ => contradiction

/-- A node with an oscillator is one. -/
theorem part_of_oscillator? {node : Node Circuit} {oscillator : Oscillator}
    (has : oscillator? node = some oscillator) : node.part = .clock oscillator := by
  obtain ⟨label, position, part, inputs, outputs⟩ := node
  cases part with
  | clock own => exact congrArg Part.clock (Option.some.inj has)
  | _ => contradiction

/-- Flipping a node that is carried out puts it in another state. -/
theorem does_toggle {name : String} (executed : session.toggle name = .ok (after, reply)) :
    session.Does (.toggle name) after reply := by
  obtain ⟨id, node, resolves, found, executed⟩ := of_resolve_bind executed
  rw [found, Option.bind_some] at executed
  cases flips : flipped? node with
  | none =>
    rw [flips] at executed
    contradiction
  | some flipped =>
    obtain ⟨driven, drives⟩ := exists_drive?_of_flipped? flips
    rw [flips] at executed
    obtain ⟨rfl, rfl⟩ := Prod.mk.inj (Except.ok.inj executed)
    rw [Circuit.modifyNode_driven found drives]
    refine .restated rfl resolves found (Node.restates_of_drive? drives) fun _ isSet => ?_
    contradiction

/-- Acting on an oscillator that is carried out puts it in another state. -/
theorem does_clock {name : String} {action : ClockAction}
    (executed : session.clock name action = .ok (after, reply)) :
    session.Does (.clock name action) after reply := by
  obtain ⟨id, node, resolves, found, executed⟩ := of_resolve_bind executed
  rw [found, Option.bind_some] at executed
  cases part : oscillator? node with
  | none =>
    rw [part] at executed
    contradiction
  | some oscillator =>
    rw [part] at executed
    obtain ⟨rfl, rfl⟩ := Prod.mk.inj (Except.ok.inj executed)
    rw [Circuit.modifyNode_eq _ found]
    have clocked : node.part.Restates (.clock (actOn action oscillator)) := by
      rw [part_of_oscillator? part]
      exact .clock ..
    refine .restated rfl resolves found ⟨rfl, rfl, rfl, rfl, clocked⟩ fun _ isSet => ?_
    contradiction

/-- A name that is watched names a node. -/
theorem does_watch {name : String} (executed : session.watch name = .ok (after, reply)) :
    session.Does (.watch name) after reply := by
  obtain ⟨id, node, resolves, _, executed⟩ := of_resolve_bind executed
  obtain ⟨rfl, rfl⟩ := Prod.mk.inj (Except.ok.inj executed)
  exact .watched resolves _

/-- A command that is carried out does one of the things that commands do. -/
theorem does_execute (executed : session.execute command = .ok (after, reply)) :
    session.Does command after reply := by
  cases command with
  | set name literal => exact does_set executed
  | toggle name => exact does_toggle executed
  | clock name action => exact does_clock executed
  | watch name => exact does_watch executed
  | unwatch name =>
    obtain ⟨rfl, rfl⟩ := Prod.mk.inj (Except.ok.inj executed)
    exact .unwatched name _
  | step =>
    obtain ⟨rfl, rfl⟩ := Prod.mk.inj (Except.ok.inj executed)
    exact .ticked rfl (by simp)
  | run ticks =>
    obtain ⟨rfl, rfl⟩ := Prod.mk.inj (Except.ok.inj executed)
    simp only [Scheduler.stepMany_eq]
    exact .ticked rfl (by simp)
  | _ =>
    obtain ⟨rfl, rfl⟩ := Prod.mk.inj (Except.ok.inj executed)
    exact .ticked rfl (by simp)

end Session

end Effects

section Confinement

namespace Session

variable {session after : Session} {command : Command} {reply : Reply}

/-- A command is carried out, or it is refused without an effect; those that tick are never refused. -/
theorem perform_cases (session : Session) (command : Command) :
    (∃ after reply, session.perform command = (.ok reply, after) ∧ session.Does command after reply) ∨
      command.ticks = 0 ∧ ∃ error, session.perform command = (.error error, session) := by
  rw [perform_eq]
  cases executed : session.execute command with
  | error error =>
    refine .inr ⟨?_, error, rfl⟩
    cases command with
    | step => cases executed
    | run ticks => cases executed
    | _ => rfl
  | ok result => exact .inl ⟨result.1, result.2, rfl, does_execute executed⟩

/-- What commands do keeps the blueprint. -/
theorem Does.blueprint_eq (does : session.Does command after reply) :
    after.circuit.blueprint = session.circuit.blueprint := by
  cases does with
  | ticked => exact session.scheduler.blueprint_steps session.circuit command.ticks
  | restated _ _ found restates => exact (Circuit.restatedAt_modifyNode found restates).blueprint_eq
  | watched => rfl
  | unwatched => rfl

/-- Only the command to quit is answered with an end. -/
theorem Does.quit_iff (does : session.Does command after reply) : reply = .quit ↔ command = .quit := by
  cases does with
  | ticked _ quits => exact quits
  | restated target =>
    constructor
    · nofun
    · rintro rfl
      contradiction
  | watched => exact ⟨nofun, nofun⟩
  | unwatched => exact ⟨nofun, nofun⟩

/-- What a command may do to a session, be it carried out or refused. -/
structure Confines (session : Session) (command : Command) : Prop where
  /-- A refused command changes nothing. -/
  atomic : ∀ error, (session.perform command).1 = .error error → (session.perform command).2 = session
  /-- The scheduler makes the ticks that are asked for, and nothing else becomes of it. -/
  scheduler : (session.perform command).2.scheduler =
    (session.scheduler.steps session.circuit command.ticks).1
  /-- Unless the command is on the state of a node, only its ticks change the circuit. -/
  circuit : command.target? = none → (session.perform command).2.circuit =
    (session.scheduler.steps session.circuit command.ticks).2.1
  /-- A command on the state of a node changes nothing in the circuit but that. -/
  target : ∀ name reply, command.target? = some name → (session.perform command).1 = .ok reply →
    ∃ id, session.circuit.resolve name = .ok id ∧
      session.circuit.RestatedAt id (session.perform command).2.circuit
  /-- After a drive the reply tells what is shown on the node. -/
  echo : ∀ name literal reply, command = .set name literal → (session.perform command).1 = .ok reply →
    ∃ id node signal, (session.perform command).2.circuit.resolve name = .ok id ∧
      (session.perform command).2.circuit.node? id = some node ∧ node.display? = some signal ∧
      reply = .shown (name ++ " <- " ++ signal.text)
  /-- On no level anything changes but what moves in a simulation, and so no wire and no revision. -/
  topology : (session.perform command).2.circuit.blueprint = session.circuit.blueprint
  /-- Only two commands change what is watched. -/
  watches : (∀ name, command ≠ .watch name) → (∀ name, command ≠ .unwatch name) →
    (session.perform command).2.watches = session.watches

/-- A command that is carried out is confined. -/
theorem Does.confines (does : session.Does command after reply)
    (performs : session.perform command = (.ok reply, after)) : session.Confines command := by
  have topology := does.blueprint_eq
  constructor
  · intro error refused
    rw [performs] at refused
    contradiction
  · rw [performs]
    cases does with
    | ticked => rfl
    | restated target =>
      cases command <;> first | rfl | contradiction
    | watched => rfl
    | unwatched => rfl
  · intro idle
    rw [performs]
    cases does with
    | ticked => rfl
    | restated target =>
      rw [idle] at target
      contradiction
    | watched => rfl
    | unwatched => rfl
  · intro name told target _
    rw [performs]
    cases does with
    | ticked idle =>
      rw [target] at idle
      contradiction
    | restated other resolves found restates =>
      obtain rfl := Option.some.inj (other.symm.trans target)
      exact ⟨_, resolves, Circuit.restatedAt_modifyNode found restates⟩
    | watched => contradiction
    | unwatched => contradiction
  · rintro name literal told rfl replies
    rw [performs] at replies ⊢
    obtain rfl := Except.ok.inj replies
    cases does with
    | ticked idle => contradiction
    | restated target resolves found restates echoes =>
      next id node other =>
      obtain rfl := Option.some.inj target
      obtain ⟨signal, shown, echoed⟩ := echoes literal rfl
      refine ⟨id, other, signal, ?_, ?_, shown, congrArg Reply.shown echoed⟩
      · rw [Circuit.resolve_of_blueprint_eq topology]
        exact resolves
      · rw [Circuit.node?_modifyNode, if_pos rfl, found, Option.map_some]
  · rw [performs]
    exact topology
  · intro notWatch notUnwatch
    rw [performs]
    cases does with
    | ticked => rfl
    | restated => rfl
    | watched => exact absurd rfl (notWatch _)
    | unwatched => exact absurd rfl (notUnwatch _)

/-- A command that is refused is confined. -/
theorem confines_of_refused {error : DriveError} (still : command.ticks = 0)
    (refused : session.perform command = (.error error, session)) : session.Confines command := by
  constructor
  · intro _ _
    rw [refused]
  · rw [refused, still]
    rfl
  · intro _
    rw [refused, still]
    rfl
  · intro name reply _ carriedOut
    rw [refused] at carriedOut
    contradiction
  · intro name literal reply _ carriedOut
    rw [refused] at carriedOut
    contradiction
  · rw [refused]
  · intro _ _
    rw [refused]

/-- Every command is confined. -/
theorem confines (session : Session) (command : Command) : session.Confines command := by
  rcases session.perform_cases command with ⟨after, reply, performs, does⟩ | ⟨still, error, refused⟩
  · exact does.confines performs
  · exact confines_of_refused still refused

end Session

end Confinement

end Breadboard
