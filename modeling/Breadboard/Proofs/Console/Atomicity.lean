import Breadboard.Console.Work
import Breadboard.Proofs.Circuit.Nodes

/-!
# Commands take effect as a whole or not at all

A command is carried out on the session itself, and it can fail when it has begun to change it: only driving a
node tells whether it can be driven. Still it makes no difference whether a command is carried out like this
or on a copy of the session that is thrown away if the command fails. A node that cannot be driven stays as
it is when it is driven, and everything else that makes a command fail is looked at before anything is
changed.
-/

namespace Breadboard

namespace Circuit

variable {circuit : Circuit} {id : NodeId} {node other : Node Circuit} {name : String}

/-- What a name resolves to is a node. -/
theorem exists_of_resolve (resolves : circuit.resolve name = .ok id) :
    ∃ node, circuit.node? id = some node := by
  unfold resolve at resolves
  split at resolves
  · next labelled =>
    obtain ⟨item, isFirst, same⟩ := Option.map_eq_some_iff.mp labelled
    have listed := Arena.mem_items.mp (List.mem_of_find?_eq_some isFirst)
    exact ⟨item.2, (Except.ok.inj resolves) ▸ same ▸ listed⟩
  · split at resolves
    · next numbered =>
      have present := (Option.filter_eq_some_iff.mp numbered).2
      exact Option.isSome_iff_exists.mp (Except.ok.inj resolves ▸ present)
    · contradiction

/-- A node that is changed by a rule is replaced by what the rule makes of it. -/
theorem modifyNode_eq (change : Node Circuit → Node Circuit) (found : circuit.node? id = some node) :
    circuit.modifyNode id change = circuit.modifyNode id fun _ => change node := by
  refine ext_node? ?_ (fun place => ?_) rfl rfl
  · simp [modifyNode, Arena.modify]
  · rw [node?_modifyNode, node?_modifyNode]
    by_cases here : id = place
    · subst here
      rw [if_pos rfl, if_pos rfl, found, Option.map_some, Option.map_some]
    · rw [if_neg here, if_neg here]

/-- A node that is replaced by itself changes nothing. -/
theorem modifyNode_self (found : circuit.node? id = some node) :
    (circuit.modifyNode id fun _ => node) = circuit := by
  refine ext_node? ?_ (fun place => ?_) rfl rfl
  · simp [modifyNode, Arena.modify]
  · rw [node?_modifyNode]
    by_cases here : id = place
    · subst here
      rw [if_pos rfl, found, Option.map_some]
    · rw [if_neg here]

/-- Driving a node that takes no signals changes nothing. -/
theorem modifyNode_undriven {signal : Signal} (found : circuit.node? id = some node)
    (refuses : node.drive? signal = none) :
    (circuit.modifyNode id fun node => (node.drive? signal).getD node) = circuit := by
  rw [modifyNode_eq _ found, refuses, Option.getD_none, modifyNode_self found]

/-- Driving a node that takes signals puts the driven node in its place. -/
theorem modifyNode_driven {signal : Signal} (found : circuit.node? id = some node)
    (drives : node.drive? signal = some other) :
    (circuit.modifyNode id fun node => (node.drive? signal).getD node) =
      circuit.modifyNode id fun _ => other := by
  rw [modifyNode_eq _ found, drives, Option.getD_some]

end Circuit

namespace Work

variable {α β : Type} (session : Session)

@[simp] theorem on_pure (result : α) : (pure result : Work α).on session = (.ok result, session) := rfl

@[simp] theorem on_get : (get : Work Session).on session = (.ok session, session) := rfl

@[simp] theorem on_modify (change : Session → Session) :
    (modify change : Work PUnit).on session = (.ok ⟨⟩, change session) := rfl

/-- Work goes on where the work before it ended, unless that failed. -/
theorem on_bind (work : Work α) (next : α → Work β) :
    (work >>= next).on session =
      match work.on session with
      | (.ok result, after) => (next result).on after
      | (.error error, after) => (.error error, after) := by
  simp only [on, ExceptT.run_bind, StateT.run_bind]
  change (match work.run.run session with | (result, after) => _) = _
  rcases work.run.run session with ⟨error | result, after⟩
  · rfl
  · rfl

/-- A name is resolved in the circuit of the session. -/
theorem on_resolve (name : String) : (resolve name).on session = (session.circuit.resolve name, session) := by
  rw [resolve, on_bind, on_get]
  simp only
  cases session.circuit.resolve name with
  | ok id => rfl
  | error error => rfl

/-- A node that is there is found. -/
theorem on_nodeAt {id : NodeId} {node : Node Circuit} (found : session.circuit.node? id = some node)
    (name : String) : (nodeAt id name).on session = (.ok node, session) := by
  rw [nodeAt, on_bind, on_get]
  simp only [found]
  exact on_pure session node

/-- A node is driven before it is told whether it can be. -/
theorem on_drive {id : NodeId} {node : Node Circuit} (found : session.circuit.node? id = some node)
    (signal : Signal) : (drive id signal).on session = (.ok (node.drive? signal).isSome,
      { session with
        circuit := session.circuit.modifyNode id fun node => (node.drive? signal).getD node }) := by
  simp only [drive, onCircuit, on_bind, on_get, on_modify, on_pure, found, Option.bind_some]

end Work

namespace Session

variable (session : Session)

/-- What becomes of work on a session if it takes effect as a whole or not at all. -/
def settled (outcome : Except DriveError (Session × Reply)) : Except DriveError Reply × Session :=
  match outcome with
  | .ok (after, reply) => (.ok reply, after)
  | .error error => (.error error, session)

/-- What is to be done next to a result is done to it. -/
theorem ok_bind {α β : Type} (result : α) (next : α → Except DriveError β) :
    (Except.ok result >>= next) = next result := rfl

/-- A drive takes effect as a whole or not at all. -/
theorem on_assign (name literal : String) :
    (Work.assign name literal).on session = session.settled (session.set name literal) := by
  rw [Work.assign, Work.on_bind, Work.on_resolve, set]
  cases resolves : session.circuit.resolve name with
  | error error => rfl
  | ok id =>
    obtain ⟨node, found⟩ := Circuit.exists_of_resolve resolves
    simp only [Work.on_bind, Work.on_nodeAt session found, ok_bind, Circuit.driveNode, found]
    cases Signal.ofLiteral? node.pinWidth literal.toList with
    | none => rfl
    | some signal =>
      simp only [Work.on_bind, Work.on_drive session found]
      cases drives : node.drive? signal with
      | none =>
        rw [Circuit.modifyNode_undriven found drives]
        rfl
      | some driven =>
        rw [Circuit.modifyNode_driven found drives]
        rfl

/-- Flipping a node takes effect as a whole or not at all. -/
theorem on_toggle (name : String) :
    (Work.toggle name).on session = session.settled (session.toggle name) := by
  rw [Work.toggle, Work.on_bind, Work.on_resolve, toggle]
  cases resolves : session.circuit.resolve name with
  | error error => rfl
  | ok id =>
    obtain ⟨node, found⟩ := Circuit.exists_of_resolve resolves
    simp only [Work.on_bind, Work.on_nodeAt session found, ok_bind, found, Option.bind_some]
    cases flips : flipped? node with
    | none => rfl
    | some flipped =>
      simp only [Work.on_bind, Work.on_drive session found]
      rfl

/-- Acting on an oscillator takes effect as a whole or not at all. -/
theorem on_tune (name : String) (action : ClockAction) :
    (Work.tune name action).on session = session.settled (session.clock name action) := by
  rw [Work.tune, Work.on_bind, Work.on_resolve, clock]
  cases resolves : session.circuit.resolve name with
  | error error => rfl
  | ok id =>
    simp only [Work.on_bind, Work.on_get, ok_bind]
    cases (session.circuit.node? id).bind oscillator? with
    | none => rfl
    | some oscillator => rfl

/-- A name is watched if it names a node, and nothing happens if it does not. -/
theorem on_watch (name : String) : (Work.watch name).on session = session.settled (session.watch name) := by
  rw [Work.watch, Work.on_bind, Work.on_resolve, watch]
  cases resolves : session.circuit.resolve name with
  | error error => rfl
  | ok id =>
    simp only [Work.on_bind, Work.on_get, ok_bind]
    cases session.watches.contains name with
    | true => rfl
    | false => rfl

/-- The number of watched names tells whether a name was among them. -/
theorem on_unwatch (name : String) :
    (Work.unwatch name).on session = session.settled (.ok (session.unwatch name)) := by
  have fewer : (session.watches.filter (· != name)).length < session.watches.length ↔
      session.watches.contains name = true := by
    rw [List.length_filter_lt_length_iff_exists, List.contains_iff_mem]
    constructor
    · rintro ⟨watched, member, dropped⟩
      obtain rfl : watched = name := by simpa using dropped
      exact member
    · intro member
      exact ⟨name, member, by simp⟩
  simp only [Work.unwatch, Work.on_bind, Work.on_get, Work.on_modify, Work.on_pure, fewer]
  rfl

/-- A command takes effect as a whole or not at all, although it is carried out step by step. -/
theorem perform_eq (command : Command) :
    session.perform command = session.settled (session.execute command) := by
  cases command with
  | set name literal => exact session.on_assign name literal
  | toggle name => exact session.on_toggle name
  | clock name action => exact session.on_tune name action
  | watch name => exact session.on_watch name
  | unwatch name => exact session.on_unwatch name
  | _ => rfl

end Session

end Breadboard
