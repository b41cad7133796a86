import Breadboard.Console.Session

/-!
# Commands at work

A command is carried out on the session itself, one thing after the other. Where it fails, what it has
changed until then stays changed.
-/

namespace Breadboard

/-- Work on a session, which may fail half done. -/
abbrev Work := ExceptT DriveError (StateM Session)

namespace Work

/-- What becomes of work on a session, and the session after it. -/
def on {α : Type} (work : Work α) (session : Session) : Except DriveError α × Session :=
  work.run.run session

/-- Changes the circuit of the session. -/
def onCircuit (change : Circuit → Circuit) : Work Unit :=
  modify fun session => { session with circuit := change session.circuit }

/-- The node with a name. -/
def resolve (name : String) : Work NodeId := do
  match (← get).circuit.resolve name with
  | .ok id => return id
  | .error error => throw error

/-- The node in a slot, which has the name in reports. -/
def nodeAt (id : NodeId) (name : String) : Work (Node Circuit) := do
  match (← get).circuit.node? id with
  | some node => return node
  | none => throw (.unknownNode name)

/-- Drives a node with a signal, and tells whether it takes signals at all. -/
def drive (id : NodeId) (signal : Signal) : Work Bool := do
  let node := (← get).circuit.node? id
  onCircuit fun circuit => circuit.modifyNode id fun node => (node.drive? signal).getD node
  return (node.bind fun node => node.drive? signal).isSome

/-- Ticks once. -/
def tick : Work Reply := do
  let (session, reply) := (← get).step
  set session
  return reply

/-- Ticks some times. -/
def runTicks (ticks : Nat) : Work Reply := do
  let (session, reply) := (← get).run ticks
  set session
  return reply

/-- Drives a node with a literal. Whether the node can be driven turns out when it is. -/
def assign (name literal : String) : Work Reply := do
  let id ← resolve name
  let node ← nodeAt id name
  match Signal.ofLiteral? node.pinWidth literal.toList with
  | none => throw (.invalid name (trimmed literal) .noLiteral)
  | some signal =>
    if ← drive id signal then return .shown (name ++ " <- " ++ signal.text)
    else throw (.invalid name (trimmed literal) .notDrivable)

/-- Flips a node. -/
def toggle (name : String) : Work Reply := do
  let id ← resolve name
  let node ← nodeAt id name
  match Session.flipped? node with
  | none => throw (.invalid name "toggle" .notToggleable)
  | some flipped =>
    let _ ← drive id (.bit flipped)
    return .shown (name ++ " <- " ++ (if flipped then "1" else "0"))

/-- Acts on an oscillator. -/
def tune (name : String) (action : ClockAction) : Work Reply := do
  let id ← resolve name
  match ((← get).circuit.node? id).bind Session.oscillator? with
  | none => throw (.invalid name "clock" .notOscillator)
  | some oscillator =>
    let changed := Session.actOn action oscillator
    onCircuit fun circuit => circuit.modifyNode id fun node => { node with part := .clock changed }
    return .shown (name ++ ": " ++ changed.frequency.text ++ " ("
      ++ (if changed.running then "running" else "stopped") ++ ")")

/-- Watches a name, which has to name a node. -/
def watch (name : String) : Work Reply := do
  let _ ← resolve name
  if !(← get).watches.contains name then
    modify fun session => { session with watches := session.watches ++ [name] }
  return .shown ("Watching '" ++ name ++ "'")

/-- Ends the watch on a name. Whether there was one shows in the number of watched names. -/
def unwatch (name : String) : Work Reply := do
  let before := (← get).watches.length
  modify fun session => { session with watches := session.watches.filter (· != name) }
  return .shown (if (← get).watches.length < before then "Unwatched '" ++ name ++ "'"
    else "'" ++ name ++ "' was not being watched")

/-- Only looks at the session. -/
def look (reply : Session → Reply) : Work Reply := do
  return reply (← get)

end Work

/-- What a command does to a session. -/
def Command.work : Command → Work Reply
  | .step => Work.tick
  | .run ticks => Work.runTicks ticks
  | .set node value => Work.assign node value
  | .toggle node => Work.toggle node
  | .clock node action => Work.tune node action
  | .inspect names => Work.look fun session => .shown (session.inspect names)
  | .watch node => Work.watch node
  | .unwatch node => Work.unwatch node
  | .nodes => Work.look fun session => .shown (Session.nodeList session.circuit)
  | .nets => Work.look fun session =>
    .shown ((Netlist.build session.circuit).report session.circuit)
  | .status => Work.look fun session => .shown session.status
  | .help => Work.look fun _ => .shown Session.helpText
  | .quit => Work.look fun _ => .quit

/-- Carries out a command on a session: what became of the command, and the session after it. -/
def Session.perform (session : Session) (command : Command) : Except DriveError Reply × Session :=
  command.work.on session

end Breadboard
