import Breadboard.Console.Command
import Breadboard.Engine.Scheduler
import Breadboard.Net.Report
import Breadboard.Run.Drive

/-!
# Interactive sessions

A session is a circuit with its scheduler and a list of watched names. A command shows a text, ends
the session, or is refused, and a command that is refused leaves the session as it is.
-/

namespace Breadboard

/-- What a command does that is not refused. -/
inductive Reply where
  | shown (text : String)
  | quit
deriving DecidableEq

/-- The state of an interactive session. -/
structure Session where
  circuit : Circuit
  scheduler : Scheduler
  /-- The watched names, in the order in which they were first watched. -/
  watches : List String

namespace Session

/-- A session on a circuit, before the first tick. -/
def new (circuit : Circuit) (limits : Limits) : Session :=
  ⟨circuit, .new limits, []⟩

/-- The shown signal of the node with a name. -/
def display? (session : Session) (name : String) : Option Signal :=
  match session.circuit.resolve name with
  | .ok id => (session.circuit.node? id).bind Node.display?
  | .error _ => none

/-- Evaluates one tick. -/
def step (session : Session) : Session × Reply :=
  let (scheduler, circuit, outcome) := session.scheduler.step session.circuit
  let text := match outcome with
    | .skipped => "Tick skipped"
    | .settled changed passes =>
      "Tick " ++ decimalText scheduler.ticks ++ ": " ++ (if changed then "changed" else "stable")
        ++ " after " ++ decimalText passes ++ " pass(es)"
    | .faulted error => "Tick abandoned: " ++ error.message
  ({ session with circuit, scheduler }, .shown text)

/-- Evaluates a number of ticks. -/
def run (session : Session) (ticks : Nat) : Session × Reply :=
  let (scheduler, circuit, changed) := session.scheduler.runTicks session.circuit ticks
  ({ session with circuit, scheduler },
    .shown ("Ran " ++ decimalText ticks ++ " tick(s), " ++ decimalText changed
      ++ " with changes; now at tick " ++ decimalText scheduler.ticks))

/-- Drives a node. -/
def set (session : Session) (name literal : String) : Except DriveError (Session × Reply) := do
  let id ← session.circuit.resolve name
  let (signal, circuit) ← session.circuit.driveNode id name literal
  return ({ session with circuit }, .shown (name ++ " <- " ++ signal.text))

/-- The flipped state of a switch or a pin of one bit. -/
def flipped? (node : Node Circuit) : Option Bool :=
  match node.part with
  | .switch on => some !on
  | .inputPin .one state => some !state.toBool
  | _ => none

/-- Flips a node. -/
def toggle (session : Session) (name : String) : Except DriveError (Session × Reply) := do
  let id ← session.circuit.resolve name
  match (session.circuit.node? id).bind flipped? with
  | none => throw (.invalid name "toggle" .notToggleable)
  | some flipped =>
    let circuit := session.circuit.modifyNode id fun node =>
      (node.drive? (.bit flipped)).getD node
    return ({ session with circuit }, .shown (name ++ " <- " ++ (if flipped then "1" else "0")))

/-- The oscillator after an action. -/
def actOn (action : ClockAction) (oscillator : Oscillator) : Oscillator :=
  match action with
  | .faster => oscillator.faster
  | .slower => oscillator.slower
  | .toggle => oscillator.toggleRunning

/-- The oscillator of a node. -/
def oscillator? (node : Node Circuit) : Option Oscillator :=
  match node.part with
  | .clock oscillator => some oscillator
  | _ => none

/-- Acts on an oscillator. -/
def clock (session : Session) (name : String) (action : ClockAction) :
    Except DriveError (Session × Reply) := do
  let id ← session.circuit.resolve name
  match (session.circuit.node? id).bind oscillator? with
  | none => throw (.invalid name "clock" .notOscillator)
  | some oscillator =>
    let changed := actOn action oscillator
    let circuit := session.circuit.modifyNode id fun node => { node with part := .clock changed }
    return ({ session with circuit },
      .shown (name ++ ": " ++ changed.frequency.text ++ " ("
        ++ (if changed.running then "running" else "stopped") ++ ")"))

/-- The signals of nodes, a line for each name. -/
def inspect (session : Session) (names : List String) : String :=
  trimmedEnd (String.join (names.map fun name =>
    match session.display? name with
    | some signal => name ++ " = " ++ signal.text ++ "\n"
    | none => "No value for '" ++ name ++ "'\n"))

/-- Watches a name, which has to name a node. -/
def watch (session : Session) (name : String) : Except DriveError (Session × Reply) := do
  let _ ← session.circuit.resolve name
  let watches :=
    if session.watches.contains name then session.watches else session.watches ++ [name]
  return ({ session with watches }, .shown ("Watching '" ++ name ++ "'"))

/-- Ends the watch on a name. -/
def unwatch (session : Session) (name : String) : Session × Reply :=
  ({ session with watches := session.watches.filter (· != name) },
    .shown (if session.watches.contains name then "Unwatched '" ++ name ++ "'"
      else "'" ++ name ++ "' was not being watched"))

/-- A text filled up with blanks in front. -/
def padLeft (width : Nat) (text : String) : String :=
  String.ofList (List.replicate (width - text.length) ' ') ++ text

/-- A text filled up with blanks behind. -/
def padRight (width : Nat) (text : String) : String :=
  text ++ String.ofList (List.replicate (width - text.length) ' ')

/-- The library name of a node's type, or a question mark. -/
def typeName (node : Node Circuit) : String :=
  (node.part.type?.map PartType.name).getD "?"

/-- The line of a node in the list of nodes. -/
def nodeLine (id : NodeId) (node : Node Circuit) : String :=
  "  " ++ padLeft 4 (decimalText id) ++ "  " ++ padRight 12 (typeName node) ++ " " ++ node.label
    ++ ((node.display?.map fun signal => " = " ++ signal.text).getD "") ++ "\n"

/-- The list of nodes. -/
def nodeList (circuit : Circuit) : String :=
  if circuit.nodeCount = 0 then "No nodes"
  else
    trimmedEnd (decimalText circuit.nodeCount ++ " node(s):\n"
      ++ String.join (circuit.nodes.items.map fun item => nodeLine item.1 item.2))

/-- The state of the session in figures. -/
def status (session : Session) : String :=
  let limits := session.scheduler.limits
  "Ticks: " ++ decimalText session.scheduler.ticks
    ++ "\nNodes: " ++ decimalText session.circuit.nodeCount
    ++ "\nWires: " ++ decimalText session.circuit.wires.length
    ++ "\nTick interval: " ++ decimalText limits.interval ++ " ms"
    ++ "\nLimits: " ++ decimalText limits.maxPasses ++ " passes, depth "
    ++ decimalText limits.maxDepth
    ++ "\nWatches: " ++ decimalText session.watches.length

/-- The list of commands. -/
def helpText : String :=
  "Commands:\n"
    ++ "  step [n]              (s)   Evaluate one tick, or n ticks\n"
    ++ "  run <n>               (r)   Evaluate n ticks\n"
    ++ "  set <node> <value>          Drive an input pin or switch (0, 1, 0xA5, 0b1010)\n"
    ++ "  toggle <node>         (t)   Flip a switch or 1-bit input pin\n"
    ++ "  clock <node> <action>       faster, slower or toggle an oscillator\n"
    ++ "  inspect <node>...     (i)   Show display values\n"
    ++ "  watch <node>          (w)   Print a node's value after every command\n"
    ++ "  unwatch <node>              Stop watching a node\n"
    ++ "  nodes                 (ls)  List all nodes\n"
    ++ "  nets                        List all nets with their values\n"
    ++ "  status                      Show session status\n"
    ++ "  help                  (h)   Show this help\n"
    ++ "  quit                  (q)   Exit\n"
    ++ "\nNodes are named by label or numeric handle."

/-- Carries out a command. -/
def execute (session : Session) : Command → Except DriveError (Session × Reply)
  | .step => .ok session.step
  | .run ticks => .ok (session.run ticks)
  | .set node value => session.set node value
  | .toggle node => session.toggle node
  | .clock node action => session.clock node action
  | .inspect names => .ok (session, .shown (session.inspect names))
  | .watch node => session.watch node
  | .unwatch node => .ok (session.unwatch node)
  | .nodes => .ok (session, .shown (nodeList session.circuit))
  | .nets =>
    .ok (session, .shown ((Netlist.build session.circuit).report session.circuit))
  | .status => .ok (session, .shown session.status)
  | .help => .ok (session, .shown helpText)
  | .quit => .ok (session, .quit)

end Session

end Breadboard
