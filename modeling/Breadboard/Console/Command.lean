import Breadboard.Text.Blank
import Breadboard.Text.Caseless
import Breadboard.Text.Digits

/-!
# Commands

The command language of an interactive session. A line is split into words; the first is the
command, in full or short and in any case of letters, and the rest are its arguments.
-/

namespace Breadboard

/-- What to do to an oscillator. -/
inductive ClockAction where
  | faster | slower
  /-- Starts or stops it. -/
  | toggle
deriving DecidableEq

/-- A command. -/
inductive Command where
  /-- Evaluates one tick and tells how it settled. -/
  | step
  | run (ticks : Nat)
  /-- Drives a pin or a switch. -/
  | set (node value : String)
  /-- Flips a switch or a pin of one bit. -/
  | toggle (node : String)
  | clock (node : String) (action : ClockAction)
  /-- Shows the signals of nodes. -/
  | inspect (nodes : List String)
  /-- Shows a node's signal after every command. -/
  | watch (node : String)
  | unwatch (node : String)
  | nodes
  | nets
  | status
  | help
  | quit
deriving DecidableEq

/-- Why a line is no command. -/
inductive CommandError where
  | empty
  | unknown (word : String)
  | missingNode (word : String)
  | missingTicks
  | badTicks (text : String)
  | badSet
  | badAction
  | missingNames
deriving DecidableEq

/-- The report of an error. -/
def CommandError.message : CommandError → String
  | .empty => "empty command"
  | .unknown word => "unknown command: '" ++ word ++ "'"
  | .missingNode word => word ++ " requires a node"
  | .missingTicks => "run requires a tick count (e.g., 'run 20')"
  | .badTicks text => "invalid tick count '" ++ text ++ "'"
  | .badSet => "set requires a node and a value (e.g., 'set A 1')"
  | .badAction => "clock requires an action: faster, slower or toggle"
  | .missingNames => "inspect requires node name(s)"

/-- The known commands, by what their arguments are. -/
inductive CommandWord where
  | step | run | set | toggle | clock | inspect | watch | unwatch
  | nodes | nets | status | help | quit
deriving DecidableEq

/-- The command that a word in lower case names. -/
def CommandWord.ofText? (word : String) : Option CommandWord :=
  if word = "step" || word = "s" then some .step
  else if word = "run" || word = "r" then some .run
  else if word = "set" then some .set
  else if word = "toggle" || word = "t" then some .toggle
  else if word = "clock" then some .clock
  else if word = "inspect" || word = "i" then some .inspect
  else if word = "watch" || word = "w" then some .watch
  else if word = "unwatch" then some .unwatch
  else if word = "nodes" || word = "ls" then some .nodes
  else if word = "nets" then some .nets
  else if word = "status" then some .status
  else if word = "help" || word = "h" then some .help
  else if word = "quit" || word = "q" || word = "exit" then some .quit
  else none

/-- The action that a word in lower case names. -/
def ClockAction.ofText? (word : String) : Option ClockAction :=
  if word = "faster" || word = "+" then some .faster
  else if word = "slower" || word = "-" then some .slower
  else if word = "toggle" || word = "pause" then some .toggle
  else none

namespace Command

/-- A run of as many ticks as a word tells. -/
def runOf (count : String) : Except CommandError Command :=
  match word? count with
  | some ticks => .ok (.run ticks)
  | none => .error (.badTicks count)

/-- A drive from its arguments: a node and a literal, or both in one word around an equals sign. -/
def setOf : List String → Except CommandError Command
  | [node, value] => .ok (.set node value)
  | [assignment] =>
    match assignment.toList.span (· != '=') with
    | (node, '=' :: value) => .ok (.set (String.ofList node) (String.ofList value))
    | _ => .error .badSet
  | _ => .error .badSet

/-- A command on one node, the first argument. -/
def onNode (word : String) (arguments : List String) (command : String → Command) :
    Except CommandError Command :=
  match arguments with
  | node :: _ => .ok (command node)
  | [] => .error (.missingNode word)

/-- A command on an oscillator from its arguments. -/
def clockOf (word : String) : List String → Except CommandError Command
  | [] => .error (.missingNode word)
  | [_] => .error .badAction
  | node :: action :: _ =>
    match ClockAction.ofText? (Text.commandForm action) with
    | some action => .ok (.clock node action)
    | none => .error .badAction

/-- The command of a word and its arguments. -/
def ofWords (word : String) (arguments : List String) : Except CommandError Command :=
  match CommandWord.ofText? (Text.commandForm word) with
  | none => .error (.unknown word)
  | some .step =>
    match arguments with
    | [] => .ok .step
    | count :: _ => runOf count
  | some .run =>
    match arguments with
    | [] => .error .missingTicks
    | count :: _ => runOf count
  | some .set => setOf arguments
  | some .toggle => onNode word arguments .toggle
  | some .clock => clockOf word arguments
  | some .inspect => if arguments.isEmpty then .error .missingNames else .ok (.inspect arguments)
  | some .watch => onNode word arguments .watch
  | some .unwatch => onNode word arguments .unwatch
  | some .nodes => .ok .nodes
  | some .nets => .ok .nets
  | some .status => .ok .status
  | some .help => .ok .help
  | some .quit => .ok .quit

/-- Reads a line. -/
def ofLine (line : String) : Except CommandError Command :=
  match (Text.words line.toList).map String.ofList with
  | [] => .error .empty
  | word :: arguments => ofWords word arguments

end Command

end Breadboard
