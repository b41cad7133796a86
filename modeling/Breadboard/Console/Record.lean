import Breadboard.Console.Command
import Breadboard.Text.Quoted

/-!
# Commands on record

The unambiguous text of a command: its name, and between braces its arguments by name. Texts stand
between quotes, so whatever a user typed stays on one line.
-/

namespace Breadboard

/-- An action on record. -/
def ClockAction.record : ClockAction → String
  | .faster => "Faster"
  | .slower => "Slower"
  | .toggle => "Toggle"

/-- A name with its arguments. -/
def recordOf (name : String) (arguments : List (String × String)) : String :=
  name ++ " \x7b " ++ ", ".intercalate (arguments.map fun (key, value) => key ++ ": " ++ value)
    ++ " \x7d"

/-- A command on record. -/
def Command.record : Command → String
  | .step => "Step"
  | .run ticks => recordOf "Run" [("ticks", decimalText ticks)]
  | .set node value =>
    recordOf "Set" [("node", Text.quoted node), ("value", Text.quoted value)]
  | .toggle node => recordOf "Toggle" [("node", Text.quoted node)]
  | .clock node action =>
    recordOf "Clock" [("node", Text.quoted node), ("action", action.record)]
  | .inspect names =>
    recordOf "Inspect" [("nodes", "[" ++ ", ".intercalate (names.map Text.quoted) ++ "]")]
  | .watch node => recordOf "Watch" [("node", Text.quoted node)]
  | .unwatch node => recordOf "Unwatch" [("node", Text.quoted node)]
  | .nodes => "Nodes"
  | .nets => "Nets"
  | .status => "Status"
  | .help => "Help"
  | .quit => "Quit"

end Breadboard
