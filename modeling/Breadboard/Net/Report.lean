import Breadboard.Net.Basic
import Breadboard.Text.Blank

/-!
# The net report

The nets of a circuit, one to a line, with their present signals and the ports on them.
-/

namespace Breadboard

/-- A port as it is shown. -/
def Terminal.text (terminal : Terminal) : String :=
  "#" ++ decimalText terminal.node ++ "." ++ terminal.port

/-- Ports in a row, or a dash if there are none. -/
def terminalRow (terminals : List Terminal) : String :=
  if terminals.isEmpty then "-" else ", ".intercalate (terminals.map Terminal.text)

namespace Net

/-- The lines of a net. -/
def report (net : Net) (circuit : Circuit) : String :=
  "  " ++ name net.id ++ " [" ++ decimalText net.width ++ " bit] = " ++ (net.resolve circuit).text
    ++ "  sources: " ++ terminalRow net.sources ++ "  sinks: " ++ terminalRow net.sinks ++ "\n"
    ++ (if net.joints.isEmpty then ""
      else "      joints: "
        ++ ", ".intercalate (net.joints.map fun id => "#" ++ decimalText id) ++ "\n")

end Net

/-- The report of all nets. -/
def Netlist.report (netlist : Netlist) (circuit : Circuit) : String :=
  if netlist.nets.isEmpty then "No nets"
  else
    trimmedEnd (decimalText netlist.nets.length ++ " net(s):\n"
      ++ String.join (netlist.nets.map fun net => net.report circuit))

end Breadboard
