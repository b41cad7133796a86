import Breadboard.Form.Circuits
import Breadboard.Net.Basic
import Breadboard.Run.Batch
import Breadboard.Run.Reading

/-!
# Reports in JSON

What a run and an analysis tell, for other programs to read: readings, netlists and the summary of a
run.
-/

namespace Breadboard

/-- A reading as an object. -/
def Reading.toJson (reading : Reading) : Json :=
  .object [("node", .nat reading.node), ("label", .string reading.label),
    ("value", .string reading.signal.text)]

/-- A net as an object. -/
def Net.toJson (net : Net) : Json :=
  .object [("id", .nat net.id), ("width", .nat net.width),
    ("sources", .array (net.sources.map Terminal.toJson)),
    ("sinks", .array (net.sinks.map Terminal.toJson)),
    ("joints", .array (net.joints.map Json.nat))]

/-- A netlist as an object. -/
def Netlist.toJson (netlist : Netlist) : Json :=
  .object [("nets", .array (netlist.nets.map Net.toJson)), ("revision", .nat netlist.revision),
    ("node_count", .nat netlist.nodeCount), ("wire_count", .nat netlist.wireCount)]

/-- The readings and the summary of a run, with the members of every object in the order of their
    names. -/
def RunSummary.report (summary : RunSummary) (readings : List Reading) : Json :=
  let reading (entry : Reading) : Json :=
    .object [("label", .string entry.label), ("node", .nat entry.node),
      ("value", .string entry.signal.text)]
  .object [("readings", .array (readings.map reading)),
    ("summary", .object [("changed_ticks", .nat summary.changed),
      ("faulted_ticks", .nat summary.faulted), ("ticks", .nat summary.ticks)])]

end Breadboard
