import Breadboard.Text.Blank
import Breadboard.Wave.Dump

/-!
# Tracing a circuit

A tracer follows the visible nodes of a circuit: pins, switches, lights, displays and oscillators.
It declares each in a dump and from then on records a shown signal when it is another than at the
sample before. Nodes that are gone are passed over.
-/

namespace Breadboard

namespace Node

variable {Inner : Type}

/-- The node has a state to follow. -/
def isVisible (node : Node Inner) : Bool :=
  match node.part with
  | .inputPin .. | .switch _ | .outputPin .. | .light _ | .sevenSegment _ | .clock _ => true
  | _ => false

/-- The number of bits of the shown signal. -/
def traceWidth (node : Node Inner) : Nat :=
  match node.part with
  | .sevenSegment _ => 8
  | _ => node.pinWidth

/-- The name of the node in a dump: its label with underscores for blanks, and its handle, which
    keeps equal labels apart. -/
def traceName (node : Node Inner) (id : NodeId) : String :=
  let label := node.label.toList.map fun c => if Text.isBlank c then '_' else c
  let handle := 'n' :: Text.decimal id
  String.ofList (if label.isEmpty then handle else label ++ '_' :: handle)

end Node

/-- A followed node and its signal at the last sample. -/
structure Probe where
  node : NodeId
  last : Option Signal
deriving DecidableEq

/-- The state of a trace. -/
structure Tracer where
  dump : Dump
  probes : List Probe
  /-- The milliseconds between ticks. -/
  interval : Nat
deriving DecidableEq

namespace Tracer

/-- Declares the visible nodes of a circuit in a scope. -/
def attach (circuit : Circuit) (scope : String) (interval : Nat) : Tracer × String :=
  let (dump, opened) := Dump.new.beginScope scope
  let visible := circuit.nodes.items.filter fun item => item.2.isVisible
  let (dump, declared) := visible.foldl (fun state item =>
    let (dump, text) := state.1.register item.1 (item.2.traceName item.1) item.2.traceWidth
    (dump, state.2 ++ text)) (dump, opened)
  (⟨dump, visible.map fun item => ⟨item.1, none⟩, interval⟩, declared ++ Dump.endScope)

/-- Samples one node at a time. -/
def sampleProbe (circuit : Circuit) (time : Nat) (dump : Dump) (probe : Probe) :
    Dump × Probe × String :=
  match (circuit.node? probe.node).bind Node.display? with
  | none => (dump, probe, "")
  | some signal =>
    if probe.last = some signal then (dump, probe, "")
    else
      let (dump, text, _) := dump.change time probe.node signal
      (dump, { probe with last := some signal }, text)

/-- Samples nodes in turn. -/
def sampleProbes (circuit : Circuit) (time : Nat) (dump : Dump) :
    List Probe → Dump × List Probe × String
  | [] => (dump, [], "")
  | probe :: rest =>
    let (dump, probe, text) := sampleProbe circuit time dump probe
    let (dump, probes, later) := sampleProbes circuit time dump rest
    (dump, probe :: probes, text ++ later)

/-- Samples every node after a tick. The time is a 64-bit number; one beyond is a fault. Every node
    that is followed was declared, so the dump takes every change. -/
def sample (tracer : Tracer) (tick : Nat) (circuit : Circuit) : Except Fault (Tracer × String) :=
  let time := tick * tracer.interval
  if time < wordLimit then
    let (dump, probes, text) := sampleProbes circuit time tracer.dump tracer.probes
    .ok ({ tracer with dump, probes }, text)
  else .error .timeOverflow

/-- Ends the trace. -/
def finish (tracer : Tracer) : String :=
  tracer.dump.finish.2

end Tracer

end Breadboard
