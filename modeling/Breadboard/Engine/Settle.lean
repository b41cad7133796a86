import Breadboard.Circuit.Chip
import Breadboard.Engine.Step
import Breadboard.Net.Cache

/-!
# Settling a circuit

A tick of a circuit has two phases. First every staged input is cleared, joints drive nothing, and
oscillators advance, at the top level only, and drive their outputs. Then passes follow, each of
which resolves every net from the outputs as they are, stages the net signals at the inputs, and
steps every node once. Passes end with the first one after the initial one in which no output
changed, or at the limit; a loop that never settles keeps what the last pass computed.

A chip is stepped by driving its internal pins, settling its circuit one level deeper, and copying
what its internal output pins received. Beyond the depth limit a circuit is not evaluated at all.

A fault ends an evaluation at the node where it arises: what was done so far stays, the nodes behind
are as they were, and so is everything on the levels around the chip that the fault arose in.
-/

namespace Breadboard

/-- Bounds on the work of a tick, and the time between ticks. -/
structure Limits where
  /-- The most passes of one level. -/
  maxPasses : Nat
  /-- The depth beyond which circuits are not evaluated. -/
  maxDepth : Nat
  /-- The milliseconds between ticks. -/
  interval : Nat
deriving DecidableEq

/-- Ten passes, depth twenty, fifty milliseconds. -/
def Limits.standard : Limits :=
  ⟨10, 20, 50⟩

/-- What an evaluation of one level did. -/
structure Settling where
  /-- Some output changed. -/
  changed : Bool
  passes : Nat
  /-- The limit on passes stopped a circuit whose outputs were still changing. -/
  capped : Bool
  /-- The limit on depth kept the circuit from being evaluated. -/
  depthLimited : Bool
deriving DecidableEq

/-- Nothing was done. -/
def Settling.idle : Settling :=
  ⟨false, 0, false, false⟩

/-- The circuit lies too deep. -/
def Settling.tooDeep : Settling :=
  { Settling.idle with depthLimited := true }

namespace Node

/-- The node before the first pass of a tick: nothing is staged, a joint drives nothing and an
    oscillator drives its output. -/
def quieted (node : Node Circuit) : Node Circuit :=
  match node.part with
  | .joint => { node with inputs := .empty, outputs := PortMap.empty.insert "joint" (.bit false) }
  | .clock oscillator =>
    { node with inputs := .empty, outputs := node.outputs.insert "out" (.bit oscillator.output) }
  | _ => { node with inputs := .empty }

/-- The node at the start of a tick: quieted, and an oscillator advanced first. An oscillator that
    cannot advance leaves the node with nothing staged and unchanged otherwise. -/
def beginTick (interval : Nat) (node : Node Circuit) :
    Except (Fault × Node Circuit) (Node Circuit) :=
  match node.part with
  | .clock oscillator =>
    match oscillator.advance interval with
    | .ok advanced => .ok { node with part := .clock advanced }.quieted
    | .error fault => .error (fault, { node with inputs := .empty })
  | _ => .ok node.quieted

/-- Stages the signal of a net of some width at an input. Signals of two nets on one input merge. -/
def receive (node : Node Circuit) (port : String) (width : Nat) (signal : Signal) : Node Circuit :=
  let staged := match node.inputs.get? port with
    | some present => present.merge width signal
    | none => signal
  { node with inputs := node.inputs.insert port staged }

/-- Drives an internal pin of a chip with the signal at the chip's port, or with a clear one where
    there is none, and has an input pin drive its net with it at once. -/
def driveFrom (signal : Option Signal) (node : Node Circuit) : Node Circuit :=
  let driven := (node.drive? (signal.getD (.zero node.pinWidth))).getD node
  match driven.part with
  | .inputPin _ state => driven.setOutput "out" state
  | _ => driven

end Node

namespace Circuit

/-- The circuit before the first pass of a tick in which no oscillator advances. -/
def quieted (circuit : Circuit) : Circuit :=
  { circuit with nodes := circuit.nodes.map Node.quieted }

/-- Begins a tick for the nodes in slots, in their order. A fault ends it at its node and leaves the
    later nodes as they are. -/
def beginSlots (interval : Nat) :
    List (Option (Node Circuit)) → List (Option (Node Circuit)) × Option Fault
  | [] => ([], none)
  | none :: rest =>
    let (slots, fault) := beginSlots interval rest
    (none :: slots, fault)
  | some node :: rest =>
    match node.beginTick interval with
    | .ok begun =>
      let (slots, fault) := beginSlots interval rest
      (some begun :: slots, fault)
    | .error (fault, left) => (some left :: rest, some fault)

/-- The circuit before the first pass of a tick, or as a fault left it. -/
def beginTick (circuit : Circuit) (interval : Nat) : Circuit × Option Fault :=
  let (slots, fault) := beginSlots interval circuit.nodes.slots
  ({ circuit with nodes := ⟨slots⟩ }, fault)

/-- Stages the signals of the nets, on nodes with nothing staged. -/
def stage (circuit : Circuit) (signals : List (Net × Signal)) : Circuit :=
  let cleared := { circuit with
    nodes := circuit.nodes.map fun node => { node with inputs := .empty } }
  signals.foldl (fun circuit entry =>
    entry.1.sinks.foldl (fun circuit sink =>
      circuit.modifyNode sink.node (·.receive sink.port entry.1.width entry.2)) circuit) cleared

/-- Shows the signals of the nets on their joints. -/
def showOnJoints (circuit : Circuit) (signals : List (Net × Signal)) : Circuit :=
  signals.foldl (fun circuit entry =>
    entry.1.joints.foldl (fun circuit joint =>
      circuit.modifyNode joint (·.setOutput "joint" entry.2)) circuit) circuit

/-- Steps the nodes in slots, in their order, and tells whether some output changed. A fault ends it
    at its node and leaves the later nodes as they are. -/
def stepSlots (step : Node Circuit → NetlistCache → Node Circuit × NetlistCache × Option Fault) :
    List (Option (Node Circuit)) → NetlistCache →
      List (Option (Node Circuit)) × NetlistCache × Except Fault Bool
  | [], cache => ([], cache, .ok false)
  | none :: rest, cache =>
    let (slots, cache, changed) := stepSlots step rest cache
    (none :: slots, cache, changed)
  | some node :: rest, cache =>
    match step node cache with
    | (stepped, cache, none) =>
      let (slots, cache, changed) := stepSlots step rest cache
      (some stepped :: slots, cache,
        changed.map fun later => stepped.outputs.differsFrom node.outputs || later)
    | (left, cache, some fault) => (some left :: rest, cache, .error fault)

/-- One pass over a level. -/
def pass (step : Node Circuit → NetlistCache → Node Circuit × NetlistCache × Option Fault)
    (netlist : Netlist) (circuit : Circuit) (cache : NetlistCache) :
    Circuit × NetlistCache × Except Fault Bool :=
  let signals := netlist.nets.map fun net => (net, net.resolve circuit)
  let staged := circuit.stage signals
  let (slots, cache, changed) := stepSlots step staged.nodes.slots cache
  let stepped := { staged with nodes := ⟨slots⟩ }
  match changed with
  | .ok changed => (stepped.showOnJoints signals, cache, .ok changed)
  | .error fault => (stepped, cache, .error fault)

/-- Passes over a level until one after the initial one changes nothing, or none is left. A pass is
    told whether it is the initial one. -/
def passes (pass : Bool → Circuit → NetlistCache → Circuit × NetlistCache × Except Fault Bool) :
    Nat → Settling → Circuit → NetlistCache → Circuit × NetlistCache × Except Fault Settling
  | 0, report, circuit, cache => (circuit, cache, .ok report)
  | left + 1, report, circuit, cache =>
    let initial := report.passes == 0
    match pass initial circuit cache with
    | (circuit, cache, .ok changed) =>
      let report :=
        { report with passes := report.passes + 1, changed := report.changed || changed }
      if !initial && !changed then (circuit, cache, .ok report)
      else passes pass left { report with capped := changed && left == 0 } circuit cache
    | (circuit, cache, .error fault) => (circuit, cache, .error fault)

end Circuit

/-- Settles the circuit inside a chip. -/
abbrev InnerSettling := Circuit → NetlistCache → Circuit × NetlistCache × Except Fault Settling

namespace Chip

/-- The chip's circuit with its input pins driven from the chip's ports, place by place. -/
def drivePins (chip : Chip Circuit) (inputs : PortMap) (pins : List NodeId) : Circuit :=
  (chip.inputs.zip pins).foldl (fun circuit port =>
    circuit.modifyNode port.2 (Node.driveFrom (inputs.get? port.1.id))) chip.circuit

/-- What an output pin received in the last pass, clear if nothing. -/
def received (circuit : Circuit) (pin : NodeId) : Signal :=
  ((circuit.node? pin).bind fun node => node.inputs.get? "in").getD (.bit false)

/-- Copies what the output pins received to the chip's ports, place by place. -/
def copyOutputs (chip : Chip Circuit) (pins : List NodeId) (outputs : PortMap) : PortMap :=
  (chip.outputs.zip pins).foldl (fun ports port =>
    ports.insert port.1.id (received chip.circuit port.2)) outputs

/-- Steps a chip in a pass of the level that it stands on. Its circuit is settled in the initial
    pass, when a signal at a declared input is another than at the last evaluation, and in every
    pass if it contains an oscillator. A fault in its circuit leaves its outputs as they are. -/
def step (settleInner : InnerSettling) (initial : Bool) (chip : Chip Circuit)
    (inputs outputs : PortMap) (cache : NetlistCache) :
    Chip Circuit × PortMap × NetlistCache × Option Fault :=
  let bindings := chip.currentBindings
  let seen := inputs.filter fun port => chip.inputs.any (·.id == port)
  let driven := { chip.bind with
    circuit := chip.drivePins inputs bindings.inputs
    lastInputs := seen }
  if bindings.clocked || seen != chip.lastInputs || initial then
    let (circuit, cache, outcome) := settleInner driven.circuit cache
    let reached := { driven with circuit }
    match outcome with
    | .ok _ => (reached, reached.copyOutputs bindings.outputs outputs, cache, none)
    | .error fault => (reached, outputs, cache, some fault)
  else (driven, driven.copyOutputs bindings.outputs outputs, cache, none)

end Chip

namespace Node

/-- Steps a node in a pass of its level. -/
def stepIn (settleInner : InnerSettling) (initial : Bool) (node : Node Circuit)
    (cache : NetlistCache) : Node Circuit × NetlistCache × Option Fault :=
  match node.part with
  | .chip chip =>
    let (chip, outputs, cache, fault) :=
      chip.step settleInner initial node.inputs node.outputs cache
    ({ node with part := .chip chip, outputs }, cache, fault)
  | _ => (node.step, cache, none)

end Node

namespace Circuit

/-- Settles a level whose tick has begun. -/
def settle (settleInner : InnerSettling) (maxPasses : Nat) (circuit : Circuit)
    (cache : NetlistCache) : Circuit × NetlistCache × Except Fault Settling :=
  let (netlist, cache) := cache.getOrBuild circuit
  let passOf (initial : Bool) := pass (Node.stepIn settleInner initial) netlist
  passes passOf maxPasses .idle circuit cache

/-- Settles the circuit inside a chip, with so many levels left down to the depth limit and a given
    outcome for the circuits below it. No oscillator advances. -/
def settleWithin (maxPasses : Nat) (below : Except Fault Settling) : Nat → InnerSettling
  | 0, circuit, cache => (circuit, cache, below)
  | levels + 1, circuit, cache =>
    circuit.quieted.settle (settleWithin maxPasses below levels) maxPasses cache

end Circuit

/-- Where an evaluation stands. -/
structure EvalContext where
  /-- The depth of the circuit that is evaluated; the top level has depth zero. -/
  depth : Nat
  /-- Oscillators advance. -/
  advance : Bool
deriving DecidableEq

/-- The top level of a tick. -/
def EvalContext.top : EvalContext :=
  ⟨0, true⟩

/-- The circuit of a chip on a level: one deeper, with oscillators that stand still. -/
def EvalContext.nested (context : EvalContext) : EvalContext :=
  ⟨context.depth + 1, false⟩

/-- The outcome for circuits below the depth limit. Depths are numbers of 32 bits, so below the
    greatest of them an evaluation runs out of numbers, if it starts deep enough to get there. From
    the top no circuit nests so deep. -/
def EvalContext.below (context : EvalContext) (limits : Limits) : Except Fault Settling :=
  if context.depth = 0 ∨ limits.maxDepth + 1 < handleLimit then .ok .tooDeep
  else .error .depthOverflow

/-- Evaluates a circuit for one tick. A fault leaves the circuit as it was reached. -/
def Circuit.evaluate (limits : Limits) (context : EvalContext) (circuit : Circuit)
    (cache : NetlistCache) : Circuit × NetlistCache × Except Fault Settling :=
  match limits.maxDepth + 1 - context.depth with
  | 0 => (circuit, cache, .ok .tooDeep)
  | levels + 1 =>
    let (begun, fault) :=
      if context.advance then circuit.beginTick limits.interval else (circuit.quieted, none)
    match fault with
    | some fault => (begun, cache, .error fault)
    | none =>
      let settleInner := settleWithin limits.maxPasses (context.below limits) levels
      begun.settle settleInner limits.maxPasses cache

end Breadboard
