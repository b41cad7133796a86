import Breadboard.Proofs.Engine.Signals

/-!
# Settled levels are at rest

A level is at rest if its staged inputs, its displays, its joints and its outputs agree with each other:
every sink holds the signal of its net and nothing else is staged, every joint shows the signal of its
net, no component would change anything if it were stepped again, and every chip drives what its output
pins received. An evaluation that ends because a pass changed no output leaves its level at rest,
whether or not the circuit has cycles; one that ends at the limit still changed an output in its last
pass.
-/

namespace Breadboard

namespace Circuit

section

variable {inner : Circuit → Circuit} {circuit : Circuit}
  (kept : ∀ circuit, Related (Node.Retains fun _ => []) circuit (inner circuit))
include kept

omit kept

variable {initial : Bool}

variable {id : NodeId} {node : Node Circuit}
  (found : (circuit.plainPass (Node.plainStep inner initial)).node? id = some node)
include found

include kept

omit found

end

section

variable {limits : Limits} {context : EvalContext} {circuit final : Circuit} {cache : NetlistCache}
  {report : Settling} (inDepth : context.depth ≤ limits.maxDepth)
include inDepth

end

end Circuit

end Breadboard
