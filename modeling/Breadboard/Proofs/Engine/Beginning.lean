import Breadboard.Engine.Settle
import Breadboard.Proofs.Engine.Coherence

/-!
# The beginning of a tick

A tick begins for every node alone: the nodes before it have no say in whether it begins or how. So a
tick begins without a fault exactly if it does for every node. An evaluation settles the circuit that
the tick has begun for, or ends with the fault that it began with.
-/

namespace Breadboard

/-- The node as a tick begins for it, or as a fault leaves it. -/
def Node.begun (interval : Nat) (node : Node Circuit) : Node Circuit :=
  match node.beginTick interval with
  | .ok begun => begun
  | .error (_, left) => left

/-- A tick begins for the node without a fault. -/
def Node.begins (interval : Nat) (node : Node Circuit) : Bool :=
  (node.beginTick interval).isOk

/-- A tick that begins for a node quiets it, after an oscillator advanced. -/
theorem Node.exists_quieted_of_begins {interval : Nat} {node : Node Circuit}
    (begins : node.begins interval = true) :
    ∃ original : Node Circuit, node.begun interval = original.quieted := by
  cases part : node.part with
  | clock oscillator =>
    simp only [Node.begins, Node.begun, Node.beginTick, part] at begins ⊢
    cases advanced : oscillator.advance interval with
    | ok next => exact ⟨_, rfl⟩
    | error fault =>
      rw [advanced] at begins
      cases begins
  | _ => exact ⟨node, by simp only [Node.begun, Node.beginTick, part]⟩

namespace Circuit

/-- A tick begins without a fault for nodes in slots exactly if it does for each of them. -/
theorem beginSlots_none_iff {interval : Nat} {slots : List (Option (Node Circuit))} :
    (beginSlots interval slots).2 = none ↔
      ∀ node, some node ∈ slots → node.begins interval = true := by
  induction slots with
  | nil => simp [beginSlots]
  | cons slot rest inductionHypothesis =>
    cases slot with
    | none => simpa [beginSlots] using inductionHypothesis
    | some node =>
      simp only [List.mem_cons, Option.some.injEq, forall_eq_or_imp]
      cases begins : node.beginTick interval with
      | ok begun =>
        have own : node.begins interval = true := by rw [Node.begins, begins]; rfl
        simp only [beginSlots, begins, own, true_and]
        exact inductionHypothesis
      | error fault =>
        have own : node.begins interval = false := by rw [Node.begins, begins]; rfl
        simp [beginSlots, begins, own]

/-- Where no fault arises, a tick begins for every node in its slot. -/
theorem beginSlots_of_none {interval : Nat} {slots : List (Option (Node Circuit))}
    (faultless : (beginSlots interval slots).2 = none) :
    (beginSlots interval slots).1 = slots.map (Option.map (Node.begun interval)) := by
  induction slots with
  | nil => rfl
  | cons slot rest inductionHypothesis =>
    cases slot with
    | none => exact congrArg (none :: ·) (inductionHypothesis faultless)
    | some node =>
      simp only [beginSlots] at faultless ⊢
      cases begins : node.beginTick interval with
      | ok begun =>
        rw [begins] at faultless
        simp only [List.map_cons, Option.map_some, Node.begun, begins]
        exact congrArg (some begun :: ·) (inductionHypothesis faultless)
      | error fault =>
        rw [begins] at faultless
        cases faultless

/-- A tick begins without a fault exactly if it does for every node. -/
theorem beginTick_none_iff {circuit : Circuit} {interval : Nat} :
    (circuit.beginTick interval).2 = none ↔
      ∀ id node, circuit.node? id = some node → node.begins interval = true := by
  rw [show (circuit.beginTick interval).2 = (beginSlots interval circuit.nodes.slots).2 from rfl,
    beginSlots_none_iff]
  constructor
  · intro each id node found
    rw [node?, Arena.get?, Option.join_eq_some_iff] at found
    exact each node (List.mem_of_getElem? found)
  · intro each node member
    obtain ⟨id, found⟩ := List.mem_iff_getElem?.mp member
    exact each id node (by rw [node?, Arena.get?, found]; rfl)

/-- Where no fault arises, the tick has begun for every node. -/
theorem beginTick_exact {circuit : Circuit} {interval : Nat}
    (faultless : (circuit.beginTick interval).2 = none) :
    (circuit.beginTick interval).1 =
      { circuit with nodes := circuit.nodes.map (Node.begun interval) } := by
  change (⟨⟨(beginSlots interval circuit.nodes.slots).1⟩, _, _⟩ : Circuit) = _
  rw [beginSlots_of_none faultless]
  rfl

/-- The circuit before the first pass of a tick, whether its oscillators advance or stand still. -/
def started (limits : Limits) (context : EvalContext) (circuit : Circuit) : Circuit × Option Fault :=
  if context.advance then circuit.beginTick limits.interval else (circuit.quieted, none)

/-- Within the depth limit an evaluation settles the circuit that the tick has begun for, unless a
fault arose. -/
theorem evaluate_eq {limits : Limits} {context : EvalContext} (inDepth : context.depth ≤ limits.maxDepth)
    (circuit : Circuit) (cache : NetlistCache) :
    circuit.evaluate limits context cache =
      match (circuit.started limits context).2 with
      | some fault => ((circuit.started limits context).1, cache, .error fault)
      | none => (circuit.started limits context).1.settle
        (settleWithin limits.maxPasses (context.below limits) (limits.maxDepth - context.depth))
        limits.maxPasses cache := by
  have levels : limits.maxDepth + 1 - context.depth = limits.maxDepth - context.depth + 1 := by omega
  unfold evaluate
  rw [levels]
  rfl

/-- Where an evaluation reports, the tick began without a fault. -/
theorem faultless_of_evaluate {limits : Limits} {context : EvalContext} {circuit : Circuit}
    {cache : NetlistCache} {report : Settling} (inDepth : context.depth ≤ limits.maxDepth)
    (reported : (circuit.evaluate limits context cache).2.2 = .ok report) :
    (circuit.started limits context).2 = none := by
  rw [evaluate_eq inDepth] at reported
  cases started : (circuit.started limits context).2 with
  | none => rfl
  | some fault =>
    rw [started] at reported
    cases reported

/-- Beyond the depth limit an evaluation does nothing. -/
theorem evaluate_of_deep {limits : Limits} {context : EvalContext} (deep : limits.maxDepth < context.depth)
    (circuit : Circuit) (cache : NetlistCache) :
    circuit.evaluate limits context cache = (circuit, cache, .ok .tooDeep) := by
  have levels : limits.maxDepth + 1 - context.depth = 0 := by omega
  rw [evaluate, levels]

/-- At the top an evaluation settles the circuit once the tick has begun, and no circuit lies so deep
that depths run out. -/
theorem evaluate_of_begun {limits : Limits} {circuit : Circuit} (cache : NetlistCache)
    (faultless : (circuit.beginTick limits.interval).2 = none) :
    circuit.evaluate limits .top cache =
      (circuit.beginTick limits.interval).1.settle
        (settleWithin limits.maxPasses (.ok .tooDeep) limits.maxDepth) limits.maxPasses cache := by
  have inDepth : EvalContext.top.depth ≤ limits.maxDepth := Nat.zero_le _
  rw [evaluate_eq inDepth, show circuit.started limits .top = circuit.beginTick limits.interval from rfl,
    faultless, show EvalContext.top.below limits = .ok .tooDeep from if_pos (.inl rfl)]
  rfl

/-- At the top an evaluation that does not begin ends with the fault that the tick begins with. -/
theorem evaluate_of_fault {limits : Limits} {circuit : Circuit} (cache : NetlistCache) {fault : Fault}
    (faults : (circuit.beginTick limits.interval).2 = some fault) :
    circuit.evaluate limits .top cache =
      ((circuit.beginTick limits.interval).1, cache, .error fault) := by
  rw [evaluate_eq (Nat.zero_le limits.maxDepth),
    show circuit.started limits .top = circuit.beginTick limits.interval from rfl, faults]

end Circuit

end Breadboard
