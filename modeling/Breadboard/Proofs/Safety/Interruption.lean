import Breadboard.Proofs.Safety.Faults

/-!
# What an abandoned tick leaves behind

A tick that faults does not count and drops every netlist. The circuit stays as the fault found it: the
tick has begun for the nodes in the slots before the full count, the oscillator with the full count has
lost what was staged at it, and every later slot is untouched. So the fault freezes a circuit at the
state of the last tick only behind the first full count; before it, staged inputs are cleared, joints
drive nothing, and oscillators have gone on by one tick.
-/

namespace Breadboard

namespace Node

/-- The second node is the first one after the beginning of a tick went past it: nothing is staged. An
oscillator has advanced and drives its output, a joint drives a clear signal and nothing else, and every
other node keeps what it drives, what it shows and all it is. -/
structure PassedOver (interval : Nat) (before after : Node Circuit) : Prop where
  inputs : after.inputs = .empty
  label : after.label = before.label
  position : after.position = before.position
  clock : ∀ oscillator, before.part = .clock oscillator → ∃ advanced,
    oscillator.advance interval = .ok advanced ∧ after.part = .clock advanced ∧
      after.outputs = before.outputs.insert "out" (.bit advanced.output)
  joint : before.isJoint = true →
    after.part = .joint ∧ after.outputs = PortMap.empty.insert "joint" (.bit false)
  other : (∀ oscillator, before.part ≠ .clock oscillator) → before.isJoint = false →
    after = { before with inputs := .empty }

/-- The beginning of a tick goes past a node for which no fault arises. -/
theorem passedOver_of_beginTick {interval : Nat} {before after : Node Circuit}
    (begins : before.beginTick interval = .ok after) : before.PassedOver interval after := by
  obtain ⟨label, position, part, inputs, outputs⟩ := before
  cases part with
  | clock oscillator =>
    simp only [beginTick] at begins
    cases advances : oscillator.advance interval with
    | error fault =>
      rw [advances] at begins
      cases begins
    | ok advanced =>
      rw [advances] at begins
      cases begins
      refine ⟨rfl, rfl, rfl, fun own isClock => ?_, fun isJoint => ?_,
        fun notClock => absurd rfl (notClock _)⟩
      · cases isClock
        exact ⟨advanced, advances, rfl, rfl⟩
      · cases isJoint
  | joint =>
    cases begins
    refine ⟨rfl, rfl, rfl, fun _ isClock => ?_, fun _ => ⟨rfl, rfl⟩, fun _ notJoint => ?_⟩
    · cases isClock
    · cases notJoint
  | _ =>
    cases begins
    refine ⟨rfl, rfl, rfl, fun _ isClock => ?_, fun isJoint => ?_, fun _ _ => rfl⟩
    · cases isClock
    · cases isJoint

/-- A node for which a tick does not begin is an oscillator that runs with a full count. It loses what
was staged at it. -/
theorem stuck_of_beginTick {interval : Nat} {node left : Node Circuit} {fault : Fault}
    (faults : node.beginTick interval = .error (fault, left)) :
    left = { node with inputs := .empty } ∧ ∃ oscillator, node.part = .clock oscillator ∧
      oscillator.running = true ∧ wordLimit ≤ oscillator.tick + 1 := by
  cases part : node.part with
  | clock oscillator =>
    simp only [beginTick, part] at faults
    cases advances : oscillator.advance interval with
    | ok advanced =>
      rw [advances] at faults
      cases faults
    | error failure =>
      rw [advances] at faults
      cases faults
      refine ⟨rfl, oscillator, rfl, ?_⟩
      simp only [Oscillator.advance] at advances
      split at advances
      · cases advances
      · next running =>
        split at advances
        · cases advances
        · next full => exact ⟨by simpa using running, Nat.le_of_not_lt full⟩
  | _ =>
    simp only [beginTick, part] at faults
    cases faults

end Node

namespace Circuit

/-- A fault at the beginning of a tick arises in one slot: the tick has begun in every earlier slot, and
the later slots are as they were.

Proof: by induction on the slots, up to the one where the fault arises. -/
theorem beginSlots_of_some {interval : Nat} {slots : List (Option (Node Circuit))} {fault : Fault}
    (faults : (beginSlots interval slots).2 = some fault) :
    ∃ earlier node left later, slots = earlier ++ some node :: later ∧
      node.beginTick interval = .error (fault, left) ∧
      ∃ begun, (beginSlots interval slots).1 = begun ++ some left :: later ∧
        List.Forall₂ (Option.Rel (Node.PassedOver interval)) earlier begun := by
  induction slots with
  | nil => cases faults
  | cons slot rest inductionHypothesis =>
    cases slot with
    | none =>
      obtain ⟨earlier, node, left, later, rfl, stuck, begun, reached, passed⟩ :=
        inductionHypothesis faults
      refine ⟨none :: earlier, node, left, later, rfl, stuck, none :: begun, ?_, .cons .none passed⟩
      exact congrArg (none :: ·) reached
    | some first =>
      simp only [beginSlots] at faults ⊢
      cases begins : first.beginTick interval with
      | error failure =>
        rw [begins] at faults
        cases faults
        exact ⟨[], first, failure.2, rest, rfl, begins, [], rfl, .nil⟩
      | ok next =>
        rw [begins] at faults
        obtain ⟨earlier, node, left, later, rfl, stuck, begun, reached, passed⟩ :=
          inductionHypothesis faults
        refine ⟨some first :: earlier, node, left, later, rfl, stuck, some next :: begun, ?_,
          .cons (.some (Node.passedOver_of_beginTick begins)) passed⟩
        exact congrArg (some next :: ·) reached

/-- Where a tick does not begin, handle by handle: one oscillator is stuck, the nodes before it have been
passed over, and those behind it are untouched. -/
theorem beginTick_stuck {circuit : Circuit} {interval : Nat} {fault : Fault}
    (faults : (circuit.beginTick interval).2 = some fault) :
    ∃ stuck node oscillator, circuit.node? stuck = some node ∧ node.part = .clock oscillator ∧
      oscillator.running = true ∧ wordLimit ≤ oscillator.tick + 1 ∧
      (circuit.beginTick interval).1.node? stuck = some { node with inputs := .empty } ∧
      (∀ id, stuck < id → (circuit.beginTick interval).1.node? id = circuit.node? id) ∧
      ∀ id, id < stuck → Option.Rel (Node.PassedOver interval) (circuit.node? id)
        ((circuit.beginTick interval).1.node? id) := by
  obtain ⟨earlier, node, left, later, slots, stops, begun, reached, passed⟩ :=
    beginSlots_of_some faults
  obtain ⟨rfl, oscillator, isClock, running, full⟩ := Node.stuck_of_beginTick stops
  have sameLength : begun.length = earlier.length := passed.length_eq.symm
  have before (id : NodeId) :
      circuit.node? id = (earlier ++ some node :: later)[id]?.join := by
    rw [node?, Arena.get?, slots]
  have after (id : NodeId) : (circuit.beginTick interval).1.node? id =
      (begun ++ some { node with inputs := .empty } :: later)[id]?.join := by
    rw [← reached]
    rfl
  refine ⟨earlier.length, node, oscillator, ?_, isClock, running, full, ?_, fun id behind => ?_,
    fun id inFront => ?_⟩
  · simp [before]
  · simp [after, ← sameLength]
  · obtain ⟨place, rfl⟩ := Nat.exists_eq_add_of_lt behind
    rw [before, after, List.getElem?_append_right (by omega), List.getElem?_append_right (by omega),
      sameLength, show earlier.length + place + 1 - earlier.length = place + 1 by omega]
    rfl
  · rw [before, after, List.getElem?_append_left inFront,
      List.getElem?_append_left (sameLength ▸ inFront)]
    exact Arena.rel_join_of_slots passed id

end Circuit

namespace Scheduler

/-- A tick that faults counts for nothing and changes the scheduler by dropping its netlists only, and
the circuit neither in its wires nor in its revision. It stopped at the first running oscillator whose
count is full: this node lost what was staged at it and nothing else, every later node is exactly as it
was, and every earlier node has been passed over by the beginning of the tick. -/
theorem stopped_at_full_count {scheduler next : Scheduler} {circuit left : Circuit}
    {error : InternalError} (faulted : scheduler.step circuit = (next, left, .faulted error)) :
    next = { scheduler with cache := scheduler.cache.clear } ∧ left.wires = circuit.wires ∧
      left.revision = circuit.revision ∧
      ∃ stuck node oscillator, circuit.node? stuck = some node ∧ node.part = .clock oscillator ∧
        oscillator.running = true ∧ wordLimit ≤ oscillator.tick + 1 ∧
        left.node? stuck = some { node with inputs := .empty } ∧
        (∀ id, stuck < id → left.node? id = circuit.node? id) ∧
        ∀ id, id < stuck →
          Option.Rel (Node.PassedOver scheduler.limits.interval) (circuit.node? id) (left.node? id) := by
  cases suspended : scheduler.suspended with
  | true =>
    rw [step, suspended, if_pos rfl] at faulted
    cases faulted
  | false =>
    rw [step, suspended, if_neg (by decide)] at faulted
    cases begun : (circuit.beginTick scheduler.limits.interval).2 with
    | none =>
      obtain ⟨report, reports⟩ := Circuit.evaluate_reports scheduler.cache begun
      revert faulted reports
      rcases circuit.evaluate scheduler.limits .top scheduler.cache with ⟨_, _, fault | report⟩
      · intro _ reports
        cases reports
      · intro faulted _
        cases faulted
    | some fault =>
      rw [Circuit.evaluate_of_fault scheduler.cache begun] at faulted
      cases faulted
      exact ⟨rfl, rfl, rfl, Circuit.beginTick_stuck begun⟩

end Scheduler

/-- A joint that shows a signal, a light that received it, an oscillator with a count, and a light
behind it. -/
def Circuit.litJoint (tick : Nat) : Circuit :=
  ⟨⟨[some { Node.ofPart .joint with outputs := PortMap.empty.insert "joint" (.bit true) },
      some { Node.ofPart (.light true) with inputs := PortMap.empty.insert "in" (.bit true) },
      some (.ofPart (.clock { Oscillator.initial with tick })),
      some { Node.ofPart (.light true) with inputs := PortMap.empty.insert "in" (.bit true) }]⟩,
    [⟨⟨0, "joint"⟩, ⟨1, "in"⟩⟩], 1⟩

namespace Scheduler

/-- With a full count in the third slot a tick of the lit joint stops there: the node in the last slot
is untouched and the tick does not count. -/
theorem litJoint_stopped : ∃ next left error,
    (new .standard).step (.litJoint (wordLimit - 1)) = (next, left, .faulted error) ∧
      next.ticks = 0 ∧ left.node? 3 = (Circuit.litJoint (wordLimit - 1)).node? 3 := by
  have faults : ((new .standard).step (.litJoint (wordLimit - 1))).2.2 =
      .faulted (.ofFault .countOverflow) := by decide +kernel
  rcases stopped : (new .standard).step (.litJoint (wordLimit - 1)) with ⟨next, left, outcome⟩
  rw [stopped] at faults
  cases faults
  obtain ⟨same, _, _, stuck, node, oscillator, found, isClock, _, _, _, behind, _⟩ :=
    stopped_at_full_count stopped
  have third : stuck = 2 := by
    rcases stuck with _ | _ | _ | _ | stuck
    · cases found
      cases isClock
    · cases found
      cases isClock
    · rfl
    · cases found
      cases isClock
    · cases found
  exact ⟨next, left, _, rfl, by rw [same]; rfl, behind 3 (by rw [third]; decide)⟩

/-- But the tick that faults does not leave the circuit as it was: the joint in front of the full count
does not show its signal any more, and nothing is staged at the light. -/
theorem litJoint_dimmed :
    ((new .standard).step (.litJoint (wordLimit - 1))).2.2 = .faulted (.ofFault .countOverflow) ∧
      ((Circuit.litJoint (wordLimit - 1)).node? 0).bind Node.display? = some (.bit true) ∧
      (((new .standard).step (.litJoint (wordLimit - 1))).2.1.node? 0).bind Node.display? =
        some (.bit false) ∧
      ((Circuit.litJoint (wordLimit - 1)).node? 1).map Node.inputs =
        some (PortMap.empty.insert "in" (.bit true)) ∧
      (((new .standard).step (.litJoint (wordLimit - 1))).2.1.node? 1).map Node.inputs =
        some .empty := by
  decide +kernel

end Scheduler

end Breadboard
