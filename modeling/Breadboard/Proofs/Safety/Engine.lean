import Breadboard.Proofs.Engine.Currency
import Breadboard.Proofs.Safety.Nets

/-!
# An engine that checks itself

The engine once more, with every check that its arithmetic makes: on signals and nodes, on ranks and
builds of netlists, on the count of passes and on the depth of circuits. A check that fails ends the
evaluation with a fault that is no other fault of an evaluation. For circuits that fit into the machine
this engine does what the engine does, so no check ever fails.
-/

namespace Breadboard

/-- The fault of a check that fails. No evaluation multiplies times, so none ends with this fault
otherwise. -/
def failedCheck : Fault :=
  .timeOverflow

namespace Chip

/-- The checks of driving the pins of a chip. -/
def driveSafe (chip : Chip Circuit) (inputs : PortMap) : Bool :=
  foldSafe
    (fun circuit port => circuit.modifyNode port.2 (Node.driveFrom (inputs.get? port.1.id)))
    (fun circuit port => (circuit.node? port.2).all (Node.driveSafe (inputs.get? port.1.id)))
    chip.circuit (chip.inputs.zip chip.currentBindings.inputs)

/-- No pin of a chip fails a check when it is driven. -/
@[simp] theorem driveSafe_eq (chip : Chip Circuit) (inputs : PortMap) :
    chip.driveSafe inputs = true := by
  refine foldSafe_of_forall (fun circuit port => ?_) _ _
  cases circuit.node? port.2 with
  | none => rfl
  | some node => exact Node.driveSafe_eq _ node

end Chip

namespace Node

/-- The checks of stepping a node of a circuit at some depth. A chip whose circuit is to be settled asks
for one more depth. -/
def checks (depth : Nat) (initial : Bool) (node : Node Circuit) : Bool :=
  match node.part with
  | .chip body =>
    body.driveSafe node.inputs && (!body.isDue initial node.inputs || depth + 1 < handleLimit)
  | _ => node.stepSafe

/-- Steps a node whose checks hold. -/
def stepChecked (depth : Nat) (settleInner : InnerSettling) (initial : Bool) (node : Node Circuit)
    (cache : NetlistCache) : Node Circuit × NetlistCache × Option Fault :=
  if node.checks depth initial then node.stepIn settleInner initial cache
  else (node, cache, some failedCheck)

end Node

namespace Circuit

/-- The checks of staging a signal at a sink. -/
def sinkSafe (net : Net) (signal : Signal) (circuit : Circuit) (sink : Terminal) : Bool :=
  (circuit.node? sink.node).all fun node => node.receiveSafe sink.port net.width signal

/-- The checks of staging the signals of nets. -/
def stageSafe (circuit : Circuit) (signals : List (Net × Signal)) : Bool :=
  let cleared := { circuit with
    nodes := circuit.nodes.map fun node => { node with inputs := .empty } }
  foldSafe
    (fun circuit entry => entry.1.sinks.foldl (fun circuit sink =>
      circuit.modifyNode sink.node (·.receive sink.port entry.1.width entry.2)) circuit)
    (fun circuit entry => foldSafe
      (fun circuit sink => circuit.modifyNode sink.node (·.receive sink.port entry.1.width entry.2))
      (sinkSafe entry.1 entry.2) circuit entry.1.sinks)
    cleared signals

/-- The checks of resolving all nets and staging their signals. -/
def propagateSafe (netlist : Netlist) (circuit : Circuit) : Bool :=
  netlist.nets.all (·.resolveSafe circuit) &&
    circuit.stageSafe (netlist.nets.map fun net => (net, net.resolve circuit))

/-- One pass over a level, if the checks hold. -/
def passChecked (step : Node Circuit → NetlistCache → Node Circuit × NetlistCache × Option Fault)
    (netlist : Netlist) (circuit : Circuit) (cache : NetlistCache) :
    Circuit × NetlistCache × Except Fault Bool :=
  if propagateSafe netlist circuit then pass step netlist circuit cache
  else (circuit, cache, .error failedCheck)

/-- Passes over a level, each of which is counted by a number of 32 bits. -/
def passesChecked (pass : Bool → Circuit → NetlistCache → Circuit × NetlistCache × Except Fault Bool) :
    Nat → Settling → Circuit → NetlistCache → Circuit × NetlistCache × Except Fault Settling
  | 0, report, circuit, cache => (circuit, cache, .ok report)
  | left + 1, report, circuit, cache =>
    if report.passes + 1 < handleLimit then
      let initial := report.passes == 0
      match pass initial circuit cache with
      | (circuit, cache, .ok changed) =>
        let report :=
          { report with passes := report.passes + 1, changed := report.changed || changed }
        if !initial && !changed then (circuit, cache, .ok report)
        else passesChecked pass left { report with capped := changed && left == 0 } circuit cache
      | (circuit, cache, .error fault) => (circuit, cache, .error fault)
    else (circuit, cache, .error failedCheck)

/-- Settles a level at some depth whose tick has begun, if the checks hold. -/
def settleChecked (depth : Nat) (settleInner : InnerSettling) (maxPasses : Nat) (circuit : Circuit)
    (cache : NetlistCache) : Circuit × NetlistCache × Except Fault Settling :=
  if cache.askSafe circuit then
    let (netlist, cache) := cache.getOrBuild circuit
    let passOf (initial : Bool) := passChecked (Node.stepChecked depth settleInner initial) netlist
    passesChecked passOf maxPasses .idle circuit cache
  else (circuit, cache, .error failedCheck)

/-- Settles the circuit inside a chip at some depth, if the checks hold. -/
def settleWithinChecked (maxPasses : Nat) : Nat → Nat → InnerSettling
  | 0, _, circuit, cache => (circuit, cache, .ok .tooDeep)
  | levels + 1, depth, circuit, cache =>
    circuit.quieted.settleChecked depth (settleWithinChecked maxPasses levels (depth + 1)) maxPasses
      cache

/-- Evaluates a circuit for one tick at the top, as long as all checks hold. -/
def evaluateChecked (limits : Limits) (circuit : Circuit) (cache : NetlistCache) :
    Circuit × NetlistCache × Except Fault Settling :=
  let (begun, fault) := circuit.beginTick limits.interval
  match fault with
  | some fault => (begun, cache, .error fault)
  | none =>
    let settleInner := settleWithinChecked limits.maxPasses limits.maxDepth 1
    begun.settleChecked 0 settleInner limits.maxPasses cache

/-- No signal fails a check on its way to a sink. -/
@[simp] theorem sinkSafe_eq (net : Net) (signal : Signal) (circuit : Circuit) (sink : Terminal) :
    sinkSafe net signal circuit sink = true := by
  unfold sinkSafe
  cases circuit.node? sink.node with
  | none => rfl
  | some node => exact node.receiveSafe_eq sink.port net.width signal

/-- Whatever drives the nets and whatever widths they have, their signals are resolved and staged
without a failing check. -/
@[simp] theorem propagateSafe_eq (netlist : Netlist) (circuit : Circuit) :
    propagateSafe netlist circuit = true := by
  have resolved : netlist.nets.all (·.resolveSafe circuit) = true :=
    List.all_eq_true.mpr fun net _ => net.resolveSafe_eq circuit
  have staged (signals : List (Net × Signal)) : circuit.stageSafe signals = true := by
    refine foldSafe_of_forall (fun before entry => ?_) _ signals
    exact foldSafe_of_forall (sinkSafe_eq entry.1 entry.2) before _
  rw [propagateSafe, resolved, staged, Bool.and_true]

/-- Passes are counted without a failing check up to the greatest number of 32 bits.

Proof: by induction on the passes left. -/
theorem passesChecked_eq
    (pass : Bool → Circuit → NetlistCache → Circuit × NetlistCache × Except Fault Bool) {left : Nat}
    {report : Settling} (few : report.passes + left < handleLimit) (circuit : Circuit)
    (cache : NetlistCache) :
    passesChecked pass left report circuit cache = passes pass left report circuit cache := by
  induction left generalizing report circuit cache with
  | zero => rfl
  | succ left inductionHypothesis =>
    have counted : report.passes + 1 < handleLimit := by omega
    have later : report.passes + 1 + left < handleLimit := by omega
    simp only [passesChecked, passes, if_pos counted]
    rcases pass (report.passes == 0) circuit cache with ⟨reached, after, fault | changed⟩
    · rfl
    · simp only
      split
      · rfl
      · exact inductionHypothesis later reached after

/-- A circuit at some depth fits into the machine: wires are counted by numbers of 64 bits and depths by
numbers of 32 bits, and netlists are built for some revisions only. -/
structure Fitting (revisions : Finset Revision) (depth : Nat) (circuit : Circuit) : Prop where
  wires : circuit.Throughout fun inner => inner.wires.length < wordLimit
  revisions : circuit.Throughout fun inner => inner.revision ∈ revisions
  nesting : ∀ path inner, circuit.inside? path = some inner → depth + path.length < handleLimit

variable {revisions : Finset Revision} {depth : Nat} {left right circuit : Circuit}

/-- Circuits with one blueprint fit alike. -/
theorem Fitting.of_blueprint_eq (same : left.blueprint = right.blueprint)
    (fitting : left.Fitting revisions depth) : right.Fitting revisions depth where
  wires := by
    refine fitting.wires.of_blueprint_eq (fun {left right} same few => ?_) same
    rw [← (frame_of_viewed_eq same).1]
    exact few
  revisions := by
    refine fitting.revisions.of_blueprint_eq (fun {left right} same known => ?_) same
    rw [← revision_of_blueprint_eq same]
    exact known
  nesting := by
    intro path inner leads
    obtain ⟨other, leadsToo, _⟩ := inside?_of_blueprint_eq same leads
    exact fitting.nesting path other leadsToo

/-- The circuit inside a chip fits one level deeper. -/
theorem Fitting.inside (fitting : circuit.Fitting revisions depth) {id : NodeId} {node : Node Circuit}
    {body : Chip Circuit} (found : circuit.node? id = some node) (isChip : node.part = .chip body) :
    body.circuit.Fitting revisions (depth + 1) where
  wires := fitting.wires.inside found isChip
  revisions := fitting.revisions.inside found isChip
  nesting := by
    intro path inner leads
    have deep := fitting.nesting (id :: path) inner
      (inside?_cons_iff.mpr ⟨node, body, found, isChip, leads⟩)
    rw [List.length_cons] at deep
    omega

/-- A circuit that fits lies at a depth of 32 bits. -/
theorem Fitting.depth_lt (fitting : circuit.Fitting revisions depth) : depth < handleLimit :=
  fitting.nesting [] circuit (by rw [inside?])

/-- An evaluation keeps what fits, level by level, and room for the netlists to be built. -/
theorem invariant_fitting (revisions : Finset Revision) (limit depth : Nat) :
    Invariant Node.KeepsBlueprint (Fitting revisions depth) (Fitting revisions (depth + 1))
      (NetlistCache.RoomFor revisions limit) :=
  .of_blueprint Fitting.of_blueprint_eq Fitting.of_blueprint_eq (fun fitting _ _ _ => fitting.inside)
    fun fitting room => room.getOrBuild (fitting.revisions _ (.refl _))

end Circuit

variable {revisions : Finset Revision} {depth : Nat}

/-- No check fails when a node is stepped around a circuit that fits. -/
theorem Node.checks_of_fitting {node : Node Circuit}
    (sound : node.Sound (Circuit.Fitting revisions (depth + 1))) (initial : Bool) :
    node.checks depth initial = true := by
  unfold checks
  split
  · next body isChip =>
    have room : depth + 1 < handleLimit := (sound body isChip).depth_lt
    simp [room]
  · exact node.stepSafe_eq

namespace Circuit

variable {limit : Nat} (within : limit ≤ wordLimit)
include within

/-- With checks a level that fits is settled as it is without, if circuits inside its chips are. -/
theorem settleChecked_abides {settleInner other : InnerSettling}
    (inner : settleInner.Abide Node.KeepsBlueprint (Fitting revisions (depth + 1))
      (NetlistCache.RoomFor revisions limit) other)
    {maxPasses : Nat} (few : maxPasses < handleLimit) {circuit : Circuit}
    (fitting : circuit.Fitting revisions depth) {cache : NetlistCache}
    (room : cache.RoomFor revisions limit) :
    Abides (Related Node.KeepsBlueprint) (NetlistCache.RoomFor revisions limit) circuit
      (circuit.settle settleInner maxPasses cache)
      (circuit.settleChecked depth other maxPasses cache) := by
  have invariant := invariant_fitting revisions limit depth
  have known := fitting.revisions _ (.refl _)
  have wide : cache.RoomFor revisions wordLimit := Nat.lt_of_lt_of_le room within
  have counted : Settling.idle.passes + maxPasses < handleLimit := by
    rw [show Settling.idle.passes = 0 from rfl]
    omega
  rw [settleChecked, if_pos (wide.askSafe known (fitting.wires _ (.refl _)))]
  simp only [settle, passesChecked_eq _ counted]
  refine invariant.passes (fun initial reached after holds isKnown => ?_) _ _ fitting
    (room.getOrBuild known)
  rw [passChecked, if_pos (propagateSafe_eq ..)]
  refine invariant.pass (fun node sound cache isKnown => ?_) rfl holds isKnown
  rw [Node.stepChecked, if_pos (Node.checks_of_fitting sound initial)]
  exact invariant.stepIn inner initial sound isKnown

/-- With checks the circuit inside a chip is settled as it is without.

Proof: by induction on the levels left; the depth rises as they fall. -/
theorem settleWithinChecked_abides (revisions : Finset Revision) {maxPasses : Nat}
    (few : maxPasses < handleLimit) (levels depth : Nat) :
    (settleWithin maxPasses (.ok .tooDeep) levels).Abide Node.KeepsBlueprint (Fitting revisions depth)
      (NetlistCache.RoomFor revisions limit) (settleWithinChecked maxPasses levels depth) := by
  induction levels generalizing depth with
  | zero =>
    intro circuit cache _ room
    exact ⟨rfl, .refl Node.KeepsBlueprint.refl circuit, room⟩
  | succ levels inductionHypothesis =>
    intro circuit cache fitting room
    have quieted := (invariant_fitting revisions limit depth).related_quieted circuit
    obtain ⟨same, related, roomAfter⟩ := settleChecked_abides within (inductionHypothesis (depth + 1))
      few (fitting.of_blueprint_eq quieted.blueprint_eq.symm) room
    exact ⟨same, quieted.trans Node.KeepsBlueprint.trans related, roomAfter⟩

/-- No check fails in an evaluation of a circuit that fits into the machine: with checks the evaluation
is what it is without. -/
theorem evaluateChecked_abides {limits : Limits} (few : limits.maxPasses < handleLimit)
    {circuit : Circuit} (fitting : circuit.Fitting revisions 0) {cache : NetlistCache}
    (room : cache.RoomFor revisions limit) :
    Abides (Related Node.KeepsBlueprint) (NetlistCache.RoomFor revisions limit) circuit
      (circuit.evaluate limits .top cache) (circuit.evaluateChecked limits cache) := by
  have started := (invariant_fitting revisions limit 0).related_beginTick limits.interval circuit
  unfold evaluateChecked
  cases begun : (circuit.beginTick limits.interval).2 with
  | some fault =>
    rw [evaluate_of_fault cache begun]
    simp only [begun]
    exact ⟨rfl, started, room⟩
  | none =>
    rw [evaluate_of_begun cache begun]
    simp only [begun]
    obtain ⟨same, related, roomAfter⟩ := settleChecked_abides within
      (settleWithinChecked_abides within revisions few limits.maxDepth 1) few
      (fitting.of_blueprint_eq started.blueprint_eq.symm) room
    exact ⟨same, started.trans Node.KeepsBlueprint.trans related, roomAfter⟩

end Circuit

end Breadboard
