import Breadboard.Proofs.Circuit.Places
import Breadboard.Proofs.Console.Confinement

/-!
# Runs that are refused for their drives

The drives of a batch run are carried out one after the other on the circuit itself. Which of them are
refused does not depend on those before: a drive names a node and reads a literal at its width, and both
are told by the blueprint, which drives leave. So a run is refused for the first drive that the circuit
refuses as it is given. By then the drives in front of it stand, and nothing else has been done.
-/

namespace Breadboard

namespace Circuit

variable {circuit left right : Circuit} {id : NodeId} {name literal assignment : String}

/-- The node that a drive names and the signal that it gives it, or why it is refused. -/
def demand (circuit : Circuit) (assignment : String) : Except DriveError (NodeId × Signal) :=
  match splitAssignment? assignment with
  | none => .error (.invalid assignment "" .noAssignment)
  | some (name, literal) => do
    let id ← circuit.resolve (trimmed name)
    (circuit.driveNode id (trimmed name) literal).map fun driven => (id, driven.1)

/-- The circuit with a node driven to a signal. -/
def drivenTo (circuit : Circuit) (demand : NodeId × Signal) : Circuit :=
  circuit.modifyNode demand.1 fun node => (node.drive? demand.2).getD node

/-- Driving a node by a literal drives it to the signal that was read. -/
theorem drivenTo_of_driveNode {signal : Signal} {after : Circuit}
    (drives : circuit.driveNode id name literal = .ok (signal, after)) :
    after = circuit.drivenTo (id, signal) := by
  unfold driveNode at drives
  split at drives
  · cases drives
  · next node found =>
    split at drives
    · cases drives
    · split at drives
      · cases drives
      · next takes =>
        obtain ⟨rfl, rfl⟩ := Prod.mk.inj (Except.ok.inj drives)
        exact (modifyNode_driven found takes).symm

/-- Carrying out a drive is driving the node that it names to the signal that it gives. -/
theorem applyDrive_eq (circuit : Circuit) (assignment : String) :
    circuit.applyDrive assignment =
      (circuit.demand assignment).map fun demand => (demand.1, circuit.drivenTo demand) := by
  unfold applyDrive demand
  rcases splitAssignment? assignment with _ | ⟨name, literal⟩
  · rfl
  · simp only [bind, Except.bind]
    cases circuit.resolve (trimmed name) with
    | error error => rfl
    | ok id =>
      simp only
      cases drives : circuit.driveNode id (trimmed name) literal with
      | error error => rfl
      | ok driven =>
        obtain ⟨signal, after⟩ := driven
        obtain rfl := drivenTo_of_driveNode drives
        rfl

/-- A drive is refused exactly if nothing can be demanded by it. -/
theorem applyDrive_eq_error_iff {error : DriveError} :
    circuit.applyDrive assignment = .error error ↔ circuit.demand assignment = .error error := by
  rw [circuit.applyDrive_eq]
  cases circuit.demand assignment with
  | error other => simp only [Except.map, Except.error.injEq]
  | ok demand => simp only [Except.map, reduceCtorEq]

/-- Nodes with one blueprint can both be driven or neither. -/
theorem isSome_drive?_blueprint (signal : Signal) (node : Node Circuit) :
    (node.blueprint.drive? signal).isSome = (node.drive? signal).isSome := by
  obtain ⟨label, position, part, inputs, outputs⟩ := node
  cases part <;> rfl

/-- In circuits with one blueprint a literal is read alike, and refused alike. -/
theorem driveNode_of_blueprint_eq (same : left.blueprint = right.blueprint) (id : NodeId)
    (name literal : String) :
    (left.driveNode id name literal).map Prod.fst = (right.driveNode id name literal).map Prod.fst := by
  have nodes : (left.node? id).map Node.blueprint = (right.node? id).map Node.blueprint :=
    node?_of_viewed_eq same id
  unfold driveNode
  cases foundLeft : left.node? id with
  | none =>
    rw [foundLeft, Option.map_none] at nodes
    rw [Option.map_eq_none_iff.mp nodes.symm]
  | some node =>
    rw [foundLeft, Option.map_some] at nodes
    obtain ⟨other, foundRight, blueprints⟩ := Option.map_eq_some_iff.mp nodes.symm
    have widths : node.pinWidth = other.pinWidth := by
      rw [← node.pinWidth_blueprint, ← blueprints, other.pinWidth_blueprint]
    simp only [foundRight, widths]
    cases Signal.ofLiteral? other.pinWidth literal.toList with
    | none => rfl
    | some signal =>
      have taken : (node.drive? signal).isSome = (other.drive? signal).isSome := by
        rw [← isSome_drive?_blueprint, ← blueprints, isSome_drive?_blueprint]
      simp only
      cases takes : node.drive? signal with
      | none =>
        rw [takes] at taken
        rw [Option.isNone_iff_eq_none.mp (Option.isSome_eq_false_iff.mp taken.symm)]
      | some driven =>
        rw [takes] at taken
        obtain ⟨otherDriven, otherTakes⟩ := Option.isSome_iff_exists.mp taken.symm
        rw [otherTakes]
        rfl

/-- In circuits with one blueprint a drive asks for the same, and is refused alike. -/
theorem demand_of_blueprint_eq (same : left.blueprint = right.blueprint) (assignment : String) :
    left.demand assignment = right.demand assignment := by
  unfold demand
  rcases splitAssignment? assignment with _ | ⟨name, literal⟩
  · rfl
  · simp only [bind, Except.bind, resolve_of_blueprint_eq same]
    cases right.resolve (trimmed name) with
    | error error => rfl
    | ok id =>
      have alike := driveNode_of_blueprint_eq same id (trimmed name) literal
      have paired (result : Except DriveError (Signal × Circuit)) :
          (result.map fun driven => (id, driven.1)) =
            (result.map Prod.fst).map fun signal => (id, signal) := by
        cases result <;> rfl
      simp only [paired, alike]

/-- A drive changes no demand. -/
theorem demand_drivenTo (circuit : Circuit) (made : NodeId × Signal) (assignment : String) :
    (circuit.drivenTo made).demand assignment = circuit.demand assignment :=
  demand_of_blueprint_eq (blueprint_modifyNode circuit _ _ (Node.blueprint_driven made.2)) assignment

/-- Of several drives of one node the last one counts. -/
theorem drive?_foldl (demands : List (NodeId × Signal)) (node : Node Circuit) :
    demands.foldl (fun node demand => (node.drive? demand.2).getD node) node =
      demands.getLast?.elim node fun demand => (node.drive? demand.2).getD node := by
  have again (first second : Signal) :
      ((((node.drive? first).getD node).drive? second).getD ((node.drive? first).getD node)) =
        (node.drive? second).getD node := by
    obtain ⟨label, position, part, inputs, outputs⟩ := node
    cases part <;> rfl
  induction demands using List.reverseRecOn with
  | nil => rfl
  | append_singleton demands last inductionHypothesis =>
    rw [List.foldl_append, inductionHypothesis, List.getLast?_concat]
    cases demands.getLast? with
    | none => rfl
    | some earlier => exact again earlier.2 last.2

/-- Drives one after the other drive every node to the last signal that is given to it, and leave all else
as it is. -/
theorem node?_foldl_drivenTo (demands : List (NodeId × Signal)) (circuit : Circuit) (id : NodeId) :
    (demands.foldl drivenTo circuit).node? id = (circuit.node? id).map fun node =>
      (demands.filter (·.1 == id)).getLast?.elim node fun demand => (node.drive? demand.2).getD node := by
  simp only [← drive?_foldl]
  exact node?_foldl_modifyNode Prod.fst
    (fun demand node => (node.drive? demand.2).getD node) demands circuit id

end Circuit

/-- Drives are carried out up to the first that the circuit refuses as it is given.

Proof: by induction on the drives. Those that are carried out change no demand. -/
theorem applyDrives_cases (circuit : Circuit) (drives : List String) :
    (∃ demands : List (NodeId × Signal), drives.map circuit.demand = demands.map .ok ∧
      applyDrives circuit drives = (demands.foldl Circuit.drivenTo circuit, none)) ∨
    ∃ (before : List String) (bad : String) (rest : List String) (demands : List (NodeId × Signal))
        (error : DriveError), drives = before ++ bad :: rest ∧
      before.map circuit.demand = demands.map .ok ∧ circuit.demand bad = .error error ∧
      applyDrives circuit drives = (demands.foldl Circuit.drivenTo circuit, some error) := by
  induction drives generalizing circuit with
  | nil => exact .inl ⟨[], rfl, rfl⟩
  | cons assignment rest inductionHypothesis =>
    rw [applyDrives, circuit.applyDrive_eq]
    cases asked : circuit.demand assignment with
    | error error => exact .inr ⟨[], assignment, rest, [], error, rfl, rfl, asked, rfl⟩
    | ok demand =>
      have same : (circuit.drivenTo demand).demand = circuit.demand :=
        funext (circuit.demand_drivenTo demand)
      have further := inductionHypothesis (circuit.drivenTo demand)
      rw [same] at further
      rcases further with ⟨demands, asks, applied⟩ |
        ⟨before, bad, after, demands, error, rfl, asks, refuses, applied⟩
      · exact .inl ⟨demand :: demands, by rw [List.map_cons, asked, asks]; rfl, applied⟩
      · exact .inr ⟨assignment :: before, bad, after, demand :: demands, error, rfl,
          by rw [List.map_cons, asked, asks]; rfl, refuses, applied⟩

/-- Ticks refuse no drive.

Proof: by induction on the ticks. -/
theorem runTicksFrom_ne_drive (scheduler : Scheduler) (circuit : Circuit) (summary : RunSummary)
    (recording : Option Recording) (tick ticks : Nat) (error : DriveError) :
    (runTicksFrom scheduler circuit summary recording tick ticks).result ≠ .error (.drive error) := by
  induction ticks generalizing scheduler circuit summary recording tick with
  | zero =>
    intro refused
    cases refused
  | succ ticks inductionHypothesis =>
    rw [runTicksFrom]
    rcases scheduler.tick circuit with ⟨next, ticked, outcome⟩
    simp only
    cases sampleIf recording (tick + 1) ticked with
    | error fault =>
      intro refused
      cases refused
    | ok sampled => exact inductionHypothesis next ticked _ sampled (tick + 1)

/-- A run whose drives are all carried out is not refused for one. -/
theorem simulate_ne_drive {circuit driven : Circuit} {options : RunOptions}
    (applied : applyDrives circuit options.drives = (driven, none)) (limits : Limits)
    (error : DriveError) : (simulate circuit limits options).result ≠ .error (.drive error) := by
  rw [simulate, applied]
  simp only
  split
  · exact runTicksFrom_ne_drive _ _ _ _ _ _ _
  · intro refused
    cases refused

/-- A run ends with the first drive that is refused. -/
theorem simulate_of_refused {circuit driven : Circuit} {options : RunOptions} {error : DriveError}
    (applied : applyDrives circuit options.drives = (driven, some error)) (limits : Limits) :
    simulate circuit limits options = ⟨driven, none, .error (.drive error)⟩ := by
  rw [simulate, applied]

/-- A batch run is refused for its drives exactly if the circuit as it is given refuses one of them,
wherever it stands. The error is that of the first one refused. No tick was made then, nor anything else
for which limits or options other than the drives matter, and nothing is recorded. Wires, revision and
slots are what they were, and so is every node but for those that drives in front of the refused one
name, each of which is driven to the last signal that these give it. So nothing at all has changed if the
refused drive is the first one. -/
theorem refused_run_keeps_drives (circuit : Circuit) (limits : Limits) (options : RunOptions) :
    ((∃ error, (simulate circuit limits options).result = .error (.drive error)) ↔
      ∃ bad ∈ options.drives, ∃ error, circuit.applyDrive bad = .error error) ∧
    ∀ error, (simulate circuit limits options).result = .error (.drive error) →
      ∃ (before : List String) (bad : String) (rest : List String) (demands : List (NodeId × Signal)),
        options.drives = before ++ bad :: rest ∧
        before.map circuit.demand = demands.map .ok ∧ circuit.applyDrive bad = .error error ∧
        (simulate circuit limits options).dump = none ∧
        (∀ otherLimits others, others.drives = options.drives →
          simulate circuit otherLimits others = simulate circuit limits options) ∧
        (simulate circuit limits options).circuit.SameFrame circuit ∧
        (∀ id, (simulate circuit limits options).circuit.node? id = (circuit.node? id).map fun node =>
          (demands.filter (·.1 == id)).getLast?.elim node
            fun demand => (node.drive? demand.2).getD node) ∧
        (before = [] → (simulate circuit limits options).circuit = circuit) := by
  rcases applyDrives_cases circuit options.drives with
    ⟨demands, asks, applied⟩ | ⟨before, bad, rest, demands, error, split, asks, refuses, applied⟩
  · have unrefused := simulate_ne_drive applied limits
    refine ⟨iff_of_false (fun ⟨error, refused⟩ => unrefused error refused) ?_,
      fun error refused => absurd refused (unrefused error)⟩
    rintro ⟨bad, member, error, refuses⟩
    have asked : circuit.demand bad ∈ demands.map Except.ok := asks ▸ List.mem_map_of_mem member
    obtain ⟨demand, _, same⟩ := List.mem_map.mp asked
    rw [Circuit.applyDrive_eq_error_iff, ← same] at refuses
    cases refuses
  · have refused := Circuit.applyDrive_eq_error_iff.mpr refuses
    have ended := simulate_of_refused applied limits
    constructor
    · refine iff_of_true ⟨error, by rw [ended]⟩ ⟨bad, ?_, error, refused⟩
      rw [split]
      exact List.mem_append_right _ (.head _)
    · intro reported result
      rw [ended] at result
      obtain rfl : error = reported := by
        injection result with inner
        injection inner
      refine ⟨before, bad, rest, demands, split, asks, refused, ?_, ?_, ?_, ?_, ?_⟩
      · rw [ended]
      · intro otherLimits others sameDrives
        rw [ended, simulate_of_refused (sameDrives ▸ applied)]
      · rw [ended]
        exact Circuit.sameFrame_foldl Prod.fst
          (fun demand node => (node.drive? demand.2).getD node) demands circuit
      · rw [ended]
        exact Circuit.node?_foldl_drivenTo demands circuit
      · rintro rfl
        rw [ended, List.map_eq_nil_iff.mp asks.symm]
        rfl

/-- A switch that is off and a pin of four bits, with a vacant slot between them. -/
def Circuit.switchAndPin : Circuit :=
  ⟨⟨[some ((Node.ofPart (.switch false)).labelled "A"), none,
    some ((Node.ofPart (.inputPin .four (.bit false))).labelled "D")]⟩, [], 1⟩

/-- The options of a run of three ticks that is recorded and begins with some drives. -/
def RunOptions.driving (drives : List String) : RunOptions :=
  ⟨3, drives, none, false, true⟩

/-- The switch is driven twice and the pin once before a drive that names no node. The run is refused for
that drive. It leaves the switch off, as the last drive of it said, and the pin at five. -/
theorem Circuit.switchAndPin_refused : ∃ before bad rest,
    (simulate switchAndPin .standard (.driving ["A=1", "D= 0x5", "A=0", "X=1", "A"])).result =
        .error (.drive (.unknownNode "X")) ∧
      ["A=1", "D= 0x5", "A=0", "X=1", "A"] = before ++ bad :: rest ∧
      switchAndPin.applyDrive bad = .error (.unknownNode "X") ∧
      (simulate switchAndPin .standard
        (.driving ["A=1", "D= 0x5", "A=0", "X=1", "A"])).circuit.SameFrame switchAndPin ∧
      (simulate switchAndPin .standard
        (.driving ["A=1", "D= 0x5", "A=0", "X=1", "A"])).circuit.nodes.slots.map
          (·.bind Node.display?) = [some (.bit false), none, some (.bus (.ofNat 5 4))] := by
  have refuses : (applyDrives switchAndPin ["A=1", "D= 0x5", "A=0", "X=1", "A"]).2 =
      some (.unknownNode "X") := by
    decide +kernel
  have ended : simulate switchAndPin .standard (.driving ["A=1", "D= 0x5", "A=0", "X=1", "A"]) =
      ⟨_, none, .error (.drive (.unknownNode "X"))⟩ :=
    simulate_of_refused (Prod.ext rfl refuses) .standard
  obtain ⟨before, bad, rest, _, split, _, refused, _, _, frame, _⟩ :=
    (refused_run_keeps_drives switchAndPin .standard
      (.driving ["A=1", "D= 0x5", "A=0", "X=1", "A"])).2 (.unknownNode "X") (by rw [ended])
  refine ⟨before, bad, rest, by rw [ended], split, refused, frame, ?_⟩
  decide +kernel

/-- A run that is refused for its second drive has made the first one. -/
theorem Circuit.switchAndPin_half_driven :
    (simulate switchAndPin .standard (.driving ["A=1", "X=1"])).result =
        .error (.drive (.unknownNode "X")) ∧
      (simulate switchAndPin .standard (.driving ["A=1", "X=1"])).circuit ≠ switchAndPin := by
  constructor
  · have refuses : (applyDrives switchAndPin ["A=1", "X=1"]).2 = some (.unknownNode "X") := by
      decide +kernel
    rw [simulate_of_refused (Prod.ext rfl refuses)]
  · intro same
    have on : (switchAndPin.node? 0).bind Node.display? = some (.bit true) := by
      rw [← same]
      decide +kernel
    revert on
    decide +kernel

end Breadboard
