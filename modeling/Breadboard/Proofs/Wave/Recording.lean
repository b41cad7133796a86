import Breadboard.Proofs.Circuit.Nodes
import Breadboard.Proofs.Wave.Reading
import Mathlib.Data.List.Lattice

/-!
# What a trace records

A trace follows signals from sample to sample and writes those that changed. What it writes is read
as the entries that are defined here from what the samples show, without the state of the recorder:
the declarations of the visible nodes, and for each sample with a change its time and the changes.
-/

namespace Breadboard

/-- What a user sees on the node of a handle. -/
def Circuit.shown? (circuit : Circuit) (id : NodeId) : Option Signal :=
  (circuit.node? id).bind Node.display?

/-- The visible nodes with their handles, in the order of slots. -/
def Circuit.visible (circuit : Circuit) : List (NodeId × Node Circuit) :=
  circuit.nodes.items.filter fun item => item.2.isVisible

/-- Every visible node has a handle of its own. -/
theorem Circuit.nodup_visible (circuit : Circuit) : (circuit.visible.map Prod.fst).Nodup :=
  List.pairwise_map.mpr ((circuit.nodes.pairwise_items.filter _).imp Nat.ne_of_lt)

namespace Dump

/-- What each handle shows. -/
abbrev Display := NodeId → Option Signal

/-- The signals for a list of nodes. -/
def signalsOf (items : List (NodeId × Node Circuit)) : List DumpSignal :=
  items.mapIdx fun place item => ⟨item.1, String.ofList (codeOf place), item.2.traceWidth⟩

/-- The declarations for a list of nodes. -/
def declarationsOf (items : List (NodeId × Node Circuit)) : List Entry :=
  items.mapIdx fun place item =>
    .variable item.2.traceWidth (String.ofList (codeOf place)) (item.2.traceName item.1)

/-- The definitions for a circuit in a scope. -/
def definitionsOf (circuit : Circuit) (scope : String) : List Entry :=
  [.version ["gatesim", "0.1.0"], .timescale ["1ms"], .scope scope] ++
    declarationsOf circuit.visible ++ [.upscope]

/-- What is known of each handle after a sample: what it shows, or else what it showed before. -/
def known (before now : Display) : Display :=
  fun id => (now id).or (before id)

/-- What a signal shows, if this is another value than before. -/
def changed? (before now : Display) (signal : DumpSignal) : Option Signal :=
  (now signal.node).filter fun value => before signal.node ≠ some value

/-- A signal that shows no other value is known by the value before. -/
theorem known_of_unchanged {before now : Display} {signal : DumpSignal}
    (same : changed? before now signal = none) : known before now signal.node = before signal.node := by
  rw [changed?, Option.filter_eq_none_iff] at same
  rw [known]
  cases shown : now signal.node with
  | none => rfl
  | some value =>
    have held : before signal.node = some value := by simpa using same value shown
    rw [Option.some_or, held]

/-- A signal that shows another value is known by it. -/
theorem known_of_changed {before now : Display} {signal : DumpSignal} {value : Signal}
    (new : changed? before now signal = some value) : known before now signal.node = some value := by
  rw [known, (Option.filter_eq_some_iff.mp new).1, Option.some_or]

/-- The entries for the signals that show another value than before. -/
def changes (before now : Display) (signals : List DumpSignal) : List Entry :=
  signals.filterMap fun signal =>
    (changed? before now signal).map fun value => .change signal.code (value.normalise signal.width)

/-- The times at which signals changed, each with the changes. -/
def frames (signals : List DumpSignal) (interval : Nat) (before : Display) :
    List (Nat × Circuit) → List (Nat × List Entry)
  | [] => []
  | (tick, circuit) :: rest =>
    let changed := changes before circuit.shown? signals
    let later := frames signals interval (known before circuit.shown?) rest
    if changed = [] then later else (tick * interval, changed) :: later

/-- Times with their changes, one behind the other. -/
def listed (frames : List (Nat × List Entry)) : List Entry :=
  frames.flatMap fun frame => .time frame.1 :: frame.2

/-- All recorded changes. Those at the first time are the block of initial values. -/
def recorded : List (Nat × List Entry) → List Entry
  | [] => []
  | (time, values) :: later => .time time :: .initial :: (values ++ .stop :: listed later)

/-- The times at which visible nodes changed, each with the changes. Nothing is known of them before the
    first sample. -/
def framesOf (circuit : Circuit) (interval : Nat) (samples : List (Nat × Circuit)) :
    List (Nat × List Entry) :=
  frames (signalsOf circuit.visible) interval (fun _ => none) samples

/-- The entries for a circuit in a scope and its samples. -/
def entriesOf (circuit : Circuit) (scope : String) (interval : Nat)
    (samples : List (Nat × Circuit)) : List Entry :=
  definitionsOf circuit scope ++ .endDefinitions :: recorded (framesOf circuit interval samples)

/-- The entry that ends the block of initial values, if it is open. -/
def pending (dump : Dump) : List Entry :=
  if dump.initialOpen then [.stop] else []

/-- The signals are declared in the dump, with codes that are words and at least one bit each. -/
def Declares (dump : Dump) (signals : List DumpSignal) : Prop :=
  ∀ signal ∈ signals, dump.signal? signal.node = some signal ∧ Text.IsWord signal.code.toList ∧
    0 < signal.width

theorem reads_closing (dump : Dump) : Reads dump.closing dump.pending := by
  rw [closing, pending]
  split
  · exact reads_stop
  · exact .nil

@[simp] theorem nodes_signalsOf (items : List (NodeId × Node Circuit)) :
    (signalsOf items).map DumpSignal.node = items.map Prod.fst :=
  List.ext_getElem (by simp [signalsOf]) fun place _ _ => by simp [signalsOf]

/-- Every signal has a code of its own. -/
theorem nodup_codes_signalsOf (items : List (NodeId × Node Circuit)) :
    ((signalsOf items).map DumpSignal.code).Nodup := by
  have codes : (signalsOf items).map DumpSignal.code =
      (List.range items.length).map fun place => String.ofList (codeOf place) :=
    List.ext_getElem (by simp [signalsOf]) fun place _ _ => by simp [signalsOf]
  rw [codes]
  refine List.Nodup.map (fun left right same => codeOf_injective ?_) List.nodup_range
  simpa using congrArg String.toList same

/-- What is shown of a node has at least one bit. -/
theorem traceWidth_pos (node : Node Circuit) : 0 < node.traceWidth := by
  have pins := node.pinWidth_pos
  rw [Node.traceWidth]
  split
  · decide
  · exact pins

/-- A signal is found by its node if every signal has a node of its own.

Proof: by induction on the signals. -/
theorem find?_node {signals : List DumpSignal} (distinct : (signals.map DumpSignal.node).Nodup)
    {signal : DumpSignal} (member : signal ∈ signals) :
    signals.find? (·.node == signal.node) = some signal := by
  induction signals with
  | nil => contradiction
  | cons first signals inductionHypothesis =>
    obtain ⟨fresh, distinct⟩ := List.nodup_cons.mp distinct
    rcases List.mem_cons.mp member with rfl | later
    · exact List.find?_cons_of_pos (beq_self_eq_true _)
    · have other : first.node ≠ signal.node := fun same =>
        fresh (same ▸ List.mem_map_of_mem later)
      rw [List.find?_cons_of_neg (by simpa using other)]
      exact inductionHypothesis distinct later

/-- The dump that declared the visible nodes of a circuit declares their signals. -/
theorem declares_visible (circuit : Circuit) :
    (⟨(signalsOf circuit.visible).toArray, true, none, false⟩ : Dump).Declares
      (signalsOf circuit.visible) := by
  intro signal member
  obtain ⟨place, inside, rfl⟩ := List.getElem_of_mem member
  refine ⟨?_, ?_, ?_⟩
  · rw [signal?, List.find?_toArray]
    exact find?_node (by rw [nodes_signalsOf]; exact circuit.nodup_visible) member
  · simpa [signalsOf] using isWord_codeOf place
  · simpa [signalsOf] using traceWidth_pos _

/-- Moving on leaves the declared signals. -/
theorem signals_moveTo (dump : Dump) (time : Nat) :
    (dump.moveTo time).1.signals = dump.signals := by
  rw [moveTo]
  split
  · rfl
  · split <;> rfl

/-- Moving on leaves the signals declared. -/
theorem Declares.moveTo {dump : Dump} {signals : List DumpSignal} (declares : dump.Declares signals)
    (time : Nat) : (dump.moveTo time).1.Declares signals := by
  intro signal member
  rw [signal?, signals_moveTo]
  exact declares signal member

/-- A dump that was moved to a time stays there. -/
theorem moveTo_moveTo (dump : Dump) (time : Nat) :
    (dump.moveTo time).1.moveTo time = ((dump.moveTo time).1, "") := by
  obtain ⟨signals, opened, present, initialOpen⟩ := dump
  cases present with
  | none => simp [moveTo, opening]
  | some present =>
    by_cases same : present = time
    · simp [moveTo, same, opening]
    · simp [moveTo, same, opening]

/-- Moving on to a later time ends the block of initial values, if it is open. -/
theorem moveTo_later {dump : Dump} (opened : dump.opened = true) {present time : Nat}
    (stands : dump.time = some present) (later : present < time) :
    dump.moveTo time = ({ dump with time := some time, initialOpen := false },
      dump.closing ++ ("#" ++ decimalText time ++ "\n")) := by
  obtain ⟨signals, _, _, initialOpen⟩ := dump
  simp only at opened stands
  subst opened stands
  simp [moveTo, opening, Nat.ne_of_lt later]

/-- Moving on to the first time ends the definitions and opens the block of initial values. -/
theorem moveTo_first {dump : Dump} (opened : dump.opened = true) (unmoved : dump.time = none)
    (time : Nat) :
    dump.moveTo time = ({ dump with time := some time, initialOpen := true },
      "$enddefinitions $end\n" ++ ("#" ++ decimalText time ++ "\n") ++ "$dumpvars\n") := by
  obtain ⟨signals, _, _, initialOpen⟩ := dump
  simp only at opened unmoved
  subst opened unmoved
  simp [moveTo, opening]

/-- A change of a declared signal moves on and adds a line. -/
theorem change_of_declared {dump : Dump} {signal : DumpSignal}
    (declared : dump.signal? signal.node = some signal) (time : Nat) (value : Signal) :
    dump.change time signal.node value =
      ((dump.moveTo time).1, (dump.moveTo time).2 ++ changeLine signal value, none) := by
  have kept : (dump.moveTo time).1.signal? signal.node = some signal := by
    rw [signal?, signals_moveTo]
    exact declared
  simp only [change, kept]

/-- The probe of a signal with what is known of it. -/
def probeOf (before : Display) (signal : DumpSignal) : Probe :=
  ⟨signal.node, before signal.node⟩

end Dump

namespace Tracer

open Dump

variable {dump : Dump} {before : Display} {circuit : Circuit}

/-- Declares a node behind what was written. -/
def declare (state : Dump × String) (item : NodeId × Node Circuit) : Dump × String :=
  let (dump, text) := state.1.register item.1 (item.2.traceName item.1) item.2.traceWidth
  (dump, state.2 ++ text)

/-- Declaring nodes in turn adds their declarations.

Proof: by induction on the nodes, the last one first. -/
theorem foldl_declare (items : List (NodeId × Node Circuit)) {text : String} {entries : List Entry}
    (reads : Reads text entries) :
    ∃ added, items.foldl declare (⟨#[], true, none, false⟩, text) =
      (⟨(signalsOf items).toArray, true, none, false⟩, added) ∧
      Reads added (entries ++ declarationsOf items) := by
  induction items using List.reverseRecOn with
  | nil => exact ⟨text, rfl, by simpa [declarationsOf] using reads⟩
  | append_singleton items item inductionHypothesis =>
    obtain ⟨added, declared, readsAdded⟩ := inductionHypothesis
    have code : Text.IsWord (String.ofList (codeOf items.length)).toList := by
      simpa using isWord_codeOf items.length
    have line := reads_variable item.2.traceWidth code (item.2.isWord_traceName item.1)
    refine ⟨_, ?_, by simpa [declarationsOf] using readsAdded.append line⟩
    rw [List.foldl_concat, declared]
    simp [declare, register, opening, signalsOf]

/-- Attaching a trace in a scope whose name is one word writes the definitions. -/
theorem attach_eq (circuit : Circuit) {scope : String} (word : Text.IsWord scope.toList)
    (interval : Nat) :
    ∃ text, attach circuit scope interval =
        (⟨⟨(signalsOf circuit.visible).toArray, true, none, false⟩,
          (signalsOf circuit.visible).map (probeOf fun _ => none), interval⟩, text) ∧
      Reads text (definitionsOf circuit scope) := by
  obtain ⟨added, declared, readsAdded⟩ :=
    foldl_declare circuit.visible (reads_header.append (reads_scope word))
  refine ⟨added ++ endScope, ?_, by simpa [definitionsOf] using readsAdded.append reads_endScope⟩
  have probes : circuit.visible.map (fun item => (⟨item.1, none⟩ : Probe)) =
      (signalsOf circuit.visible).map (probeOf fun _ => none) :=
    List.ext_getElem (by simp [signalsOf]) fun place _ _ => by simp [signalsOf, probeOf]
  have unfolded : attach circuit scope interval =
      (⟨(circuit.visible.foldl declare (⟨#[], true, none, false⟩,
          header ++ "$scope module " ++ scope ++ " $end\n")).1,
        circuit.visible.map fun item => ⟨item.1, none⟩, interval⟩,
      (circuit.visible.foldl declare (⟨#[], true, none, false⟩,
          header ++ "$scope module " ++ scope ++ " $end\n")).2 ++ endScope) := rfl
  have joined : header ++ "$scope module " ++ scope ++ " $end\n" =
      header ++ ("$scope module " ++ scope ++ " $end\n") := by
    simp only [String.append_assoc]
  rw [unfolded, joined, declared, probes]

/-- A signal that shows what it showed before is passed over. -/
theorem sampleProbe_of_unchanged {signal : DumpSignal}
    (same : changed? before circuit.shown? signal = none) (time : Nat) :
    sampleProbe circuit time dump (probeOf before signal) =
      (dump, probeOf (known before circuit.shown?) signal, "") := by
  have kept : probeOf (known before circuit.shown?) signal = probeOf before signal := by
    rw [probeOf, known_of_unchanged same, probeOf]
  rw [kept]
  rw [changed?, Option.filter_eq_none_iff] at same
  simp only [sampleProbe, probeOf, Circuit.shown?] at same ⊢
  cases shown : (circuit.node? signal.node).bind Node.display? with
  | none => rfl
  | some value =>
    have held : before signal.node = some value := by simpa using same value shown
    exact if_pos held

/-- A signal that shows another value moves on to the time of the sample and adds a line. -/
theorem sampleProbe_of_changed {signal : DumpSignal} {value : Signal}
    (new : changed? before circuit.shown? signal = some value)
    (declared : dump.signal? signal.node = some signal) (time : Nat) :
    sampleProbe circuit time dump (probeOf before signal) =
      ((dump.moveTo time).1, probeOf (known before circuit.shown?) signal,
        (dump.moveTo time).2 ++ changeLine signal value) := by
  obtain ⟨shown, other⟩ := Option.filter_eq_some_iff.mp new
  have notHeld : before signal.node ≠ some value := by simpa using other
  rw [Circuit.shown?] at shown
  simp only [sampleProbe, probeOf, known_of_changed new, shown, if_neg notHeld,
    change_of_declared declared]

/-- If no signal shows another value, nothing is written. -/
theorem sampleProbes_of_unchanged {signals : List DumpSignal}
    (same : changes before circuit.shown? signals = []) (time : Nat) :
    sampleProbes circuit time dump (signals.map (probeOf before)) =
      (dump, signals.map (probeOf (known before circuit.shown?)), "") := by
  induction signals with
  | nil => rfl
  | cons signal signals inductionHypothesis =>
    cases new : changed? before circuit.shown? signal with
    | some value => simp [changes, new] at same
    | none =>
      have later : changes before circuit.shown? signals = [] := by simpa [changes, new] using same
      simp only [List.map_cons, sampleProbes, sampleProbe_of_unchanged new,
        inductionHypothesis later, String.empty_append]

/-- At the time where a dump stands, a sample adds the changes.

Proof: by induction on the signals. -/
theorem sampleProbes_of_moved (before : Display) (circuit : Circuit) {signals : List DumpSignal}
    (declares : dump.Declares signals) {time : Nat} (there : dump.moveTo time = (dump, "")) :
    ∃ text, sampleProbes circuit time dump (signals.map (probeOf before)) =
        (dump, signals.map (probeOf (known before circuit.shown?)), text) ∧
      Reads text (changes before circuit.shown? signals) := by
  induction signals with
  | nil => exact ⟨"", rfl, .nil⟩
  | cons signal signals inductionHypothesis =>
    obtain ⟨⟨declared, word, positive⟩, declaresLater⟩ := List.forall_mem_cons.mp declares
    obtain ⟨text, sampled, reads⟩ := inductionHypothesis declaresLater
    cases new : changed? before circuit.shown? signal with
    | none =>
      refine ⟨text, ?_, by simpa [changes, new] using reads⟩
      simp only [List.map_cons, sampleProbes, sampleProbe_of_unchanged new, sampled,
        String.empty_append]
    | some value =>
      refine ⟨changeLine signal value ++ text, ?_, ?_⟩
      · simp only [List.map_cons, sampleProbes, sampleProbe_of_changed new declared, there, sampled,
          String.empty_append]
      · simpa [changes, new] using (reads_changeLine word positive value).append reads

/-- If a signal shows another value, a sample moves on to its time and adds the changes.

Proof: by induction on the signals. The first change moves on; the others find the dump moved. -/
theorem sampleProbes_of_changed {signals : List DumpSignal} (declares : dump.Declares signals)
    (new : changes before circuit.shown? signals ≠ []) (time : Nat) :
    ∃ text, sampleProbes circuit time dump (signals.map (probeOf before)) =
        ((dump.moveTo time).1, signals.map (probeOf (known before circuit.shown?)),
          (dump.moveTo time).2 ++ text) ∧
      Reads text (changes before circuit.shown? signals) := by
  induction signals with
  | nil => exact absurd rfl new
  | cons signal signals inductionHypothesis =>
    obtain ⟨⟨declared, word, positive⟩, declaresLater⟩ := List.forall_mem_cons.mp declares
    cases here : changed? before circuit.shown? signal with
    | none =>
      obtain ⟨text, sampled, reads⟩ :=
        inductionHypothesis declaresLater (by simpa [changes, here] using new)
      refine ⟨text, ?_, by simpa [changes, here] using reads⟩
      simp only [List.map_cons, sampleProbes, sampleProbe_of_unchanged here, sampled,
        String.empty_append]
    | some value =>
      have declaresMoved : (dump.moveTo time).1.Declares signals := Declares.moveTo declaresLater time
      obtain ⟨text, sampled, reads⟩ := sampleProbes_of_moved before circuit declaresMoved
        (dump.moveTo_moveTo time)
      refine ⟨changeLine signal value ++ text, ?_, ?_⟩
      · simp only [List.map_cons, sampleProbes, sampleProbe_of_changed here declared, sampled,
          String.append_assoc]
      · simpa [changes, here] using (reads_changeLine word positive value).append reads

/-- The text that samples add and the end of the trace. -/
def run (tracer : Tracer) : List (Nat × Circuit) → Except Fault String
  | [] => .ok tracer.finish
  | (tick, circuit) :: rest => do
    let (tracer, text) ← tracer.sample tick circuit
    let later ← tracer.run rest
    return text ++ later

/-- A sample in range leaves the dump where its probes leave it. -/
theorem run_cons {tracer : Tracer} {tick : Nat} {rest : List (Nat × Circuit)} {probes : List Probe}
    {after : Dump} {text later : String} (inRange : tick * tracer.interval < wordLimit)
    (sampled : sampleProbes circuit (tick * tracer.interval) tracer.dump tracer.probes =
      (after, probes, text))
    (goesOn : ({ tracer with dump := after, probes } : Tracer).run rest = .ok later) :
    tracer.run ((tick, circuit) :: rest) = .ok (text ++ later) := by
  have sample : tracer.sample tick circuit = .ok ({ tracer with dump := after, probes }, text) := by
    simp only [Tracer.sample, if_pos inRange, sampled]
  simp only [run, sample, bind, Except.bind, goesOn]
  rfl

/-- Behind the first time, samples add their times and changes. The block of initial values, if it
is still open, ends before them.

Proof: by induction on the samples. -/
theorem run_of_time {signals : List DumpSignal} {samples : List (Nat × Circuit)}
    {interval present : Nat} (declares : dump.Declares signals) (opened : dump.opened = true)
    (stands : dump.time = some present) (later : ∀ sample ∈ samples, present < sample.1 * interval)
    (increasing : (samples.map fun sample => sample.1 * interval).Pairwise (· < ·))
    (inRange : ∀ sample ∈ samples, sample.1 * interval < wordLimit) :
    ∃ text, (⟨dump, signals.map (probeOf before), interval⟩ : Tracer).run samples = .ok text ∧
      Reads text (dump.pending ++ listed (frames signals interval before samples)) := by
  induction samples generalizing dump before present with
  | nil =>
    refine ⟨dump.closing, ?_, ?_⟩
    · simp [run, finish, Dump.finish, stands]
    · simpa [frames, listed] using reads_closing dump
  | cons sample samples inductionHypothesis =>
    obtain ⟨tick, circuit⟩ := sample
    obtain ⟨isLater, later⟩ := List.forall_mem_cons.mp later
    obtain ⟨here, increasing⟩ := List.pairwise_cons.mp increasing
    obtain ⟨fits, inRange⟩ := List.forall_mem_cons.mp inRange
    by_cases same : changes before circuit.shown? signals = []
    · obtain ⟨text, ran, reads⟩ := @inductionHypothesis dump (known before circuit.shown?) present
        declares opened stands later increasing inRange
      refine ⟨"" ++ text, run_cons fits (sampleProbes_of_unchanged same _) ran, ?_⟩
      simpa [frames, same] using reads
    · have moved := moveTo_later opened stands isLater
      obtain ⟨added, sampled, readsAdded⟩ := sampleProbes_of_changed declares same (tick * interval)
      have declaresMoved := declares.moveTo (tick * interval)
      rw [moved] at sampled declaresMoved
      obtain ⟨text, ran, reads⟩ := @inductionHypothesis _ (known before circuit.shown?) _ declaresMoved
        opened rfl (fun sample member => here _ (List.mem_map_of_mem member)) increasing inRange
      refine ⟨_, run_cons fits sampled ran, ?_⟩
      have whole :=
        (((reads_closing dump).append (reads_time (tick * interval))).append readsAdded).append reads
      simpa [frames, same, listed, pending] using whole

/-- Before the first time, samples end the definitions and add all changes.

Proof: by induction on the samples, up to the first with a change. -/
theorem run_of_start {signals : List DumpSignal} {samples : List (Nat × Circuit)} {interval : Nat}
    (declares : dump.Declares signals) (opened : dump.opened = true) (unmoved : dump.time = none)
    (closed : dump.initialOpen = false)
    (increasing : (samples.map fun sample => sample.1 * interval).Pairwise (· < ·))
    (inRange : ∀ sample ∈ samples, sample.1 * interval < wordLimit) :
    ∃ text, (⟨dump, signals.map (probeOf before), interval⟩ : Tracer).run samples = .ok text ∧
      Reads text (.endDefinitions :: recorded (frames signals interval before samples)) := by
  induction samples generalizing before with
  | nil =>
    refine ⟨"$enddefinitions $end\n", ?_, reads_endDefinitions⟩
    simp [run, finish, Dump.finish, unmoved, opening, opened, closing, closed]
  | cons sample samples inductionHypothesis =>
    obtain ⟨tick, circuit⟩ := sample
    obtain ⟨here, increasing⟩ := List.pairwise_cons.mp increasing
    obtain ⟨fits, inRange⟩ := List.forall_mem_cons.mp inRange
    by_cases same : changes before circuit.shown? signals = []
    · obtain ⟨text, ran, reads⟩ := @inductionHypothesis (known before circuit.shown?) increasing inRange
      refine ⟨"" ++ text, run_cons fits (sampleProbes_of_unchanged same _) ran, ?_⟩
      simpa [frames, same] using reads
    · have moved := moveTo_first opened unmoved (tick * interval)
      obtain ⟨added, sampled, readsAdded⟩ := sampleProbes_of_changed declares same (tick * interval)
      have declaresMoved := declares.moveTo (tick * interval)
      rw [moved] at sampled declaresMoved
      obtain ⟨text, ran, reads⟩ := @run_of_time _ (known before circuit.shown?) _ _ _ _ declaresMoved
        opened rfl (fun sample member => here _ (List.mem_map_of_mem member)) increasing inRange
      refine ⟨_, run_cons fits sampled ran, ?_⟩
      have whole := (((reads_endDefinitions.append (reads_time (tick * interval))).append
        reads_initial).append readsAdded).append reads
      simpa [frames, same, listed, pending, recorded] using whole

/-- The dump of a circuit that is followed from sample to sample up to the end. -/
def waveform (circuit : Circuit) (scope : String) (interval : Nat)
    (samples : List (Nat × Circuit)) : Except Fault String := do
  let (tracer, text) := attach circuit scope interval
  let later ← tracer.run samples
  return text ++ later

/-- A trace writes the definitions and then what the samples show. -/
theorem waveform_eq (circuit : Circuit) {scope : String} (word : Text.IsWord scope.toList)
    {interval : Nat} {samples : List (Nat × Circuit)}
    (increasing : (samples.map fun sample => sample.1 * interval).Pairwise (· < ·))
    (inRange : ∀ sample ∈ samples, sample.1 * interval < wordLimit) :
    ∃ text, waveform circuit scope interval samples = .ok text ∧
      Reads text (entriesOf circuit scope interval samples) := by
  obtain ⟨opening, attached, readsOpening⟩ := attach_eq circuit word interval
  obtain ⟨later, ran, readsLater⟩ := @run_of_start _ (fun _ => none) _ samples interval
    (declares_visible circuit) rfl rfl rfl increasing inRange
  refine ⟨opening ++ later, ?_, readsOpening.append readsLater⟩
  simp only [waveform, attached, ran]
  rfl

end Tracer

end Breadboard
