import Breadboard.Proofs.Signal.WiredOr
import Breadboard.Proofs.Wave.Recording

/-!
# Waveforms lose nothing

The dump of a trace is well formed and tells, for every visible node and every sample, what the node
showed then, though only changes are written. This takes a scope whose name is one word: the names
of signals are cleared of blanks, the name of the scope is not.
-/

namespace Breadboard

namespace Dump

namespace Entry

/-- The entry belongs to the definitions. -/
def isDefinition : Entry → Bool
  | .version _ | .timescale _ | .scope _ | .variable .. | .upscope => true
  | _ => false

/-- The entry is a time or a change. -/
def isStep : Entry → Bool
  | .time _ | .change .. => true
  | _ => false

/-- The entry declares a signal. -/
def isVariable : Entry → Bool
  | .variable .. => true
  | _ => false

/-- The declared code. -/
def code? : Entry → Option String
  | .variable _ code _ => some code
  | _ => none

/-- The time. -/
def time? : Entry → Option Nat
  | .time present => some present
  | _ => none

/-- The code of the signal that changes. -/
def changed? : Entry → Option String
  | .change code _ => some code
  | _ => none

end Entry

/-- The declared codes. -/
def codes (entries : List Entry) : List String :=
  entries.filterMap Entry.code?

/-- The times. -/
def times (entries : List Entry) : List Nat :=
  entries.filterMap Entry.time?

/-- Behind scopes that are open, scopes are opened and closed in pairs up to the end, and signals are
    declared in scopes only. -/
def Nested : Nat → List Entry → Prop
  | depth, [] => depth = 0
  | depth, .scope _ :: rest => Nested (depth + 1) rest
  | depth, .upscope :: rest => 0 < depth ∧ Nested (depth - 1) rest
  | depth, .variable .. :: rest => 0 < depth ∧ Nested depth rest
  | depth, _ :: rest => Nested depth rest

/-- The changes of a dump: nothing, or the first time with the block of initial values, one for each
    code, and then times and changes. -/
def Unfolds (codes : List String) (changes : List Entry) : Prop :=
  changes = [] ∨ ∃ start initial later,
    changes = .time start :: .initial :: (initial ++ .stop :: later) ∧
    initial.map Entry.changed? = codes.map some ∧ ∀ entry ∈ later, entry.isStep = true

/-- A dump of well-formed text, as a viewer takes it. -/
structure WellFormed (entries : List Entry) : Prop where
  /-- Definitions come first and changes follow. -/
  parts : ∃ definitions changes, entries = definitions ++ .endDefinitions :: changes ∧
    (∀ entry ∈ definitions, entry.isDefinition = true) ∧ Nested 0 definitions ∧
    Unfolds (codes definitions) changes
  /-- The definitions end once. -/
  single : entries.count .endDefinitions = 1
  /-- No two signals share a code. -/
  distinct : (codes entries).Nodup
  /-- Time goes on from one to the next. -/
  increasing : (times entries).Pairwise (· < ·)
  /-- A change names a declared code and has a value of the declared width. -/
  declared : ∀ code value, .change code value ∈ entries →
    ∃ width name, .variable width code name ∈ entries ∧ value.normalise width = value

/-- The value of a signal after the changes up to a time, from its value before them. -/
def replay (code : String) (limit : Nat) : Option Signal → List Entry → Option Signal
  | present, [] => present
  | present, .time time :: rest => if time ≤ limit then replay code limit present rest else present
  | present, .change changed value :: rest =>
    replay code limit (if changed = code then some value else present) rest
  | present, _ :: rest => replay code limit present rest

section Frames

variable {signals : List DumpSignal} {interval : Nat} {before now : Display}
  {samples : List (Nat × Circuit)}

/-- A recorded change is one of a followed signal, with a value in the form of its width. -/
theorem exists_of_mem_changes {entry : Entry} (member : entry ∈ changes before now signals) :
    ∃ signal ∈ signals, ∃ value : Signal,
      entry = .change signal.code (value.normalise signal.width) := by
  obtain ⟨signal, followed, changed⟩ := List.mem_filterMap.mp member
  obtain ⟨value, _, rfl⟩ := Option.map_eq_some_iff.mp changed
  exact ⟨signal, followed, value, rfl⟩

/-- The changes at a recorded time are those of one sample. -/
theorem exists_of_mem_frames {frame : Nat × List Entry}
    (member : frame ∈ frames signals interval before samples) :
    ∃ before now, frame.2 = changes before now signals := by
  induction samples generalizing before with
  | nil => contradiction
  | cons sample samples inductionHypothesis =>
    obtain ⟨tick, circuit⟩ := sample
    rw [frames] at member
    split at member
    · exact inductionHypothesis member
    · rcases List.mem_cons.mp member with rfl | later
      · exact ⟨before, circuit.shown?, rfl⟩
      · exact inductionHypothesis later

/-- The recorded times are among those of the samples, in their order. -/
theorem times_frames_sublist :
    ((frames signals interval before samples).map Prod.fst).Sublist
      (samples.map fun sample => sample.1 * interval) := by
  induction samples generalizing before with
  | nil => exact .slnil
  | cons sample samples inductionHypothesis =>
    obtain ⟨tick, circuit⟩ := sample
    rw [frames]
    split
    · exact inductionHypothesis.cons _
    · exact inductionHypothesis.cons_cons _

/-- The entries for frames whose entries are changes have the times of the frames. -/
theorem times_listed {frames : List (Nat × List Entry)}
    (plain : ∀ frame ∈ frames, times frame.2 = []) : times (listed frames) = frames.map Prod.fst := by
  induction frames with
  | nil => rfl
  | cons frame frames inductionHypothesis =>
    obtain ⟨here, later⟩ := List.forall_mem_cons.mp plain
    have rest := inductionHypothesis later
    simp only [times, listed, List.flatMap_cons, List.filterMap_append] at here rest ⊢
    simp [here, rest, Entry.time?]

/-- Changes have no times. -/
theorem times_changes : times (changes before now signals) = [] := by
  refine List.filterMap_eq_nil_iff.mpr fun entry member => ?_
  obtain ⟨_, _, _, rfl⟩ := exists_of_mem_changes member
  rfl

/-- Changes of other signals do not act on a signal. -/
theorem replay_of_other {code : String} (limit : Nat) (present : Option Signal) (rest : List Entry)
    (other : ∀ signal ∈ signals, signal.code ≠ code) :
    replay code limit present (changes before now signals ++ rest) =
      replay code limit present rest := by
  induction signals with
  | nil => rfl
  | cons signal signals inductionHypothesis =>
    obtain ⟨here, later⟩ := List.forall_mem_cons.mp other
    cases new : changed? before now signal with
    | none => simpa [changes, new] using inductionHypothesis later
    | some value => simpa [changes, new, replay, here] using inductionHypothesis later

/-- The changes of a sample bring the value of a signal to what is known after it.

Proof: by induction on the signals, of which one only has the code. -/
theorem replay_changes (before now : Display)
    (distinct : (signals.map DumpSignal.code).Nodup) {signal : DumpSignal}
    (member : signal ∈ signals) (limit : Nat) (rest : List Entry) :
    replay signal.code limit ((before signal.node).map (Signal.normalise signal.width))
        (changes before now signals ++ rest) =
      replay signal.code limit ((known before now signal.node).map (Signal.normalise signal.width))
        rest := by
  induction signals with
  | nil => contradiction
  | cons first signals inductionHypothesis =>
    obtain ⟨fresh, distinct⟩ := List.nodup_cons.mp distinct
    rcases List.mem_cons.mp member with rfl | later
    · have other : ∀ later ∈ signals, later.code ≠ signal.code := fun later among same =>
        fresh (same ▸ List.mem_map_of_mem among)
      cases new : changed? before now signal with
      | none =>
        rw [known_of_unchanged new]
        simpa [changes, new] using replay_of_other limit _ rest other
      | some value =>
        rw [known_of_changed new]
        simpa [changes, new, replay] using replay_of_other limit _ rest other
    · have other : first.code ≠ signal.code := fun same => fresh (same ▸ List.mem_map_of_mem later)
      cases new : changed? before now first with
      | none => simpa [changes, new] using inductionHypothesis distinct later
      | some value => simpa [changes, new, replay, other] using inductionHypothesis distinct later

/-- Nothing is replayed of what happened later. -/
theorem replay_of_later {frames : List (Nat × List Entry)} {limit : Nat}
    (later : ∀ frame ∈ frames, limit < frame.1) (code : String) (present : Option Signal) :
    replay code limit present (listed frames) = present := by
  cases frames with
  | nil => rfl
  | cons frame frames =>
    have isLater := later frame List.mem_cons_self
    simp [listed, replay, Nat.not_le.mpr isLater]

/-- Up to the time of a sample the changes bring a signal to what is known after this sample.

Proof: by induction on the samples. Those before it are replayed in turn, those behind it are not
replayed. -/
theorem replay_frames (distinct : (signals.map DumpSignal.code).Nodup) {signal : DumpSignal}
    (member : signal ∈ signals)
    (increasing : (samples.map fun sample => sample.1 * interval).Pairwise (· < ·))
    (shown : ∀ sample ∈ samples, (sample.2.shown? signal.node).isSome = true)
    {sample : Nat × Circuit} (sampled : sample ∈ samples) :
    replay signal.code (sample.1 * interval)
        ((before signal.node).map (Signal.normalise signal.width))
        (listed (frames signals interval before samples)) =
      (sample.2.shown? signal.node).map (Signal.normalise signal.width) := by
  induction samples generalizing before with
  | nil => contradiction
  | cons first samples inductionHypothesis =>
    obtain ⟨tick, circuit⟩ := first
    obtain ⟨isLater, increasing⟩ := List.pairwise_cons.mp increasing
    obtain ⟨shownHere, shown⟩ := List.forall_mem_cons.mp shown
    have started : tick * interval ≤ sample.1 * interval := by
      rcases List.mem_cons.mp sampled with rfl | later
      · exact Nat.le_refl _
      · exact Nat.le_of_lt (isLater _ (List.mem_map_of_mem later))
    have step : replay signal.code (sample.1 * interval)
          ((before signal.node).map (Signal.normalise signal.width))
          (listed (frames signals interval before ((tick, circuit) :: samples))) =
        replay signal.code (sample.1 * interval)
          ((known before circuit.shown? signal.node).map (Signal.normalise signal.width))
          (listed (frames signals interval (known before circuit.shown?) samples)) := by
      have changed := replay_changes before circuit.shown? distinct member (sample.1 * interval)
        (listed (frames signals interval (known before circuit.shown?) samples))
      by_cases same : changes before circuit.shown? signals = []
      · simpa [frames, same] using changed
      · simpa [frames, same, listed, replay, started] using changed
    rw [step]
    rcases List.mem_cons.mp sampled with rfl | later
    · have behind : ∀ frame ∈ frames signals interval (known before circuit.shown?) samples,
          tick * interval < frame.1 := fun frame among =>
        isLater _ (times_frames_sublist.subset (List.mem_map_of_mem among))
      rw [replay_of_later behind]
      obtain ⟨value, shows⟩ := Option.isSome_iff_exists.mp shownHere
      simp only at shows
      simp [known, shows]
    · exact inductionHypothesis increasing shown later

/-- The mark behind the initial values does not act on a signal. -/
theorem replay_stop (code : String) (limit : Nat) (present : Option Signal)
    (front back : List Entry) :
    replay code limit present (front ++ .stop :: back) =
      replay code limit present (front ++ back) := by
  induction front generalizing present with
  | nil => rfl
  | cons entry front inductionHypothesis =>
    cases entry with
    | time time =>
      simp only [List.cons_append, replay]
      split
      · exact inductionHypothesis present
      · rfl
    | change changed value =>
      simp only [List.cons_append, replay]
      exact inductionHypothesis _
    | _ => exact inductionHypothesis present

/-- The marks around the initial values do not act on a signal. -/
theorem replay_recorded (code : String) (limit : Nat) (present : Option Signal)
    (frames : List (Nat × List Entry)) :
    replay code limit present (recorded frames) = replay code limit present (listed frames) := by
  cases frames with
  | nil => rfl
  | cons frame frames =>
    simp only [recorded, listed, List.flatMap_cons, List.cons_append, replay, replay_stop]

/-- Definitions do not act on a signal. -/
theorem replay_definitions (code : String) (limit : Nat) (present : Option Signal)
    {definitions : List Entry} (defines : ∀ entry ∈ definitions, entry.isDefinition = true)
    (rest : List Entry) :
    replay code limit present (definitions ++ rest) = replay code limit present rest := by
  induction definitions with
  | nil => rfl
  | cons entry definitions inductionHypothesis =>
    obtain ⟨here, later⟩ := List.forall_mem_cons.mp defines
    rw [← inductionHypothesis later]
    cases entry with
    | time | change => simp [Entry.isDefinition] at here
    | _ => rfl

end Frames

section Definitions

variable (circuit : Circuit) (scope : String)

/-- A declaration is that of a visible node. -/
theorem exists_of_mem_declarationsOf {items : List (NodeId × Node Circuit)} {entry : Entry}
    (member : entry ∈ declarationsOf items) : ∃ width code name, entry = .variable width code name := by
  obtain ⟨place, inside, rfl⟩ := List.mem_mapIdx.mp member
  exact ⟨_, _, _, rfl⟩

/-- The definitions hold definitions only. -/
theorem isDefinition_definitionsOf :
    ∀ entry ∈ definitionsOf circuit scope, entry.isDefinition = true := by
  intro entry member
  simp only [definitionsOf, List.mem_append, List.mem_cons, List.not_mem_nil, or_false] at member
  rcases member with ((rfl | rfl | rfl) | declaration) | rfl
  all_goals try rfl
  obtain ⟨_, _, _, rfl⟩ := exists_of_mem_declarationsOf declaration
  rfl

/-- Declarations may stand in a scope. -/
theorem nested_declarations {declarations : List Entry}
    (declares : ∀ entry ∈ declarations, ∃ width code name, entry = .variable width code name)
    {depth : Nat} (inScope : 0 < depth) {rest : List Entry} (goesOn : Nested depth rest) :
    Nested depth (declarations ++ rest) := by
  induction declarations with
  | nil => exact goesOn
  | cons entry declarations inductionHypothesis =>
    obtain ⟨⟨width, code, name, rfl⟩, later⟩ := List.forall_mem_cons.mp declares
    exact ⟨inScope, inductionHypothesis later⟩

/-- The declarations stand in the one scope, which is closed. -/
theorem nested_definitionsOf : Nested 0 (definitionsOf circuit scope) := by
  have closed : Nested 1 [.upscope] := ⟨Nat.one_pos, rfl⟩
  exact nested_declarations (fun _ => exists_of_mem_declarationsOf) Nat.one_pos closed

/-- The declared codes are those of the signals. -/
theorem codes_declarationsOf (items : List (NodeId × Node Circuit)) :
    codes (declarationsOf items) = (signalsOf items).map DumpSignal.code := by
  induction items using List.reverseRecOn with
  | nil => rfl
  | append_singleton items item inductionHypothesis =>
    simp only [declarationsOf, signalsOf, codes] at inductionHypothesis ⊢
    simp [inductionHypothesis, Entry.code?]

/-- The declared codes are those of the signals. -/
theorem codes_definitionsOf :
    codes (definitionsOf circuit scope) = (signalsOf circuit.visible).map DumpSignal.code := by
  rw [← codes_declarationsOf]
  simp [definitionsOf, codes, List.filterMap_cons, Entry.code?]

end Definitions

section Parts

variable {circuit : Circuit} {scope : String} {interval : Nat} {samples : List (Nat × Circuit)}

/-- If every node shows something at the first sample, the first changes are those of all signals. -/
theorem changes_of_shown {now : Display} {signals : List DumpSignal}
    (shown : ∀ signal ∈ signals, (now signal.node).isSome = true) :
    (changes (fun _ => none) now signals).map Entry.changed? =
      (signals.map DumpSignal.code).map some := by
  induction signals with
  | nil => rfl
  | cons signal signals inductionHypothesis =>
    obtain ⟨here, later⟩ := List.forall_mem_cons.mp shown
    obtain ⟨value, shows⟩ := Option.isSome_iff_exists.mp here
    have rest := inductionHypothesis later
    have new : changed? (fun _ => none) now signal = some value := by simp [changed?, shows]
    simp only [changes] at rest ⊢
    simp only [List.filterMap_cons, new, Option.map_some, List.map_cons, rest, Entry.changed?]

/-- The entries behind the first time are times and changes. -/
theorem isStep_listed {signals : List DumpSignal} {before : Display} :
    ∀ entry ∈ listed (frames signals interval before samples), entry.isStep = true := by
  intro entry member
  obtain ⟨frame, among, inFrame⟩ := List.mem_flatMap.mp member
  rcases List.mem_cons.mp inFrame with rfl | changed
  · rfl
  · obtain ⟨_, _, same⟩ := exists_of_mem_frames among
    obtain ⟨_, _, _, rfl⟩ := exists_of_mem_changes (same ▸ changed)
    rfl

/-- Where no signal is followed, nothing is recorded. -/
theorem frames_nil (before : Display) : frames [] interval before samples = [] := by
  induction samples generalizing before with
  | nil => rfl
  | cons sample samples inductionHypothesis => exact inductionHypothesis _

/-- What is recorded opens with the initial values of all signals. -/
theorem unfolds_recorded {signals : List DumpSignal}
    (shown : ∀ sample ∈ samples, ∀ signal ∈ signals, (sample.2.shown? signal.node).isSome = true) :
    Unfolds (signals.map DumpSignal.code)
      (recorded (frames signals interval (fun _ => none) samples)) := by
  cases samples with
  | nil => exact .inl rfl
  | cons sample samples =>
    obtain ⟨tick, circuit⟩ := sample
    have initial := changes_of_shown (shown _ List.mem_cons_self)
    by_cases same : changes (fun _ => none) circuit.shown? signals = []
    · have unfollowed : signals = [] := by simpa [same] using initial.symm
      rw [unfollowed, frames_nil]
      exact .inl rfl
    · rw [frames, if_neg same]
      exact .inr ⟨_, _, _, rfl, initial, isStep_listed⟩

/-- What is recorded are the changes and the marks around the initial values. -/
theorem mem_recorded {frames : List (Nat × List Entry)} {entry : Entry}
    (member : entry ∈ recorded frames) :
    entry = .initial ∨ entry = .stop ∨ entry ∈ listed frames := by
  cases frames with
  | nil => contradiction
  | cons frame frames =>
    simp only [recorded, listed, List.flatMap_cons, List.mem_cons, List.mem_append] at member ⊢
    tauto

/-- The marks around the initial values have no times. -/
theorem times_recorded (frames : List (Nat × List Entry)) :
    times (recorded frames) = times (listed frames) := by
  cases frames with
  | nil => rfl
  | cons frame frames => simp [recorded, listed, times, List.filterMap_cons, Entry.time?]

/-- Of what is recorded nothing declares a code or ends the definitions. -/
theorem not_definition_of_mem_recorded {signals : List DumpSignal} {before : Display} {entry : Entry}
    (member : entry ∈ recorded (frames signals interval before samples)) :
    entry.code? = none ∧ entry ≠ .endDefinitions := by
  rcases mem_recorded member with rfl | rfl | among
  · exact ⟨rfl, nofun⟩
  · exact ⟨rfl, nofun⟩
  · have step := isStep_listed entry among
    cases entry with
    | time | change => exact ⟨rfl, nofun⟩
    | _ => simp [Entry.isStep] at step

/-- Every signal of a list of nodes is declared. -/
theorem exists_declaration {items : List (NodeId × Node Circuit)} {signal : DumpSignal}
    (member : signal ∈ signalsOf items) :
    ∃ name, .variable signal.width signal.code name ∈ declarationsOf items := by
  obtain ⟨place, inside, rfl⟩ := List.mem_mapIdx.mp member
  exact ⟨_, List.mem_mapIdx.mpr ⟨place, inside, rfl⟩⟩

/-- The declared codes are those of the signals. -/
theorem codes_entriesOf : codes (entriesOf circuit scope interval samples) =
    (signalsOf circuit.visible).map DumpSignal.code := by
  have behind : codes (recorded (framesOf circuit interval samples)) = [] :=
    List.filterMap_eq_nil_iff.mpr fun entry member => (not_definition_of_mem_recorded member).1
  rw [entriesOf, codes, List.filterMap_append, List.filterMap_cons_none rfl, ← codes, ← codes, behind,
    List.append_nil, codes_definitionsOf]

/-- The times are those of the samples with a change. -/
theorem times_entriesOf : times (entriesOf circuit scope interval samples) =
    (framesOf circuit interval samples).map Prod.fst := by
  have before : times (definitionsOf circuit scope) = [] :=
    List.filterMap_eq_nil_iff.mpr fun entry member => by
      have defines := isDefinition_definitionsOf circuit scope entry member
      cases entry with
      | time => contradiction
      | _ => rfl
  rw [entriesOf, times, List.filterMap_append, List.filterMap_cons_none rfl, ← times, ← times, before,
    List.nil_append, times_recorded, times_listed]
  intro frame member
  obtain ⟨_, _, same⟩ := exists_of_mem_frames member
  rw [same, times_changes]

/-- The definitions end once. -/
theorem count_endDefinitions_entriesOf :
    (entriesOf circuit scope interval samples).count .endDefinitions = 1 := by
  have before : Entry.endDefinitions ∉ definitionsOf circuit scope := fun member => by
    have defines := isDefinition_definitionsOf circuit scope _ member
    contradiction
  have behind : Entry.endDefinitions ∉ recorded (framesOf circuit interval samples) :=
    fun member => (not_definition_of_mem_recorded member).2 rfl
  rw [entriesOf, List.count_append, List.count_cons_self, List.count_eq_zero.mpr before,
    List.count_eq_zero.mpr behind]

/-- A change names a declared code and has a value of the declared width. -/
theorem declared_of_mem_entriesOf {code : String} {value : Signal}
    (member : .change code value ∈ entriesOf circuit scope interval samples) :
    ∃ width name, .variable width code name ∈ entriesOf circuit scope interval samples ∧
      value.normalise width = value := by
  have behind : .change code value ∈ listed (framesOf circuit interval samples) := by
    rcases List.mem_append.mp member with before | behind
    · have defines := isDefinition_definitionsOf circuit scope _ before
      contradiction
    · simpa using mem_recorded ((List.mem_cons.mp behind).resolve_left nofun)
  obtain ⟨frame, among, inFrame⟩ := List.mem_flatMap.mp behind
  obtain ⟨_, _, same⟩ := exists_of_mem_frames among
  have changed := (List.mem_cons.mp inFrame).resolve_left nofun
  obtain ⟨signal, followed, shown, here⟩ := exists_of_mem_changes (same ▸ changed)
  obtain ⟨rfl, rfl⟩ := Entry.change.inj here
  obtain ⟨name, declares⟩ := exists_declaration followed
  refine ⟨signal.width, name, ?_, Signal.normalise_normalise ..⟩
  simp [entriesOf, definitionsOf, declares]

/-- The entries for a circuit none of whose visible nodes is gone are those of a well-formed dump. -/
theorem wellFormed_entriesOf
    (increasing : (samples.map fun sample => sample.1 * interval).Pairwise (· < ·))
    (shown : ∀ sample ∈ samples, ∀ signal ∈ signalsOf circuit.visible,
      (sample.2.shown? signal.node).isSome = true) :
    WellFormed (entriesOf circuit scope interval samples) where
  parts := ⟨_, _, rfl, isDefinition_definitionsOf circuit scope, nested_definitionsOf circuit scope,
    codes_definitionsOf circuit scope ▸ unfolds_recorded shown⟩
  single := count_endDefinitions_entriesOf
  distinct := by
    rw [codes_entriesOf]
    exact nodup_codes_signalsOf circuit.visible
  increasing := by
    rw [times_entriesOf]
    exact increasing.sublist times_frames_sublist
  declared _ _ member := declared_of_mem_entriesOf member

/-- The declarations are those of the visible nodes. -/
theorem variables_entriesOf : (entriesOf circuit scope interval samples).filter Entry.isVariable =
    declarationsOf circuit.visible := by
  have declarations : (declarationsOf circuit.visible).filter Entry.isVariable =
      declarationsOf circuit.visible :=
    List.filter_eq_self.mpr fun entry member => by
      obtain ⟨_, _, _, rfl⟩ := exists_of_mem_declarationsOf member
      rfl
  have behind : (recorded (framesOf circuit interval samples)).filter Entry.isVariable = [] :=
    List.filter_eq_nil_iff.mpr fun entry member => by
      have undeclared := (not_definition_of_mem_recorded member).1
      cases entry with
      | «variable» => contradiction
      | _ => exact nofun
  simp [entriesOf, definitionsOf, declarations, behind, Entry.isVariable]

/-- Replaying the entries up to the time of a sample gives what a visible node showed then. -/
theorem replay_entriesOf
    (increasing : (samples.map fun sample => sample.1 * interval).Pairwise (· < ·))
    {signal : DumpSignal} (member : signal ∈ signalsOf circuit.visible)
    (shown : ∀ sample ∈ samples, (sample.2.shown? signal.node).isSome = true)
    {sample : Nat × Circuit} (sampled : sample ∈ samples) :
    replay signal.code (sample.1 * interval) none (entriesOf circuit scope interval samples) =
      (sample.2.shown? signal.node).map (Signal.normalise signal.width) := by
  rw [entriesOf, replay_definitions _ _ _ (isDefinition_definitionsOf circuit scope)]
  refine (replay_recorded _ _ none _).trans ?_
  exact @replay_frames _ interval (fun _ => none) samples (nodup_codes_signalsOf circuit.visible) _
    member increasing shown _ sampled

end Parts

end Dump

namespace Tracer

open Dump

/-- A trace loses nothing. Take any circuit and any samples of it at increasing ticks, in a scope whose
name is one word, and let every visible node show something at every sample, as it does unless it is
gone. Then a well-formed dump is written, with one declaration for each visible node; and for each of
them the changes up to the time of a sample end with what the node showed then, in the form of its
declared width. -/
theorem waveform_faithful (circuit : Circuit) {scope : String} (word : Text.IsWord scope.toList)
    {interval : Nat} (positive : 0 < interval) {samples : List (Nat × Circuit)}
    (increasing : (samples.map Prod.fst).Pairwise (· < ·))
    (inRange : ∀ sample ∈ samples, sample.1 * interval < wordLimit)
    (shown : ∀ sample ∈ samples, ∀ item ∈ circuit.visible,
      (sample.2.shown? item.1).isSome = true) :
    ∃ text entries, waveform circuit scope interval samples = .ok text ∧
      read? text = some entries ∧ WellFormed entries ∧
      entries.filter Entry.isVariable = declarationsOf circuit.visible ∧
      ∀ place id node, circuit.visible[place]? = some (id, node) → ∀ sample ∈ samples,
        ∃ value, sample.2.shown? id = some value ∧
          replay (String.ofList (codeOf place)) (sample.1 * interval) none entries =
            some (value.normalise node.traceWidth) := by
  have growing : (samples.map fun sample => sample.1 * interval).Pairwise (· < ·) := by
    rw [List.pairwise_map] at increasing ⊢
    exact increasing.imp fun less => Nat.mul_lt_mul_of_pos_right less positive
  have followed : ∀ sample ∈ samples, ∀ signal ∈ signalsOf circuit.visible,
      (sample.2.shown? signal.node).isSome = true := by
    intro sample sampled signal member
    obtain ⟨place, inside, rfl⟩ := List.mem_mapIdx.mp member
    exact shown sample sampled _ (List.getElem_mem inside)
  obtain ⟨text, written, reads⟩ := waveform_eq circuit word growing inRange
  refine ⟨text, _, written, reads.read?, wellFormed_entriesOf growing followed, variables_entriesOf,
    fun place id node found sample sampled => ?_⟩
  obtain ⟨inside, here⟩ := List.getElem?_eq_some_iff.mp found
  have member : (⟨id, String.ofList (codeOf place), node.traceWidth⟩ : DumpSignal) ∈
      signalsOf circuit.visible := List.mem_mapIdx.mpr ⟨place, inside, by rw [here]⟩
  obtain ⟨value, shows⟩ := Option.isSome_iff_exists.mp (followed sample sampled _ member)
  refine ⟨value, shows, ?_⟩
  rw [replay_entriesOf growing member (fun sample sampled => followed sample sampled _ member) sampled,
    shows, Option.map_some]

/-- A circuit of one light. -/
def lamp (lit : Bool) : Circuit :=
  ⟨⟨[some (.ofPart (.light lit))]⟩, [], 0⟩

/-- A light that is dark at the first sample and lit at the second one, two ticks later. -/
def lampSamples : List (Nat × Circuit) :=
  [(0, lamp false), (2, lamp true)]

/-- The light is one signal of the dump, which is clear at the first sample and set at the second one. -/
theorem lamp_traced :
    Text.IsWord "board".toList ∧ 0 < 50 ∧ (lampSamples.map Prod.fst).Pairwise (· < ·) ∧
    (∀ sample ∈ lampSamples, sample.1 * 50 < wordLimit) ∧
    (∀ sample ∈ lampSamples, ∀ item ∈ (lamp false).visible,
      (sample.2.shown? item.1).isSome = true) ∧
    ∃ text entries, waveform (lamp false) "board" 50 lampSamples = .ok text ∧
      read? text = some entries ∧ WellFormed entries ∧
      entries.filter Entry.isVariable = [.variable 1 "!" "Light_n0"] ∧
      replay "!" 0 none entries = some (.bit false) ∧
      replay "!" 100 none entries = some (.bit true) := by
  have word : Text.IsWord "board".toList := by decide
  have positive : 0 < 50 := by decide
  have increasing : (lampSamples.map Prod.fst).Pairwise (· < ·) := by decide
  have inRange : ∀ sample ∈ lampSamples, sample.1 * 50 < wordLimit := by decide
  have shown : ∀ sample ∈ lampSamples, ∀ item ∈ (lamp false).visible,
      (sample.2.shown? item.1).isSome = true := by decide
  obtain ⟨text, entries, written, reads, wellFormed, declared, replayed⟩ :=
    waveform_faithful (lamp false) word positive increasing inRange shown
  have code : String.ofList (codeOf 0) = "!" := by decide +kernel
  have light := replayed 0 0 (.ofPart (.light false)) rfl
  rw [code] at light
  obtain ⟨_, dark, first⟩ := light (0, lamp false) (by simp [lampSamples])
  obtain ⟨_, lit, second⟩ := light (2, lamp true) (by simp [lampSamples])
  obtain rfl := Option.some.inj dark
  obtain rfl := Option.some.inj lit
  refine ⟨word, positive, increasing, inRange, shown, text, entries, written, reads, wellFormed,
    declared.trans (by decide +kernel), first, second⟩

/-- A scope whose name has blanks can end the definitions early: the dump is read, but it ends them
twice, and the declaration of the light stands behind their first end. -/
theorem lamp_endsDefinitionsTwice :
    0 < 50 ∧ (0 : Nat) * 50 < wordLimit ∧ ((lamp false).shown? 0).isSome = true ∧
    ∃ text entries,
      waveform (lamp false) "board $end $enddefinitions" 50 [(0, lamp false)] = .ok text ∧
      read? text = some entries ∧ entries.count .endDefinitions = 2 ∧ ¬WellFormed entries := by
  refine ⟨by decide, by decide, by decide, _, [.version ["gatesim", "0.1.0"], .timescale ["1ms"],
    .scope "board", .endDefinitions, .variable 1 "!" "Light_n0", .upscope, .endDefinitions, .time 0,
    .initial, .change "!" (.bit false), .stop], rfl, by decide +kernel, by decide, fun wellFormed => ?_⟩
  have single := wellFormed.single
  contradiction

end Tracer

end Breadboard
