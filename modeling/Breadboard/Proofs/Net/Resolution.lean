import Breadboard.Proofs.Net.Seats
import Breadboard.Proofs.Signal.Bits

/-!
# The wired or of a net

What is on a net is told bit by bit: a bit is set exactly if some source drives a signal that contributes
it. So it does not matter in which order a net lists its sources and how often it lists one. The signal has
the form of the net's width, which is never less than one bit on a net of a circuit.
-/

namespace Breadboard.Net

variable {width place : Nat}

/-- Some source of the net drives a signal that contributes the bit at a place. -/
def IsLit (net : Net) (circuit : Circuit) (place : Nat) : Prop :=
  ∃ source ∈ net.sources, ∃ signal, driven? circuit source = some signal ∧
    signal.contribution net.width place = true

/-- Signals that are merged one after the other have the form of the width. -/
theorem hasForm_foldl_merge (width : Nat) (signals : List Signal) :
    (signals.foldl (fun (total : Signal) signal => total.merge width signal) (.zero width)).HasForm width := by
  induction signals using List.reverseRecOn with
  | nil => exact Signal.hasForm_zero width
  | append_singleton signals last _ =>
    rw [List.foldl_append]
    exact Signal.hasForm_merge width _ last

/-- Signals that are merged one after the other have the bits that any of them contributes.

Proof: by induction on the signals, from the last one. What was merged before has the form of the width,
so it contributes its own bits. -/
theorem bitAt_foldl_merge (inside : place < clampWidth width) (signals : List Signal) :
    (signals.foldl (fun (total : Signal) signal => total.merge width signal) (.zero width)).bitAt place =
      signals.any (Signal.contribution width place) := by
  induction signals using List.reverseRecOn with
  | nil =>
    have clear := Signal.contribution_zero inside
    rwa [(Signal.hasForm_zero width).contribution inside] at clear
  | append_singleton signals last inductionHypothesis =>
    rw [List.foldl_append, List.foldl_cons, List.foldl_nil, Signal.bitAt_merge inside,
      (hasForm_foldl_merge width signals).contribution inside, inductionHypothesis, List.any_append,
      List.any_cons, List.any_nil, Bool.or_false]

variable (net : Net) (circuit : Circuit)

/-- What is on a net has the form of its width. -/
theorem hasForm_resolve : (net.resolve circuit).HasForm net.width :=
  hasForm_foldl_merge net.width _

variable {net circuit}

/-- A bit of what is on a net is set exactly if some source contributes it. -/
theorem bitAt_resolve_iff (inside : place < clampWidth net.width) :
    (net.resolve circuit).bitAt place = true ↔ net.IsLit circuit place := by
  simp only [resolve, bitAt_foldl_merge inside, List.any_eq_true, List.mem_filterMap, IsLit]
  constructor
  · rintro ⟨signal, ⟨source, listed, drives⟩, contributes⟩
    exact ⟨source, listed, signal, drives, contributes⟩
  · rintro ⟨source, listed, signal, drives, contributes⟩
    exact ⟨signal, ⟨source, listed, drives⟩, contributes⟩

/-- What is on a net is told by its width and by which sources it has. -/
theorem resolve_congr {other : Net} (width : other.width = net.width)
    (sources : ∀ source, source ∈ other.sources ↔ source ∈ net.sources) :
    other.resolve circuit = net.resolve circuit := by
  have form := hasForm_resolve other circuit
  rw [width] at form
  refine form.ext (hasForm_resolve net circuit) fun place inside => ?_
  rw [Bool.eq_iff_iff, bitAt_resolve_iff (width ▸ inside), bitAt_resolve_iff inside, IsLit, IsLit, width]
  exact exists_congr fun source => and_congr_left fun _ => sources source

/-- The net carries a bit, set if some source contributes it; or, if it is wider, a bus of its width as
far as buses go, each bit of which is set if some source contributes it. -/
def CarriesWiredOr (net : Net) (circuit : Circuit) : Prop :=
  (net.width ≤ 1 ∧ ∃ value, net.resolve circuit = .bit value ∧ (value = true ↔ net.IsLit circuit 0)) ∨
  (1 < net.width ∧ ∃ lanes, net.resolve circuit = .bus lanes ∧ lanes.width = min net.width maxBusWidth ∧
    ∀ place < lanes.width, lanes.get place = true ↔ net.IsLit circuit place)

/-- Every net carries the wired or of its sources. -/
theorem carriesWiredOr (net : Net) (circuit : Circuit) : net.CarriesWiredOr circuit := by
  have form := hasForm_resolve net circuit
  rw [Signal.HasForm, Signal.normalise] at form
  by_cases narrow : net.width ≤ 1
  · rw [if_pos narrow] at form
    have only : 0 < clampWidth net.width := one_le_clampWidth net.width
    refine .inl ⟨narrow, _, form.symm, ?_⟩
    rw [← bitAt_resolve_iff only, ← form]
    simp [Signal.bitAt, Signal.toBool]
  · rw [if_neg narrow] at form
    have wide : clampWidth net.width = min net.width maxBusWidth := by
      simp only [clampWidth, maxBusWidth]
      omega
    refine .inr ⟨Nat.lt_of_not_le narrow, _, form.symm, (Signal.toBus_width ..).trans wide,
      fun place inside => ?_⟩
    rw [Signal.toBus_width] at inside
    rw [← bitAt_resolve_iff inside]
    conv_rhs => rw [← form]
    rfl

/-- The wired or law. Every net carries a bit if it is one bit wide and otherwise a bus of its width, in
which exactly the bits are set that some source contributes. The nets of a circuit are at least one bit
wide; nets of one width with the same sources, in any order and repeated or not, carry the same; and at
every width merging is commutative, associative and idempotent, with the clear signal as neutral one, up
to the form of the width. -/
theorem wired_or_law :
    (∀ (net : Net) (circuit : Circuit), net.CarriesWiredOr circuit) ∧
    (∀ circuit, ∀ net ∈ (Netlist.build circuit).nets, 1 ≤ net.width) ∧
    (∀ (net other : Net) (circuit : Circuit), other.width = net.width →
      (∀ source, source ∈ other.sources ↔ source ∈ net.sources) →
        other.resolve circuit = net.resolve circuit) ∧
    ∀ width, Signal.MergesAt width := by
  refine ⟨carriesWiredOr, fun circuit net onList => ?_, fun _ _ _ => resolve_congr, Signal.mergesAt⟩
  exact ((Circuit.seatsTerminals_build circuit).wide net onList).2 (.inl rfl)

end Breadboard.Net
