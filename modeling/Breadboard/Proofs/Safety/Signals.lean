import Breadboard.Engine.Settle

/-!
# Checks on signals and nodes

Arithmetic on machine numbers checks itself: a shift is less than sixty-four places, a difference does
not fall below zero, a sum does not pass the end of its type, and the union of two buses asks for equal
widths. Here every operation on signals, and every step of a primitive component, is put together with
the checks that it makes. None of them ever fails, because the type of buses bounds their widths and
guards stand before the shifts.
-/

namespace Breadboard

/-- All checks of a fold hold, each in the state that the fold has reached. -/
def foldSafe {σ α : Type} (step : σ → α → σ) (safe : σ → α → Bool) : σ → List α → Bool
  | _, [] => true
  | state, item :: rest => safe state item && foldSafe step safe (step state item) rest

/-- A fold is safe if an invariant of its states makes every check hold.

Proof: by induction on the items. -/
theorem foldSafe_of_invariant {σ α : Type} {step : σ → α → σ} {safe : σ → α → Bool}
    (holds : σ → Prop) {items : List α}
    (each : ∀ state, holds state → ∀ item ∈ items, safe state item = true ∧ holds (step state item))
    {state : σ} (start : holds state) : foldSafe step safe state items = true := by
  induction items generalizing state with
  | nil => rfl
  | cons item rest inductionHypothesis =>
    obtain ⟨isSafe, later⟩ := each state start item List.mem_cons_self
    rw [foldSafe, isSafe, Bool.true_and]
    exact inductionHypothesis
      (fun state here item member => each state here item (List.mem_cons_of_mem _ member)) later

/-- A fold is safe if every check holds in every state. -/
theorem foldSafe_of_forall {σ α : Type} {step : σ → α → σ} {safe : σ → α → Bool}
    (each : ∀ state item, safe state item = true) (state : σ) (items : List α) :
    foldSafe step safe state items = true :=
  foldSafe_of_invariant (fun _ => True) (fun state _ item _ => ⟨each state item, trivial⟩) trivial

/-- A mask of all sixty-four bits is given; any other one is made from a shifted bit, less one. -/
def maskSafe (width : Nat) : Bool :=
  64 ≤ width || (width < 64 && 1 ≤ bitWeight width)

@[simp] theorem maskSafe_eq (width : Nat) : maskSafe width = true := by
  have positive : 1 ≤ bitWeight width := Nat.two_pow_pos width
  simp only [maskSafe, Bool.or_eq_true, Bool.and_eq_true, decide_eq_true_eq]
  omega

namespace Bus

/-- The low bits of a number are masked out. -/
def ofNatSafe (width : Nat) : Bool :=
  maskSafe (clampWidth width)

/-- Only a set bit is copied by a mask. -/
def splatSafe (width : Nat) (bit : Bool) : Bool :=
  !bit || maskSafe (clampWidth width)

/-- A bit within the width is read or written by a shift. -/
def bitSafe (bus : Bus) (index : Nat) : Bool :=
  !(index < bus.width) || index < 64

/-- Bits from an offset on are shifted down, unless there are none, and masked out. -/
def sliceSafe (offset width : Nat) : Bool :=
  (64 ≤ offset || offset < 64) && ofNatSafe width

/-- Widths are added as numbers of 32 bits, and the upper bits are shifted, unless there are none. -/
def appendSafe (low high : Bus) : Bool :=
  low.width + high.width < handleLimit && (64 ≤ low.width || low.width < 64) &&
    ofNatSafe (low.width + high.width)

/-- The union asks for equal widths. -/
def orSafe (left right : Bus) : Bool :=
  left.width == right.width

@[simp] theorem ofNatSafe_eq (width : Nat) : ofNatSafe width = true :=
  maskSafe_eq _

@[simp] theorem splatSafe_eq (width : Nat) (bit : Bool) : splatSafe width bit = true := by
  simp [splatSafe]

@[simp] theorem bitSafe_eq (bus : Bus) (index : Nat) : bus.bitSafe index = true := by
  have bounded : bus.width ≤ 64 := bus.width_le
  simp only [bitSafe, Bool.or_eq_true, Bool.not_eq_true', decide_eq_false_iff_not, decide_eq_true_eq]
  omega

@[simp] theorem sliceSafe_eq (offset width : Nat) : sliceSafe offset width = true := by
  simp only [sliceSafe, ofNatSafe_eq, Bool.and_true, Bool.or_eq_true, decide_eq_true_eq]
  omega

@[simp] theorem appendSafe_eq (low high : Bus) : low.appendSafe high = true := by
  have lowBounded : low.width ≤ 64 := low.width_le
  have highBounded : high.width ≤ 64 := high.width_le
  have room : 128 < handleLimit := by decide
  simp only [appendSafe, ofNatSafe_eq, Bool.and_true, Bool.and_eq_true, Bool.or_eq_true,
    decide_eq_true_eq]
  omega

end Bus

namespace Signal

/-- A bus is read at its most significant bit. -/
def toBoolSafe : Signal → Bool
  | .bit _ => true
  | .bus value => value.bitSafe (value.width - 1)

/-- A bit is copied to every position, a bus is cut off or filled up. -/
def toBusSafe (width : Nat) : Signal → Bool
  | .bit value => Bus.splatSafe width value
  | .bus _ => Bus.ofNatSafe width

/-- The checks of bringing a signal into the form of a width. -/
def normaliseSafe (width : Nat) (signal : Signal) : Bool :=
  if width ≤ 1 then signal.toBoolSafe else signal.toBusSafe width

/-- The checks of the wired or: the second bit is read only if the first is clear, and the union of
buses asks for equal widths. -/
def mergeSafe (width : Nat) (left right : Signal) : Bool :=
  if width ≤ 1 then left.toBoolSafe && (left.toBool || right.toBoolSafe)
  else left.toBusSafe width && right.toBusSafe width && (left.toBus width).orSafe (right.toBus width)

@[simp] theorem toBoolSafe_eq (signal : Signal) : signal.toBoolSafe = true := by
  cases signal with
  | bit value => rfl
  | bus value => exact value.bitSafe_eq _

@[simp] theorem toBusSafe_eq (width : Nat) (signal : Signal) : signal.toBusSafe width = true := by
  cases signal with
  | bit value => exact Bus.splatSafe_eq width value
  | bus value => exact Bus.ofNatSafe_eq width

@[simp] theorem normaliseSafe_eq (width : Nat) (signal : Signal) :
    signal.normaliseSafe width = true := by
  simp [normaliseSafe]

/-- The union within a wired or is one of buses of the same width, that of the net. -/
@[simp] theorem mergeSafe_eq (width : Nat) (left right : Signal) :
    left.mergeSafe width right = true := by
  simp [mergeSafe, Bus.orSafe]

end Signal

namespace PortMap

/-- An input is read as a single bit, if there is a signal. -/
def bitSafe (inputs : PortMap) (port : String) : Bool :=
  ((inputs.get? port).map Signal.toBoolSafe).getD true

/-- The lanes of a bus are there; a single bit is written to the lowest lane. -/
def lanesSafe (inputs : PortMap) (port : String) : Bool :=
  match inputs.get? port with
  | some (.bus _) => true
  | _ => (Bus.zero 1).bitSafe 0

/-- The place of a lane, counted from the other end, is a difference of differences. -/
def laneSafe (lanes : LaneCount) (lane : Nat) : Bool :=
  1 ≤ lanes.lanes && lane ≤ lanes.lanes - 1

@[simp] theorem bitSafe_eq (inputs : PortMap) (port : String) : inputs.bitSafe port = true := by
  unfold bitSafe
  cases inputs.get? port <;> simp

@[simp] theorem lanesSafe_eq (inputs : PortMap) (port : String) : inputs.lanesSafe port = true := by
  unfold lanesSafe
  split <;> simp

/-- The lanes of a merge or a split have places. -/
theorem laneSafe_of_lt {lanes : LaneCount} {lane : Nat} (inside : lane < lanes.lanes) :
    laneSafe lanes lane = true := by
  simp only [laneSafe, Bool.and_eq_true, decide_eq_true_eq]
  omega

end PortMap

namespace Node

/-- The checks of a step of a primitive component. -/
def stepSafe (node : Node Circuit) : Bool :=
  let inputs := node.inputs
  match node.part with
  | .inputPin width state => state.normaliseSafe width.bits
  | .light _ => inputs.bitSafe "in"
  | .gate .not => inputs.bitSafe "in"
  | .gate _ => inputs.bitSafe "a" && inputs.bitSafe "b"
  | .triBuffer => inputs.bitSafe "en" && (!inputs.bitAt "en" || inputs.bitSafe "in")
  | .merge lanes =>
    (mergePorts lanes).zipIdx.all fun lane =>
      PortMap.laneSafe lanes lane.2 && inputs.bitSafe lane.1 &&
        (Bus.zero lanes.lanes).bitSafe (lanes.lanes - 1 - lane.2)
  | .split lanes =>
    inputs.lanesSafe "in" && (splitPorts lanes).zipIdx.all fun lane =>
      PortMap.laneSafe lanes lane.2 && (inputs.lanesAt "in").bitSafe (lanes.lanes - 1 - lane.2)
  | .resize .eightToFour => inputs.lanesSafe "in" && Bus.sliceSafe 4 4 && Bus.sliceSafe 0 4
  | .resize .fourToEight =>
    inputs.lanesSafe "low" && inputs.lanesSafe "high" && Bus.ofNatSafe 4 &&
      ((inputs.lanesAt "low").resize 4).appendSafe ((inputs.lanesAt "high").resize 4)
  | .sevenSegment _ => segmentPorts.all inputs.bitSafe
  | _ => true

/-- The checks of staging a signal: signals of two nets on one input merge. -/
def receiveSafe (node : Node Circuit) (port : String) (width : Nat) (signal : Signal) : Bool :=
  match node.inputs.get? port with
  | some present => present.mergeSafe width signal
  | none => true

/-- The checks of driving an internal pin of a chip. -/
def driveSafe (signal : Option Signal) (node : Node Circuit) : Bool :=
  let driven := signal.getD (.zero node.pinWidth)
  match node.part with
  | .inputPin width _ => driven.normaliseSafe width.bits
  | .switch _ => driven.toBoolSafe
  | _ => true

/-- No step of a primitive component fails a check. -/
@[simp] theorem stepSafe_eq (node : Node Circuit) : node.stepSafe = true := by
  have placed {ports : List String} {lanes : LaneCount} (count : ports.length = lanes.lanes)
      (lane : String × Nat) (member : lane ∈ ports.zipIdx) : PortMap.laneSafe lanes lane.2 = true := by
    have inside := List.snd_lt_of_mem_zipIdx member
    exact PortMap.laneSafe_of_lt (by omega)
  unfold stepSafe
  cases node.part with
  | gate function => cases function <;> simp
  | merge lanes =>
    refine List.all_eq_true.mpr fun lane member => ?_
    rw [placed (by simp [mergePorts]) lane member]
    simp
  | split lanes =>
    simp only [PortMap.lanesSafe_eq, Bool.true_and]
    refine List.all_eq_true.mpr fun lane member => ?_
    rw [placed (by simp [splitPorts]) lane member]
    simp
  | resize direction => cases direction <;> simp
  | _ => simp

/-- No signal that is staged fails a check. -/
@[simp] theorem receiveSafe_eq (node : Node Circuit) (port : String) (width : Nat) (signal : Signal) :
    node.receiveSafe port width signal = true := by
  unfold receiveSafe
  cases node.inputs.get? port <;> simp

/-- No internal pin that is driven fails a check. -/
@[simp] theorem driveSafe_eq (signal : Option Signal) (node : Node Circuit) :
    node.driveSafe signal = true := by
  unfold driveSafe
  cases node.part <;> simp

end Node

end Breadboard
