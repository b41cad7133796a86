import Breadboard.Frequency

/-!
# Oscillators

A free-running oscillator counts external ticks and toggles when its count reaches half a period. It
drives its output only while it runs. The count is a 64-bit number; counting past its end is a
fault, which leaves the oscillator as it was.
-/

namespace Breadboard

/-- What makes the engine give up a tick. -/
inductive Fault where
  /-- A count went past the largest 64-bit number by an addition. -/
  | countOverflow
  /-- A time went past the largest 64-bit number by a multiplication. -/
  | timeOverflow
  /-- A depth went past the largest 32-bit number by an addition. -/
  | depthOverflow
deriving DecidableEq

/-- The report of a fault. -/
def Fault.message : Fault → String
  | .countOverflow => "attempt to add with overflow"
  | .timeOverflow => "attempt to multiply with overflow"
  | .depthOverflow => "attempt to add with overflow"

/-- The state of an oscillator. -/
structure Oscillator where
  frequency : Frequency
  /-- Whether it counts ticks and drives its output. -/
  running : Bool
  /-- The phase, which toggles. -/
  state : Bool
  /-- External ticks since the last toggle. -/
  tick : Nat

namespace Oscillator

/-- A running oscillator of one hertz in its low phase. -/
def initial : Oscillator :=
  ⟨⟨1.0⟩, true, false, 0⟩

/-- The value at the output: the phase while running, low otherwise. -/
def output (o : Oscillator) : Bool :=
  o.running && o.state

/-- The oscillator with its count raised by one, or toggled and its count at zero where that makes
    half a period. -/
def count (o : Oscillator) (interval : Nat) : Oscillator :=
  if o.frequency.halfPeriod interval ≤ o.tick + 1 then { o with tick := 0, state := !o.state }
  else { o with tick := o.tick + 1 }

/-- Advances an oscillator by one external tick. A stopped one stays as it is. -/
def advance (o : Oscillator) (interval : Nat) : Except Fault Oscillator :=
  if !o.running then .ok o
  else if o.tick + 1 < wordLimit then .ok (o.count interval)
  else .error .countOverflow

/-- Starts or stops the oscillator. -/
def toggleRunning (o : Oscillator) : Oscillator :=
  { o with running := !o.running }

/-- The slowest and the fastest frequency that stepping reaches. -/
def slowest : Frequency := ⟨0.5⟩
@[inherit_doc slowest]
def fastest : Frequency := ⟨10.0⟩

/-- The frequency moved by some hertz and kept within the range of stepping. -/
def shiftFrequency (o : Oscillator) (hertz : Float) : Oscillator :=
  let moved : Frequency := ⟨o.frequency.hertz + hertz⟩
  { o with frequency := (moved.clamp? slowest fastest).getD moved }

/-- One step faster. -/
def faster (o : Oscillator) : Oscillator :=
  o.shiftFrequency 0.5

/-- One step slower. -/
def slower (o : Oscillator) : Oscillator :=
  o.shiftFrequency (-0.5)

end Oscillator

end Breadboard
