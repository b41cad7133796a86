import Breadboard.Signal.Bus

/-!
# Seven-segment displays

The lit segments of a display, in the order of its ports: clockwise from the top, then the middle
and the decimal point. The whole display is shown as one bus with the top segment at bit zero.
-/

namespace Breadboard

/-- The lit segments. -/
structure Segments where
  a : Bool
  b : Bool
  c : Bool
  d : Bool
  e : Bool
  f : Bool
  g : Bool
  /-- The decimal point. -/
  dp : Bool
deriving DecidableEq

namespace Segments

/-- No segment is lit. -/
def dark : Segments :=
  ⟨false, false, false, false, false, false, false, false⟩

/-- The segments told by a function of their port names. -/
def ofPorts (lit : String → Bool) : Segments :=
  ⟨lit "a", lit "b", lit "c", lit "d", lit "e", lit "f", lit "g", lit "dp"⟩

/-- The segments in the order of the ports. -/
def toList (segments : Segments) : List Bool :=
  [segments.a, segments.b, segments.c, segments.d, segments.e, segments.f, segments.g, segments.dp]

/-- The segments of a list in the order of the ports; missing ones are dark. -/
def ofList (lit : List Bool) : Segments :=
  let bit (index : Nat) := lit.getD index false
  ⟨bit 0, bit 1, bit 2, bit 3, bit 4, bit 5, bit 6, bit 7⟩

/-- The segments as a bus of eight bits. -/
def toBus (segments : Segments) : Bus :=
  Bus.ofBits segments.toList

end Segments

end Breadboard
