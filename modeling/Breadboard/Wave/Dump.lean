import Breadboard.Banner
import Breadboard.Circuit.Basic
import Breadboard.Engine.Scheduler

/-!
# Value change dumps

A recorder writes the value change dump format, in milliseconds. Signals are declared with short
codes of printable characters, and then their changes are listed below the times at which they
happened. The changes at the first time form the block of initial values. Every operation gives the
text that it adds to the dump.
-/

namespace Breadboard

/-- A declared signal. -/
structure DumpSignal where
  node : NodeId
  code : String
  width : Nat
deriving DecidableEq

/-- The state of a dump that is being written. -/
structure Dump where
  /-- The declared signals, in order. -/
  signals : Array DumpSignal
  /-- The opening lines were written. -/
  opened : Bool
  /-- The time of the last change. -/
  time : Option Nat
  /-- The block of initial values is open. -/
  initialOpen : Bool
deriving DecidableEq

namespace Dump

/-- A dump before its first line. -/
def new : Dump :=
  ⟨#[], false, none, false⟩

/-- The opening lines. -/
def header : String :=
  "$version\n  " ++ programName ++ " " ++ programVersion ++ "\n$end\n$timescale\n  1ms\n$end\n"

/-- The code of the signal at a place: a number in base ninety-four with the least significant digit
    first, in which every further digit counts one more than its character, so that codes of
    different lengths never coincide. -/
def codeOf (place : Nat) : List Char :=
  Char.ofNat (33 + place % 94) ::
    (if _more : place / 94 = 0 then [] else codeOf (place / 94 - 1))
termination_by place
decreasing_by omega

/-- The opening lines, unless they were written. -/
def opening (dump : Dump) : String :=
  if dump.opened then "" else header

/-- Opens a scope. -/
def beginScope (dump : Dump) (name : String) : Dump × String :=
  ({ dump with opened := true }, dump.opening ++ "$scope module " ++ name ++ " $end\n")

/-- Closes a scope. -/
def endScope : String :=
  "$upscope $end\n"

/-- Declares a signal. -/
def register (dump : Dump) (node : NodeId) (name : String) (width : Nat) : Dump × String :=
  let opening := dump.opening
  let code := String.ofList (codeOf dump.signals.size)
  ({ dump with opened := true, signals := dump.signals.push ⟨node, code, width⟩ },
    opening ++ "$var wire " ++ decimalText width ++ " " ++ code ++ " " ++ name ++ " $end\n")

/-- The end of the block of initial values, if it is open. -/
def closing (dump : Dump) : String :=
  if dump.initialOpen then "$end\n" else ""

/-- Moves on to a time. The first time ends the declarations and opens the block of initial values,
    which the second time closes. -/
def moveTo (dump : Dump) (time : Nat) : Dump × String :=
  let line := "#" ++ decimalText time ++ "\n"
  match dump.time with
  | none =>
    ({ dump with opened := true, time := some time, initialOpen := true },
      dump.opening ++ "$enddefinitions $end\n" ++ line ++ "$dumpvars\n")
  | some present =>
    if present = time then ({ dump with opened := true }, dump.opening)
    else
      ({ dump with opened := true, time := some time, initialOpen := false },
        dump.opening ++ dump.closing ++ line)

/-- A change of a signal: a digit, or the digits of a bus behind `b`, and the code, with a blank
    between them unless the signal is one bit wide. -/
def changeLine (signal : DumpSignal) (value : Signal) : String :=
  let digits := match value.normalise signal.width with
    | .bit bit => if bit then "1" else "0"
    | .bus bus => "b" ++ String.ofList bus.render
  digits ++ (if signal.width = 1 then "" else " ") ++ signal.code ++ "\n"

/-- The declared signal of a node. -/
def signal? (dump : Dump) (node : NodeId) : Option DumpSignal :=
  dump.signals.find? (·.node == node)

/-- Records a change. A change of a signal that was not declared is an internal error, found after
    the time was moved. -/
def change (dump : Dump) (time : Nat) (node : NodeId) (value : Signal) :
    Dump × String × Option InternalError :=
  let (dump, moved) := dump.moveTo time
  match dump.signal? node with
  | some signal => (dump, moved ++ changeLine signal value, none)
  | none => (dump, moved, some ⟨"unregistered VCD signal #" ++ decimalText node⟩)

/-- Ends the dump. -/
def finish (dump : Dump) : Dump × String :=
  match dump.time with
  | none =>
    ({ dump with opened := true, initialOpen := false },
      dump.opening ++ "$enddefinitions $end\n" ++ dump.closing)
  | some _ => ({ dump with initialOpen := false }, dump.closing)

end Dump

end Breadboard
