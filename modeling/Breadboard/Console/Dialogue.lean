import Breadboard.Banner
import Breadboard.Console.Work

/-!
# Dialogues

A dialogue reads a session's commands line by line until `quit` or the end of the input and writes
the answers behind a prompt. A line that is no command, or a command that is refused, is reported
and the dialogue goes on. After every answer the watched nodes are shown.
-/

namespace Breadboard

/-- A dialogue at its end. -/
structure Dialogue where
  session : Session
  /-- The lines that were not blank, without the blanks at their ends. -/
  history : List String
  /-- Everything written. -/
  output : String

namespace Dialogue

/-- The lines of an input. The end of the input ends its last line. -/
def linesFrom (line : List Char) : List Char → List (List Char)
  | [] => if line.isEmpty then [] else [line.reverse]
  | c :: rest => if c == '\n' then line.reverse :: linesFrom [] rest else linesFrom (c :: line) rest

/-- The lines of an input, without what ends them. -/
def lines (input : String) : List String :=
  (linesFrom [] input.toList).map String.ofList

/-- The prompt. -/
def prompt : String :=
  programName ++ "> "

/-- What is written before the first prompt. -/
def greeting (circuit : Circuit) : String :=
  programName ++ " interactive\nType 'help' for available commands.\n"
    ++ decimalText circuit.nodeCount ++ " node(s), "
    ++ decimalText circuit.wires.length ++ " wire(s)\n\n"

/-- The watched nodes that have a signal, a line for each. -/
def watchLines (session : Session) : String :=
  String.join (session.watches.map fun name =>
    match session.display? name with
    | some signal => "  [watch] " ++ name ++ " = " ++ signal.text ++ "\n"
    | none => "")

/-- One line of input: the session after it, what is written, and whether the dialogue ends. -/
def answer (session : Session) (line : String) : Session × String × Bool :=
  match Command.ofLine line with
  | .error error => (session, "Error: " ++ error.message ++ "\n", false)
  | .ok command =>
    match session.perform command with
    | (.ok (.shown text), session) => (session, text ++ "\n" ++ watchLines session, false)
    | (.ok .quit, session) => (session, "Goodbye.\n", true)
    | (.error error, session) => (session, "Error: " ++ error.message ++ "\n", false)

/-- Answers lines until one ends the dialogue. -/
def answerAll (session : Session) : List String → Dialogue
  | [] => ⟨session, [], prompt⟩
  | line :: rest =>
    let line := trimmed line
    if line = "" then
      let later := answerAll session rest
      { later with output := prompt ++ later.output }
    else
      let (session, text, ends) := answer session line
      let later := if ends then ⟨session, [], ""⟩ else answerAll session rest
      { later with history := line :: later.history, output := prompt ++ text ++ later.output }

/-- The dialogue of a session with an input. -/
def run (session : Session) (input : String) : Dialogue :=
  let answered := answerAll session (lines input)
  { answered with output := greeting session.circuit ++ answered.output }

end Dialogue

end Breadboard
