import Breadboard.Shell.Commands

/-!
# The command line program

The surroundings of a real run: files, the input and the output. Everything else is
`Commands.program`.
-/

namespace Breadboard

/-- The number of an error. Some operations give it with a minus sign. -/
def errorNumber (code : UInt32) : Nat :=
  code.toInt32.toInt.natAbs

/-- The error of a file operation. -/
def fileErrorOf : IO.Error → FileError
  | .noFileOrDirectory .. => .notFound
  | .alreadyExists .. => .alreadyExists
  | .inappropriateType _ code _ =>
    if errorNumber code = FileError.isDirectory.code then .isDirectory else .notDirectory
  | .invalidArgument _ code details =>
    if errorNumber code = FileError.nameTooLong.code then .nameTooLong
    else ⟨details, errorNumber code⟩
  | .permissionDenied _ code _ => ⟨"Permission denied", errorNumber code⟩
  | error => ⟨toString error, 0⟩

/-- The outcome of a file operation. -/
def attempted {α : Type} (operation : IO α) : IO (Except FileError α) := do
  match ← operation.toBaseIO with
  | .ok result => return .ok result
  | .error error => return .error (fileErrorOf error)

/-- What is at the end of a path. -/
def presenceOf (path : String) : IO Presence := do
  match ← (IO.FS.realPath path).toBaseIO with
  | .ok real => return if ← real.isDir then .directory else .file
  | .error _ => return .nothing

/-- Answers the lines of the input until one ends the dialogue. -/
partial def answerLines (session : Session) : IO Unit := do
  IO.print Dialogue.prompt
  (← IO.getStdout).flush
  let line ← (← IO.getStdin).getLine
  if line.isEmpty then return
  if trimmed line = "" then answerLines session
  else
    let (session, text, ends) := Dialogue.answer session (trimmed line)
    IO.print text
    if !ends then answerLines session

/-- Runs a program in the real directory. -/
def Program.perform {α : Type} : Program α → IO α
  | .done result => return result
  | .whereabouts next => do (next (← IO.currentDir).toString).perform
  | .look path next => do (next (← presenceOf path)).perform
  | .readFile path next => do (next (← attempted (IO.FS.readFile path))).perform
  | .writeFile path text next => do
    (next (← attempted (IO.FS.writeFile path text))).perform
  | .makeDirectory path next => do
    (next (← attempted (IO.FS.createDir path))).perform
  | .print text next => do
    IO.print text
    next.perform
  | .report text next => do
    IO.eprint text
    next.perform
  | .wait milliseconds next => do
    IO.sleep (UInt32.ofNat milliseconds)
    next.perform
  | .converse session next => do
    IO.print (Dialogue.greeting session.circuit)
    answerLines session
    next.perform

end Breadboard

/-- Carries out the command line. -/
def main (arguments : List String) : IO UInt32 := do
  let ending ← (Breadboard.Commands.program arguments).perform
  match ending with
  | .fault fault => IO.eprintln fault.message
  | .code _ => pure ()
  return UInt32.ofNat ending.number
