import Breadboard.Console.Dialogue

/-!
# Programs

What a command does is a program: it asks its surroundings for one thing after another, each time
going on from the answer, and ends with a result. Programs know nothing of what answers them, so the
same command runs in a real directory and in one that is kept in memory.
-/

namespace Breadboard

/-- Why a file or directory could not be used. -/
structure FileError where
  text : String
  /-- The number of the error. -/
  code : Nat
deriving DecidableEq

namespace FileError

/-- The report of an error. -/
def message (error : FileError) : String :=
  error.text ++ " (os error " ++ decimalText error.code ++ ")"

/-- There is nothing of that name. -/
def notFound : FileError :=
  ⟨"No such file or directory", 2⟩

/-- A file stands where a directory is to be made. -/
def alreadyExists : FileError :=
  ⟨"File exists", 17⟩

/-- A file was looked for inside a file. -/
def notDirectory : FileError :=
  ⟨"Not a directory", 20⟩

/-- A directory was used as a file. -/
def isDirectory : FileError :=
  ⟨"Is a directory", 21⟩

/-- A name, or a whole path, is longer than any can be. -/
def nameTooLong : FileError :=
  ⟨"File name too long", 36⟩

end FileError

/-- What is at the end of a path. -/
inductive Presence where
  | nothing | file | directory
deriving DecidableEq

/-- A program with a result. -/
inductive Program (α : Type) where
  | done (result : α)
  /-- Asks for the name of the directory in which the program runs. -/
  | whereabouts (next : String → Program α)
  | look (path : String) (next : Presence → Program α)
  | readFile (path : String) (next : Except FileError String → Program α)
  | writeFile (path text : String) (next : Except FileError Unit → Program α)
  /-- Makes one directory. -/
  | makeDirectory (path : String) (next : Except FileError Unit → Program α)
  /-- Writes to the output. -/
  | print (text : String) (next : Program α)
  /-- Writes to where progress and errors go. -/
  | report (text : String) (next : Program α)
  /-- Lets some milliseconds pass. -/
  | wait (milliseconds : Nat) (next : Program α)
  /-- Holds a dialogue over the input and the output. -/
  | converse (session : Session) (next : Program α)

namespace Program

variable {α β : Type}

/-- Goes on with another program. -/
def bind (program : Program α) (rest : α → Program β) : Program β :=
  match program with
  | .done result => rest result
  | .whereabouts next => .whereabouts fun answer => (next answer).bind rest
  | .look path next => .look path fun answer => (next answer).bind rest
  | .readFile path next => .readFile path fun answer => (next answer).bind rest
  | .writeFile path text next => .writeFile path text fun answer => (next answer).bind rest
  | .makeDirectory path next => .makeDirectory path fun answer => (next answer).bind rest
  | .print text next => .print text (next.bind rest)
  | .report text next => .report text (next.bind rest)
  | .wait milliseconds next => .wait milliseconds (next.bind rest)
  | .converse session next => .converse session (next.bind rest)

instance : Monad Program where
  pure := .done
  bind := bind

end Program

end Breadboard
