import Breadboard.Shell.Path
import Breadboard.Shell.Program

/-!
# Directories in memory

A small tree of files and directories, in which programs run as in a real one. Paths are followed
component by component; a component behind a file, or behind nothing, is an error. Around the tree
there are further directories up to the root, in which nothing is known.
-/

namespace Breadboard

/-- Where a path leads: the components on the way from the top, without detours. Two points lead
    from the top to the directories around it, and a slash is the root. -/
abbrev Place := List String

namespace Place

/-- The directory in which programs run. -/
def top : Place := []

/-- The root of all directories. -/
def root : Place := ["/"]

/-- A directory that is there whatever the tree holds: the top, the root or one between them. -/
def isAround (place : Place) : Bool :=
  place == root || place.all (· == "..")

/-- The directory that a place is in. The root is in itself. -/
def parent (place : Place) : Place :=
  if place == root then root else if place.isAround then place ++ [".."] else place.dropLast

end Place

/-- Files and directories by their places; those around the tree are not listed. -/
structure Directory where
  /-- The path of the top, as programs see it. -/
  home : String
  /-- The texts of the files, and the directories, which have none. -/
  entries : List (Place × Option String)

namespace Directory

/-- How many bytes a name may have. -/
def nameLimit : Nat := 255

/-- How many bytes a path may have. -/
def pathLimit : Nat := 4095

/-- What is at a place. -/
def presence (directory : Directory) (place : Place) : Presence :=
  if place.isAround then .directory
  else
    match directory.entries.find? (·.1 == place) with
    | some (_, some _) => .file
    | some (_, none) => .directory
    | none => .nothing

/-- The text of the file at a place. -/
def text? (directory : Directory) (place : Place) : Option String :=
  (directory.entries.find? (·.1 == place)).bind Prod.snd

/-- Puts a file or a directory at a place. -/
def put (directory : Directory) (place : Place) (text : Option String) : Directory :=
  { directory with
    entries := directory.entries.filter (fun entry => entry.1 != place) ++ [(place, text)] }

/-- Where a path starts, and its components from there on. -/
def start (directory : Directory) (path : String) : Place × List String :=
  match directory.home.toList.isPrefixOf? path.toList with
  | some ('/' :: rest) => (.top, Path.components (String.ofList rest))
  | some [] => (.top, [])
  | _ => (if Path.isAbsolute path then .root else .top, Path.components path)

/-- One component further: the place it leads to. Nothing needs to be there. -/
def stepInto (directory : Directory) (place : Place) (component : String) :
    Except FileError Place :=
  match directory.presence place with
  | .nothing => .error .notFound
  | .file => .error .notDirectory
  | .directory =>
    if component = "" || component = "." then .ok place
    else if component = ".." then .ok place.parent
    else if component.utf8ByteSize ≤ nameLimit then .ok (place ++ [component])
    else .error .nameTooLong

/-- Refuses the paths that lead nowhere, whatever the directories hold. -/
def checkPath (path : String) : Except FileError Unit :=
  if path = "" then .error .notFound
  else if path.utf8ByteSize ≤ pathLimit then .ok ()
  else .error .nameTooLong

/-- The place that a path leads to. Nothing needs to be there. -/
def follow (directory : Directory) (path : String) : Except FileError Place := do
  checkPath path
  let (start, components) := directory.start path
  components.foldlM directory.stepInto start

/-- The directory that the last component of a path is looked up in, and that component. Slashes
    behind it do not count. -/
def approach (directory : Directory) (path : String) : Except FileError (Place × String) := do
  checkPath path
  let (start, components) := directory.start path
  match components.reverse.dropWhile (· == "") with
  | [] => return (start, ".")
  | last :: before =>
    let place ← before.reverse.foldlM directory.stepInto start
    let inside ← directory.stepInto place "."
    return (inside, last)

/-- What is at the end of a path. -/
def look (directory : Directory) (path : String) : Presence :=
  match directory.follow path with
  | .ok place => directory.presence place
  | .error _ => .nothing

/-- Reads a file. -/
def read (directory : Directory) (path : String) : Except FileError String := do
  let place ← directory.follow path
  match directory.presence place, directory.text? place with
  | .directory, _ => throw .isDirectory
  | _, some text => return text
  | _, none => throw .notFound

/-- Writes a file; the directory that it is in has to be there. A path that ends in a slash can only
    be one of a directory. -/
def write (directory : Directory) (path text : String) : Except FileError Directory := do
  let (around, name) ← directory.approach path
  if path.endsWith "/" then throw .isDirectory
  let place ← directory.stepInto around name
  match directory.presence place with
  | .directory => throw .isDirectory
  | _ => return directory.put place (some text)

/-- Makes a directory; the one that it is in has to be there. -/
def make (directory : Directory) (path : String) : Except FileError Directory := do
  let (around, name) ← directory.approach path
  let place ← directory.stepInto around name
  match directory.presence place with
  | .nothing => return directory.put place none
  | _ => throw .alreadyExists

/-- The directory after a change, or as it was, and the answer to who asked for it. -/
def attempt (directory : Directory) (change : Except FileError Directory) :
    Directory × Except FileError Unit :=
  match change with
  | .ok after => (after, .ok ())
  | .error error => (directory, .error error)

end Directory

/-- What a program left behind. -/
structure Transcript (α : Type) where
  result : α
  directory : Directory
  output : String
  reports : String

/-- The transcript with output in front. -/
def Transcript.printed {α : Type} (text : String) (transcript : Transcript α) : Transcript α :=
  { transcript with output := text ++ transcript.output }

/-- The transcript with a report in front. -/
def Transcript.reported {α : Type} (text : String) (transcript : Transcript α) : Transcript α :=
  { transcript with reports := text ++ transcript.reports }

/-- Runs a program in a directory, with a text for its input. -/
def Program.runIn {α : Type} (directory : Directory) (input : String) :
    Program α → Transcript α
  | .done result => ⟨result, directory, "", ""⟩
  | .whereabouts next => (next directory.home).runIn directory input
  | .look path next => (next (directory.look path)).runIn directory input
  | .readFile path next => (next (directory.read path)).runIn directory input
  | .writeFile path text next =>
    let (after, answer) := directory.attempt (directory.write path text)
    (next answer).runIn after input
  | .makeDirectory path next =>
    let (after, answer) := directory.attempt (directory.make path)
    (next answer).runIn after input
  | .print text next => (next.runIn directory input).printed text
  | .report text next => (next.runIn directory input).reported text
  | .wait _ next => next.runIn directory input
  | .converse session next =>
    (next.runIn directory input).printed (Dialogue.run session input).output

end Breadboard
