/-!
# Paths

A path is a text of components between slashes. An empty component and a point lead nowhere, two
points lead back, and every other component is a name.
-/

namespace Breadboard.Path

/-- The components of a path, empty ones included. -/
def components (path : String) : List String :=
  path.splitOn "/"

/-- The path starts at the root. -/
def isAbsolute (path : String) : Bool :=
  path.startsWith "/"

/-- The path of a file in a directory. -/
def within (directory file : String) : String :=
  if directory = "" || directory.endsWith "/" then directory ++ file else directory ++ "/" ++ file

/-- The components that lead somewhere. -/
def steps (path : String) : List String :=
  (components path).filter fun component => component != "" && component != "."

/-- The paths of the directories on the way to the end of a path, the nearest to the end first. -/
def onTheWay (path : String) : List String :=
  let steps := steps path
  let start := if isAbsolute path then "/" else ""
  (List.range steps.length).tail.reverse.map fun count =>
    start ++ "/".intercalate (steps.take count)

end Breadboard.Path
