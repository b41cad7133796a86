/-!
# The program's name

The name and the version under which the program appears in its own output.
-/

namespace Breadboard

/-- The name of the program as users know it. -/
def programName : String :=
  "gatesim"

/-- The version that is shown. -/
def programVersion : String :=
  "0.1.0"

/-- The name of the configuration file. -/
def configName : String :=
  programName ++ ".toml"

end Breadboard
