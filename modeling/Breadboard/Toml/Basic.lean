/-!
# TOML values

The values of a configuration file. A table keeps its entries in their order, each name once. While
a file is read, a table that only dotted names made may still be added to by further dotted names;
every other table is complete where it stands.
-/

namespace Breadboard

/-- A TOML value, or a table under construction. -/
inductive Toml where
  | string (value : String)
  | integer (value : Int)
  | real (value : Float)
  | flag (value : Bool)
  /-- A date, a time of day or both; which one it is matters nowhere. -/
  | moment
  | array (items : List Toml)
  /-- A table; it is open as long as dotted names may add to it. -/
  | table (isOpen : Bool) (entries : List (String × Toml))

namespace Toml

instance : Inhabited Toml := ⟨.flag false⟩

/-- The entries of a table. -/
abbrev Entries := List (String × Toml)

/-- The value of a name. -/
def lookup? (name : String) (entries : Entries) : Option Toml :=
  (entries.find? (·.1 == name)).map Prod.snd

/-- The entries with another value for a name that is present. -/
def replace (name : String) (value : Toml) (entries : Entries) : Entries :=
  entries.map fun entry => if entry.1 == name then (name, value) else entry

/-- Gives a dotted name a value. A name that has one already, or that leads through anything but
    open tables, is refused. -/
def assign (value : Toml) : List String → Entries → Option Entries
  | [], _ => none
  | [name], entries =>
    match lookup? name entries with
    | none => some (entries ++ [(name, value)])
    | some _ => none
  | name :: path, entries =>
    match lookup? name entries with
    | none => (assign value path []).map fun inner => entries ++ [(name, .table true inner)]
    | some (.table true inner) =>
      (assign value path inner).map fun inner => replace name (.table true inner) entries
    | some _ => none

/-- The values of some fields, in their order: those of a table, which may hold no other names, or
    the first items of an array. -/
def fields? (names : List String) : Toml → Option (List (Option Toml))
  | .table _ entries =>
    if entries.all fun entry => names.contains entry.1 then
      some (names.map fun name => lookup? name entries)
    else none
  | .array items => some ((List.range names.length).map fun place => items[place]?)
  | _ => none

end Toml

end Breadboard
