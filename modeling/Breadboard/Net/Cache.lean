import Breadboard.Net.Basic

/-!
# Keeping netlists

Netlists are kept by the revision that they belong to. Copies of a circuit share its revision until
one of them is edited, so all instances of a chip share one netlist. A sweep drops what was not
asked for since the sweep before.
-/

namespace Breadboard

/-- A kept netlist. -/
structure CachedNetlist where
  netlist : Netlist
  /-- It was asked for since the last sweep. -/
  used : Bool
deriving DecidableEq

/-- Netlists by revision. -/
structure NetlistCache where
  entries : List CachedNetlist
  /-- The number of netlists built so far. -/
  builds : Nat
deriving DecidableEq

namespace NetlistCache

/-- Nothing is kept and nothing was built. -/
def empty : NetlistCache :=
  ⟨[], 0⟩

instance : Inhabited NetlistCache := ⟨empty⟩

/-- The kept netlist of a revision. -/
def get? (cache : NetlistCache) (revision : Revision) : Option Netlist :=
  (cache.entries.find? (·.netlist.revision == revision)).map CachedNetlist.netlist

/-- The netlist of a circuit, kept or newly built. -/
def getOrBuild (cache : NetlistCache) (circuit : Circuit) : Netlist × NetlistCache :=
  match cache.get? circuit.revision with
  | some kept =>
    (kept,
      { cache with
        entries := cache.entries.map fun entry =>
          if entry.netlist.revision == circuit.revision then { entry with used := true }
          else entry })
  | none =>
    let built := Netlist.build circuit
    (built, ⟨cache.entries ++ [⟨built, true⟩], cache.builds + 1⟩)

/-- The number of netlists kept. -/
def size (cache : NetlistCache) : Nat :=
  cache.entries.length

/-- Drops the netlists that were not asked for since the last sweep. -/
def sweep (cache : NetlistCache) : NetlistCache :=
  { cache with
    entries := (cache.entries.filter (·.used)).map fun entry => { entry with used := false } }

/-- Drops every netlist. -/
def clear (cache : NetlistCache) : NetlistCache :=
  { cache with entries := [] }

end NetlistCache

end Breadboard
