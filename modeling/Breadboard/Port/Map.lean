import Breadboard.Signal.Basic

/-!
# Signals by port

The inputs and the outputs of a node are finite maps from port names to signals. A map is the list
of its entries in strictly ascending order of names, by code points; so two maps that hold the same
signals are equal (`PortMap.ext`), and the order in which a map is written out is fixed.
-/

namespace Breadboard

/-- A finite map from port names to signals. -/
structure PortMap where
  /-- The entries, in ascending order of names. -/
  entries : List (String × Signal)
  sorted : entries.Pairwise fun first second => first.1 < second.1
deriving DecidableEq

namespace PortMap

/-- The map without entries. -/
def empty : PortMap where
  entries := []
  sorted := .nil

instance : Inhabited PortMap := ⟨empty⟩

/-- There is no entry. -/
def isEmpty (ports : PortMap) : Bool :=
  ports.entries.isEmpty

/-- The signal of the first entry with a name. -/
def find (name : String) : List (String × Signal) → Option Signal
  | [] => none
  | (key, signal) :: rest => if key = name then some signal else find name rest

/-- The signal at a port. -/
def get? (ports : PortMap) (name : String) : Option Signal :=
  find name ports.entries

/-- Writes an entry at its place, over an entry of the same name. -/
def put (name : String) (signal : Signal) : List (String × Signal) → List (String × Signal)
  | [] => [(name, signal)]
  | (key, present) :: rest =>
    if name < key then (name, signal) :: (key, present) :: rest
    else if name = key then (name, signal) :: rest
    else (key, present) :: put name signal rest

theorem mem_put {name : String} {signal : Signal} {entries : List (String × Signal)}
    {entry : String × Signal} (member : entry ∈ put name signal entries) :
    entry = (name, signal) ∨ entry ∈ entries := by
  induction entries with
  | nil => exact .inl (List.mem_singleton.mp member)
  | cons head rest inductionHypothesis =>
    obtain ⟨key, present⟩ := head
    simp only [put] at member
    split at member
    · exact List.mem_cons.mp member
    · split at member
      · exact (List.mem_cons.mp member).imp id (List.mem_cons_of_mem _)
      · rcases List.mem_cons.mp member with same | inRest
        · exact .inr (same ▸ List.mem_cons_self)
        · exact (inductionHypothesis inRest).imp id (List.mem_cons_of_mem _)

theorem sorted_put (name : String) (signal : Signal) {entries : List (String × Signal)}
    (sorted : entries.Pairwise fun first second => first.1 < second.1) :
    (put name signal entries).Pairwise fun first second => first.1 < second.1 := by
  induction entries with
  | nil => exact List.pairwise_singleton ..
  | cons head rest inductionHypothesis =>
    obtain ⟨key, present⟩ := head
    obtain ⟨headBelow, restSorted⟩ := List.pairwise_cons.mp sorted
    simp only [put]
    split
    · next below =>
      refine List.pairwise_cons.mpr ⟨fun entry member => ?_, sorted⟩
      rcases List.mem_cons.mp member with same | inRest
      · exact same ▸ below
      · exact String.lt_trans below (headBelow entry inRest)
    · next notBelow =>
      split
      · next same => exact List.pairwise_cons.mpr ⟨same ▸ headBelow, restSorted⟩
      · next different =>
        refine List.pairwise_cons.mpr ⟨fun entry member => ?_, inductionHypothesis restSorted⟩
        rcases mem_put member with same | inRest
        · exact same ▸ Std.lt_of_le_of_ne (String.not_lt.mp notBelow) (Ne.symm different)
        · exact headBelow entry inRest

/-- A name below all names of some entries is none of them. -/
theorem find_eq_none {name : String} {entries : List (String × Signal)}
    (below : ∀ entry ∈ entries, name < entry.1) : find name entries = none := by
  induction entries with
  | nil => rfl
  | cons head rest inductionHypothesis =>
    obtain ⟨key, signal⟩ := head
    have headAbove : name < key := below (key, signal) List.mem_cons_self
    have different : key ≠ name := fun same => String.lt_irrefl name (same ▸ headAbove)
    simp only [find, if_neg different]
    exact inductionHypothesis fun entry member => below entry (List.mem_cons_of_mem _ member)

/-- Writing an entry changes what is found under its name and under no other. -/
theorem find_put (name other : String) (signal : Signal) {entries : List (String × Signal)}
    (sorted : entries.Pairwise fun first second => first.1 < second.1) :
    find other (put name signal entries) =
      if name = other then some signal else find other entries := by
  induction entries with
  | nil => simp only [put, find]
  | cons head rest inductionHypothesis =>
    obtain ⟨key, present⟩ := head
    have restSorted := (List.pairwise_cons.mp sorted).2
    simp only [put]
    split
    · simp only [find]
    · split
      · next same => subst same; simp only [find]; split <;> rfl
      · next different =>
        simp only [find, inductionHypothesis restSorted]
        split
        · next found => rw [if_neg fun same => different (same.trans found.symm)]
        · rfl

/-- Entries in ascending order are told by what is found among them. -/
theorem entries_ext {left right : List (String × Signal)}
    (leftSorted : left.Pairwise fun first second => first.1 < second.1)
    (rightSorted : right.Pairwise fun first second => first.1 < second.1)
    (same : ∀ name, find name left = find name right) : left = right := by
  induction left generalizing right with
  | nil =>
    cases right with
    | nil => rfl
    | cons head rest => simpa [find] using same head.1
  | cons head rest inductionHypothesis =>
    obtain ⟨key, signal⟩ := head
    obtain ⟨keyBelow, restSorted⟩ := List.pairwise_cons.mp leftSorted
    cases right with
    | nil => simpa [find] using same key
    | cons head' rest' =>
      obtain ⟨key', signal'⟩ := head'
      obtain ⟨keyBelow', restSorted'⟩ := List.pairwise_cons.mp rightSorted
      have keys : key = key' := by
        refine Classical.byContradiction fun different => ?_
        by_cases less : key < key'
        · have missing : find key ((key', signal') :: rest') = none :=
            find_eq_none fun entry member => by
              rcases List.mem_cons.mp member with head | inRest
              · exact head ▸ less
              · exact String.lt_trans less (keyBelow' entry inRest)
          have found := same key
          rw [missing] at found
          simp [find] at found
        · have greater : key' < key :=
            Std.lt_of_le_of_ne (String.not_lt.mp less) (Ne.symm different)
          have missing : find key' ((key, signal) :: rest) = none :=
            find_eq_none fun entry member => by
              rcases List.mem_cons.mp member with head | inRest
              · exact head ▸ greater
              · exact String.lt_trans greater (keyBelow entry inRest)
          have found := same key'
          rw [missing] at found
          simp [find] at found
      subst keys
      have signals : signal = signal' := by simpa [find] using same key
      subst signals
      rw [inductionHypothesis restSorted restSorted' fun name => ?_]
      by_cases atKey : key = name
      · subst atKey
        rw [find_eq_none keyBelow, find_eq_none keyBelow']
      · simpa [find, atKey] using same name

/-- Maps that hold the same signals are equal. -/
theorem ext {left right : PortMap} (same : ∀ name, left.get? name = right.get? name) :
    left = right := by
  obtain ⟨leftEntries, leftSorted⟩ := left
  obtain ⟨rightEntries, rightSorted⟩ := right
  have entries : leftEntries = rightEntries := entries_ext leftSorted rightSorted same
  subst entries
  rfl

/-- The map with a signal written at a port. -/
def insert (ports : PortMap) (name : String) (signal : Signal) : PortMap where
  entries := put name signal ports.entries
  sorted := sorted_put name signal ports.sorted

theorem get?_insert (ports : PortMap) (name other : String) (signal : Signal) :
    (ports.insert name signal).get? other =
      if name = other then some signal else ports.get? other :=
  find_put name other signal ports.sorted

@[simp] theorem get?_empty (name : String) : empty.get? name = none :=
  rfl

/-- The map restricted to the ports that pass a test. -/
def filter (ports : PortMap) (keep : String → Bool) : PortMap where
  entries := ports.entries.filter fun entry => keep entry.1
  sorted := ports.sorted.filter _

/-- The map of a list of entries; of two entries with one name the later wins. -/
def ofList (entries : List (String × Signal)) : PortMap :=
  entries.foldl (fun ports entry => ports.insert entry.1 entry.2) empty

/-- Every entry of `after` stands in `before` with the same signal, or one does not. -/
def differsFrom (after before : PortMap) : Bool :=
  after.entries.any fun entry => before.get? entry.1 != some entry.2

end PortMap

end Breadboard
