import Breadboard.Port.Map
import Mathlib.Data.List.Induction

/-!
# Writing to several ports

What a component drives is written to its output ports entry by entry, over what stands there. Of two
entries for one port the later wins, ports that no entry names keep their signals, and writing the same
entries again changes nothing. As no port is ever taken away, a map that holds nothing new after
writing is the map before.

What a map holds beside some ports is what remains when these are left out. Maps with the same remainder
become equal as soon as the same is written to all the ports left out.
-/

namespace Breadboard.PortMap

/-- The map with entries written one after the other. -/
def writeAll (ports : PortMap) (entries : List (String × Signal)) : PortMap :=
  entries.foldl (fun ports entry => ports.insert entry.1 entry.2) ports

/-- The last of some entries for a port. -/
def lastOf? (entries : List (String × Signal)) (name : String) : Option Signal :=
  (entries.reverse.find? (·.1 == name)).map Prod.snd

variable {ports : PortMap} {entries : List (String × Signal)}

/-- After writing, a port holds the last entry for it, and what it held before if there is none. -/
theorem get?_writeAll (ports : PortMap) (entries : List (String × Signal)) (name : String) :
    (ports.writeAll entries).get? name = (lastOf? entries name).or (ports.get? name) := by
  induction entries using List.reverseRecOn with
  | nil => rfl
  | append_singleton entries last inductionHypothesis =>
    have further : ports.writeAll (entries ++ [last]) =
        (ports.writeAll entries).insert last.1 last.2 := by
      rw [writeAll, List.foldl_append]
      rfl
    rw [further, get?_insert, inductionHypothesis, lastOf?, lastOf?, List.reverse_append,
      List.reverse_singleton, List.singleton_append]
    by_cases named : last.1 = name
    · rw [if_pos named, List.find?_cons_of_pos (by simpa using named)]
      rfl
    · rw [if_neg named, List.find?_cons_of_neg (by simpa using named)]

/-- An entry is the last one for its port if no later one is for that port. -/
theorem lastOf?_eq_some {place : Nat} {name : String} {signal : Signal}
    (here : entries[place]? = some (name, signal))
    (last : ∀ later entry, place < later → entries[later]? = some entry → entry.1 ≠ name) :
    lastOf? entries name = some signal := by
  obtain ⟨inside, isHere⟩ := List.getElem?_eq_some_iff.mp here
  have parts : entries = entries.take place ++ (name, signal) :: entries.drop (place + 1) := by
    rw [← isHere, List.getElem_cons_drop, List.take_append_drop]
  have noneLater : (entries.drop (place + 1)).reverse.find? (·.1 == name) = none := by
    rw [List.find?_eq_none]
    intro entry member named
    obtain ⟨offset, found⟩ := List.mem_iff_getElem?.mp (List.mem_reverse.mp member)
    rw [List.getElem?_drop] at found
    exact last _ entry (by omega) found (by simpa using named)
  rw [lastOf?, parts, List.reverse_append, List.reverse_cons, List.append_assoc,
    List.find?_append, noneLater, Option.none_or, List.singleton_append,
    List.find?_cons_of_pos (by simp)]
  rfl

/-- A port has a last entry exactly if some entry is for it. -/
theorem isSome_lastOf? {name : String} :
    (lastOf? entries name).isSome = true ↔ name ∈ entries.map Prod.fst := by
  simp [lastOf?, List.find?_isSome]

/-- Writing the same entries again changes nothing. -/
@[simp] theorem writeAll_writeAll (ports : PortMap) (entries : List (String × Signal)) :
    (ports.writeAll entries).writeAll entries = ports.writeAll entries := by
  refine ext fun name => ?_
  rw [get?_writeAll, get?_writeAll]
  cases lastOf? entries name <;> rfl

/-- Of two signals written to one port the later one counts. -/
@[simp] theorem insert_insert (ports : PortMap) (name : String) (first second : Signal) :
    (ports.insert name first).insert name second = ports.insert name second := by
  refine ext fun other => ?_
  simp only [get?_insert]
  split <;> rfl

/-- Writing a signal that stands there already changes nothing. -/
theorem insert_of_get? {name : String} {signal : Signal} (present : ports.get? name = some signal) :
    ports.insert name signal = ports := by
  refine ext fun other => ?_
  rw [get?_insert]
  split
  · next same => rw [← same, present]
  · rfl

/-- The entries of a map are what its ports hold. -/
theorem mem_entries_iff {name : String} {signal : Signal} :
    (name, signal) ∈ ports.entries ↔ ports.get? name = some signal := by
  obtain ⟨entries, sorted⟩ := ports
  simp only [get?]
  induction entries with
  | nil => simp [find]
  | cons head rest inductionHypothesis =>
    obtain ⟨key, present⟩ := head
    obtain ⟨below, restSorted⟩ := List.pairwise_cons.mp sorted
    rw [List.mem_cons, inductionHypothesis restSorted, find]
    by_cases same : key = name
    · subst same
      rw [if_pos rfl, find_eq_none below]
      simp [eq_comm]
    · rw [if_neg same]
      constructor
      · rintro (first | later)
        · exact absurd (Prod.mk.inj first).1.symm same
        · exact later
      · exact .inr

/-- A map holds nothing that another one does not hold exactly if it agrees with it wherever it holds
a signal. -/
theorem differsFrom_eq_false_iff {after before : PortMap} :
    after.differsFrom before = false ↔
      ∀ name signal, after.get? name = some signal → before.get? name = some signal := by
  rw [differsFrom, List.any_eq_false]
  constructor
  · intro agrees name signal found
    simpa using agrees (name, signal) (mem_entries_iff.mpr found)
  · rintro agrees ⟨name, signal⟩ member
    simpa using agrees name signal (mem_entries_iff.mp member)

/-- If writing leaves nothing that was not there before, it changes nothing. -/
theorem writeAll_of_not_differsFrom (quiet : (ports.writeAll entries).differsFrom ports = false) :
    ports.writeAll entries = ports := by
  rw [differsFrom_eq_false_iff] at quiet
  refine ext fun name => ?_
  cases found : (ports.writeAll entries).get? name with
  | some signal => exact (quiet name signal found).symm
  | none =>
    rw [get?_writeAll, Option.or_eq_none_iff] at found
    exact found.2.symm

/-- No map differs from itself. -/
theorem differsFrom_self (ports : PortMap) : ports.differsFrom ports = false :=
  differsFrom_eq_false_iff.mpr fun _ _ => id

/-- A filtered map holds what the map held at the ports that pass. -/
theorem get?_filter (ports : PortMap) (keep : String → Bool) (name : String) :
    (ports.filter keep).get? name = if keep name then ports.get? name else none := by
  obtain ⟨entries, sorted⟩ := ports
  simp only [get?, filter]
  clear sorted
  induction entries with
  | nil => simp [find]
  | cons head rest inductionHypothesis =>
    obtain ⟨key, signal⟩ := head
    rw [List.filter_cons]
    by_cases same : key = name
    · subst same
      by_cases kept : keep key = true
      · rw [if_pos kept, if_pos kept, find, find, if_pos rfl, if_pos rfl]
      · rw [if_neg kept, inductionHypothesis, if_neg kept, if_neg kept]
    · rw [find, if_neg same, ← inductionHypothesis]
      by_cases kept : keep key = true
      · rw [if_pos kept, find, if_neg same]
      · rw [if_neg kept]

/-- The map without some ports. -/
def without (ports : PortMap) (names : List String) : PortMap :=
  ports.filter fun name => !names.contains name

/-- The remainder holds what the map held at the other ports. -/
theorem get?_without (ports : PortMap) (names : List String) (name : String) :
    (ports.without names).get? name = if name ∈ names then none else ports.get? name := by
  rw [without, get?_filter]
  by_cases member : name ∈ names
  · rw [if_neg (by simpa using member), if_pos member]
  · rw [if_pos (by simpa using member), if_neg member]

/-- Writing to ports that are left out leaves the remainder. -/
theorem without_writeAll {names : List String} (inNames : ∀ entry ∈ entries, entry.1 ∈ names) :
    (ports.writeAll entries).without names = ports.without names := by
  refine ext fun name => ?_
  rw [get?_without, get?_without, get?_writeAll]
  split
  · rfl
  · next outside =>
    have nothing : lastOf? entries name = none := by
      rw [← Option.not_isSome_iff_eq_none, isSome_lastOf?, List.mem_map]
      rintro ⟨entry, member, rfl⟩
      exact outside (inNames entry member)
    rw [nothing, Option.none_or]

/-- Writing to a port that is left out leaves the remainder. -/
theorem without_insert {names : List String} {name : String} (inNames : name ∈ names)
    (signal : Signal) : (ports.insert name signal).without names = ports.without names := by
  have one : ∀ entry ∈ [(name, signal)], entry.1 ∈ names := by simpa using inNames
  exact without_writeAll one

/-- Maps with the same remainder hold the same at every port that is not left out. -/
theorem get?_of_without_eq {left right : PortMap} {names : List String}
    (same : left.without names = right.without names) {name : String} (outside : name ∉ names) :
    left.get? name = right.get? name := by
  have here := congrArg (get? · name) same
  simp only [get?_without, if_neg outside] at here
  exact here

/-- Maps with the same remainder become equal when the same is written to all ports left out. -/
theorem writeAll_congr {left right : PortMap} {names : List String}
    (same : left.without names = right.without names)
    (all : ∀ name ∈ names, name ∈ entries.map Prod.fst) :
    left.writeAll entries = right.writeAll entries := by
  refine ext fun name => ?_
  rw [get?_writeAll, get?_writeAll]
  by_cases member : name ∈ names
  · obtain ⟨signal, written⟩ := Option.isSome_iff_exists.mp (isSome_lastOf?.mpr (all name member))
    rw [written, Option.some_or, Option.some_or]
  · rw [get?_of_without_eq same member]

end Breadboard.PortMap
