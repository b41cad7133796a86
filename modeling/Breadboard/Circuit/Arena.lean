/-!
# Arenas

An arena keeps items in slots. Allocation takes a new slot at the end and removal vacates a slot, so
a handle, the index of a slot, never comes to name another item: it names its own item or nothing.
-/

namespace Breadboard

/-- Items in slots, each occupied or vacant. -/
structure Arena (α : Type) where
  slots : List (Option α)
deriving DecidableEq

namespace Arena

variable {α β : Type}

/-- The arena without slots. -/
def empty : Arena α :=
  ⟨[]⟩

instance : Inhabited (Arena α) := ⟨empty⟩

/-- The handle that the next allocation gives. -/
def next (arena : Arena α) : Nat :=
  arena.slots.length

/-- Puts an item into a new slot at the end, whose handle is `next`. -/
def alloc (arena : Arena α) (item : α) : Arena α :=
  ⟨arena.slots ++ [some item]⟩

/-- The item in a slot. -/
def get? (arena : Arena α) (id : Nat) : Option α :=
  (arena.slots[id]?).join

/-- The slot holds an item. -/
def contains (arena : Arena α) (id : Nat) : Bool :=
  (arena.get? id).isSome

/-- Vacates a slot. -/
def remove (arena : Arena α) (id : Nat) : Arena α :=
  ⟨arena.slots.modify id fun _ => none⟩

/-- Changes the item in a slot. -/
def modify (arena : Arena α) (id : Nat) (change : α → α) : Arena α :=
  ⟨arena.slots.modify id (Option.map change)⟩

/-- Changes every item. -/
def map (arena : Arena α) (change : α → β) : Arena β :=
  ⟨arena.slots.map (Option.map change)⟩

/-- The items with their handles, from a handle on. -/
def itemsFrom (id : Nat) : List (Option α) → List (Nat × α)
  | [] => []
  | none :: rest => itemsFrom (id + 1) rest
  | some item :: rest => (id, item) :: itemsFrom (id + 1) rest

/-- The items with their handles, in the order of allocation. -/
def items (arena : Arena α) : List (Nat × α) :=
  itemsFrom 0 arena.slots

/-- The items in the order of allocation. -/
def values (arena : Arena α) : List α :=
  arena.slots.filterMap id

/-- The number of items. -/
def size (arena : Arena α) : Nat :=
  arena.values.length

/-- No slot holds an item. -/
def isEmpty (arena : Arena α) : Bool :=
  arena.slots.all Option.isNone

/-- A new item stands at the handle that it was promised, and every other handle is untouched. -/
theorem get?_alloc (arena : Arena α) (item : α) (id : Nat) :
    (arena.alloc item).get? id = if arena.next = id then some item else arena.get? id := by
  by_cases same : arena.next = id
  · rw [if_pos same]
    subst same
    simp [get?, alloc, next]
  · rw [if_neg same]
    simp only [next] at same
    simp only [get?, alloc]
    by_cases inside : id < arena.slots.length
    · rw [List.getElem?_append_left inside]
    · rw [List.getElem?_eq_none (by simp; omega), List.getElem?_eq_none (by omega)]

/-- A removed handle names nothing, and every other handle is untouched. -/
theorem get?_remove (arena : Arena α) (id other : Nat) :
    (arena.remove id).get? other = if id = other then none else arena.get? other := by
  simp only [get?, remove, List.getElem?_modify]
  split
  · cases arena.slots[other]? <;> rfl
  · cases arena.slots[other]? <;> rfl

theorem get?_modify (arena : Arena α) (id other : Nat) (change : α → α) :
    (arena.modify id change).get? other =
      if id = other then (arena.get? other).map change else arena.get? other := by
  simp only [get?, modify, List.getElem?_modify]
  split
  · cases arena.slots[other]? <;> rfl
  · cases arena.slots[other]? <;> rfl

theorem get?_map (arena : Arena α) (change : α → β) (id : Nat) :
    (arena.map change).get? id = (arena.get? id).map change := by
  simp only [get?, map, List.getElem?_map]
  cases arena.slots[id]? <;> rfl

end Arena

end Breadboard
