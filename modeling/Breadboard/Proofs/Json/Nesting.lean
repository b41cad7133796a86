import Breadboard.Proofs.Json.Writing

/-!
# How deep containers nest

A value nests as deep as its deepest part, with one level for every array or object around it. What can be
read back has no part without a meaning, so it is sound within a depth exactly if it nests no deeper.
-/

namespace Breadboard.Json

mutual

/-- How deep containers nest in the value. -/
def nesting : Json → Nat
  | .array items => nestingOfItems items + 1
  | .object members => nestingOfMembers members + 1
  | _ => 0

/-- How deep containers nest in the items. -/
def nestingOfItems : List Json → Nat
  | [] => 0
  | item :: rest => max item.nesting (nestingOfItems rest)

/-- How deep containers nest in the values of the members. -/
def nestingOfMembers : List (String × Json) → Nat
  | [] => 0
  | (_, value) :: rest => max value.nesting (nestingOfMembers rest)

end

/-- Items nest no deeper than a number exactly if each of them does.

Proof: by induction on the items. -/
theorem nestingOfItems_le_iff {depth : Nat} {items : List Json} :
    nestingOfItems items ≤ depth ↔ ∀ item ∈ items, item.nesting ≤ depth := by
  induction items with
  | nil => simp [nestingOfItems]
  | cons item rest inductionHypothesis =>
    rw [nestingOfItems, Nat.max_le, inductionHypothesis, List.forall_mem_cons]

/-- Members nest no deeper than a number exactly if the value of each does.

Proof: by induction on the members. -/
theorem nestingOfMembers_le_iff {depth : Nat} {members : List (String × Json)} :
    nestingOfMembers members ≤ depth ↔ ∀ member ∈ members, member.2.nesting ≤ depth := by
  induction members with
  | nil => simp [nestingOfMembers]
  | cons member rest inductionHypothesis =>
    rw [nestingOfMembers, Nat.max_le, inductionHypothesis, List.forall_mem_cons]

/-- What can be read back is sound within a depth exactly if it nests no deeper.

Proof: by induction over the parts. -/
theorem Legible.soundWithin_iff {json : Json} (legible : Legible json) {depth : Nat} :
    json.soundWithin depth = true ↔ json.nesting ≤ depth := by
  induction legible generalizing depth with
  | @array items _ inductionHypothesis =>
    cases depth with
    | zero => simp [soundWithin, nesting]
    | succ depth =>
      rw [soundWithin, nesting, List.all_eq_true, Nat.add_le_add_iff_right, nestingOfItems_le_iff]
      exact forall₂_congr fun item member => inductionHypothesis item member
  | @object members _ inductionHypothesis =>
    cases depth with
    | zero => simp [soundWithin, nesting]
    | succ depth =>
      rw [soundWithin, nesting, List.all_eq_true, Nat.add_le_add_iff_right, nestingOfMembers_le_iff]
      exact forall₂_congr fun member isMember => inductionHypothesis member isMember
  | _ => simp [soundWithin, nesting]

/-- What is sound within a depth is sound within every greater one.

Proof: by induction on the depth. -/
theorem soundWithin_mono {json : Json} {depth greater : Nat} (sound : json.soundWithin depth = true)
    (least : depth ≤ greater) : json.soundWithin greater = true := by
  induction depth generalizing json greater with
  | zero => cases json <;> simp_all [soundWithin]
  | succ depth inductionHypothesis =>
    obtain ⟨limit, rfl⟩ := Nat.exists_eq_add_one_of_ne_zero (Nat.ne_zero_of_lt least)
    have leastWithin : depth ≤ limit := Nat.le_of_succ_le_succ least
    cases json with
    | array items =>
      simp only [soundWithin, List.all_eq_true] at sound ⊢
      exact fun item member => inductionHypothesis (sound item member) leastWithin
    | object members =>
      simp only [soundWithin, List.all_eq_true] at sound ⊢
      exact fun member isMember => inductionHypothesis (sound member isMember) leastWithin
    | meaningless => simp [soundWithin] at sound
    | _ => simp [soundWithin]

end Breadboard.Json
