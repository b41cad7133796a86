import Mathlib.Data.List.Induction
import Mathlib.Data.List.Nodup

/-!
# First occurrences

`List.eraseDups` keeps the first occurrence of every member. What is computed from the members of a
list first occurs in the order in which the members do, so repetitions may be erased before or after;
and the places of the members among the first occurrences, taken in the order of the list, are the
numbers from zero on.

Each list is built up at its end here, because a further member either repeats an earlier one or is
a new last first occurrence.
-/

namespace Breadboard.FirstOccurrences

variable {α β : Type} [DecidableEq α] [DecidableEq β]

/-- A further member is a first occurrence unless it was there before. -/
theorem eraseDups_concat (items : List α) (last : α) :
    (items ++ [last]).eraseDups =
      if last ∈ items then items.eraseDups else items.eraseDups ++ [last] := by
  rw [List.eraseDups_append]
  split
  · next repeated => simp [List.removeAll, repeated]
  · next new => simp [List.removeAll, new, List.eraseDups_cons]

/-- No member occurs twice among the first occurrences. -/
theorem nodup_eraseDups (items : List α) : items.eraseDups.Nodup := by
  induction items using List.reverseRecOn with
  | nil => exact List.nodup_nil
  | append_singleton items last inductionHypothesis =>
    rw [eraseDups_concat]
    split
    · exact inductionHypothesis
    · next new =>
      have apart : List.Disjoint items.eraseDups [last] := by
        simpa [List.mem_eraseDups] using new
      exact inductionHypothesis.append (List.nodup_singleton last) apart

/-- A list without repetitions consists of first occurrences. -/
theorem eraseDups_of_nodup {items : List α} (distinct : items.Nodup) : items.eraseDups = items := by
  induction items using List.reverseRecOn with
  | nil => rfl
  | append_singleton items last inductionHypothesis =>
    obtain ⟨before, _, apart⟩ := List.nodup_append'.mp distinct
    have new : last ∉ items := fun member => apart member (List.mem_singleton_self last)
    rw [eraseDups_concat, if_neg new, inductionHypothesis before]

/-- Repetitions may be erased before an image is taken: its first occurrences stay the same. -/
theorem eraseDups_map_eraseDups (image : α → β) (items : List α) :
    (items.eraseDups.map image).eraseDups = (items.map image).eraseDups := by
  induction items using List.reverseRecOn with
  | nil => rfl
  | append_singleton items last inductionHypothesis =>
    rw [eraseDups_concat, List.map_append, List.map_singleton, eraseDups_concat]
    split
    · next repeated =>
      have inImage : image last ∈ items.map image := List.mem_map_of_mem repeated
      rw [if_pos inImage, inductionHypothesis]
    · have sameMembers : image last ∈ items.eraseDups.map image ↔ image last ∈ items.map image := by
        simp only [List.mem_map, List.mem_eraseDups]
      rw [List.map_append, List.map_singleton, eraseDups_concat, inductionHypothesis]
      simp only [sameMembers]

/-- An image that keeps the members apart has their images as its first occurrences. -/
theorem eraseDups_map_of_injective (image : α → β) (items : List α)
    (apart : ∀ x ∈ items, ∀ y ∈ items, image x = image y → x = y) :
    (items.map image).eraseDups = items.eraseDups.map image := by
  rw [← eraseDups_map_eraseDups]
  refine eraseDups_of_nodup ((nodup_eraseDups items).map_on fun x memberX y memberY same => ?_)
  exact apart x (List.mem_eraseDups.mp memberX) y (List.mem_eraseDups.mp memberY) same

/-- The places of the members among the first occurrences first occur in ascending order, without
gaps. -/
theorem eraseDups_places (items : List α) :
    (items.map fun item => items.eraseDups.idxOf item).eraseDups =
      List.range items.eraseDups.length := by
  have apart : ∀ x ∈ items, ∀ y ∈ items,
      items.eraseDups.idxOf x = items.eraseDups.idxOf y → x = y := fun x member _ _ same =>
    (List.idxOf_inj (List.mem_eraseDups.mpr member)).mp same
  rw [eraseDups_map_of_injective _ _ apart]
  refine List.ext_getElem (by simp) fun place inside _ => ?_
  rw [List.getElem_map, List.getElem_range, (nodup_eraseDups items).idxOf_getElem]

end Breadboard.FirstOccurrences
