/-!
# Disjoint sets

A partition of `n` elements as a forest: every element has a parent, and a root is its own parent
and stands for its set. Ranks strictly increase along parents, which is part of the type, so every
walk to a root ends. `find` shortens the paths that it walks, and `union` hangs the root of smaller
rank below the other; of two roots of one rank the first stays a root.
-/

namespace Breadboard

/-- A partition of `n` elements. -/
structure DisjointSets (n : Nat) where
  parents : Vector (Fin n) n
  ranks : Vector Nat n
  rank_lt : ∀ i, parents.get i ≠ i → ranks.get i < ranks.get (parents.get i)

namespace DisjointSets

variable {n : Nat}

/-- Reading a vector at a place is indexing it. -/
theorem get_eq_getElem {α : Type} (v : Vector α n) (i : Fin n) : v.get i = v[i] :=
  rfl

/-- Reading a vector after writing one place. -/
theorem get_set {α : Type} (v : Vector α n) (i j : Fin n) (x : α) :
    (v.set i x).get j = if i = j then x else v.get j := by
  simp only [get_eq_getElem, Fin.getElem_fin, Vector.getElem_set, Fin.ext_iff]

/-- The parent of an element. -/
def parent (sets : DisjointSets n) (i : Fin n) : Fin n :=
  sets.parents.get i

/-- The rank of an element. -/
def rank (sets : DisjointSets n) (i : Fin n) : Nat :=
  sets.ranks.get i

/-- The element stands for its set. -/
def IsRoot (sets : DisjointSets n) (i : Fin n) : Prop :=
  sets.parent i = i

instance (sets : DisjointSets n) (i : Fin n) : Decidable (sets.IsRoot i) :=
  inferInstanceAs (Decidable (sets.parent i = i))

/-- Every element is a set of its own. -/
def singletons (n : Nat) : DisjointSets n where
  parents := Vector.ofFn id
  ranks := Vector.replicate n 0
  rank_lt := by simp [get_eq_getElem]

/-- The largest number of a list. -/
def largest : List Nat → Nat
  | [] => 0
  | head :: rest => Nat.max head (largest rest)

/-- No number of a list exceeds the largest. -/
theorem le_largest_of_mem {x : Nat} {numbers : List Nat} (member : x ∈ numbers) :
    x ≤ largest numbers := by
  induction numbers with
  | nil => cases member
  | cons head rest inductionHypothesis =>
    rcases List.mem_cons.mp member with same | inRest
    · exact same ▸ Nat.le_max_left ..
    · exact Nat.le_trans (inductionHypothesis inRest) (Nat.le_max_right ..)

/-- No rank exceeds the largest. -/
theorem rank_le_largest (sets : DisjointSets n) (i : Fin n) :
    sets.rank i ≤ largest sets.ranks.toList :=
  le_largest_of_mem (by simp [rank, get_eq_getElem])

/-- The rank of an element that is no root is below the rank of its parent. -/
theorem rank_lt_parent (sets : DisjointSets n) (i : Fin n) (inner : ¬sets.IsRoot i) :
    sets.rank i < sets.rank (sets.parent i) :=
  sets.rank_lt i inner

/-- The rank of an element that is no root is below the rank of its parent's parent. -/
theorem rank_lt_grandparent (sets : DisjointSets n) (i : Fin n) (inner : ¬sets.IsRoot i) :
    sets.rank i < sets.rank (sets.parent (sets.parent i)) := by
  have first := sets.rank_lt_parent i inner
  by_cases top : sets.IsRoot (sets.parent i)
  · rwa [show sets.parent (sets.parent i) = sets.parent i from top]
  · exact Nat.lt_trans first (sets.rank_lt_parent _ top)

/-- Hangs an element below one of higher rank. -/
def hang (sets : DisjointSets n) (low high : Fin n) (below : sets.rank low < sets.rank high) :
    DisjointSets n where
  parents := sets.parents.set low high
  ranks := sets.ranks
  rank_lt := by
    intro j inner
    rw [get_set] at inner ⊢
    split
    · next same => exact same ▸ below
    · next different => exact sets.rank_lt j (by simpa [different] using inner)

/-- Makes the parent's parent of an element that is no root its parent. -/
def halve (sets : DisjointSets n) (i : Fin n) (inner : ¬sets.IsRoot i) : DisjointSets n :=
  sets.hang i (sets.parent (sets.parent i)) (sets.rank_lt_grandparent i inner)

/-- Walks from an element to the root of its set, halving the path. -/
def find (sets : DisjointSets n) (i : Fin n) : DisjointSets n × Fin n :=
  if root : sets.IsRoot i then (sets, i)
  else (sets.halve i root).find (sets.parent (sets.parent i))
termination_by largest sets.ranks.toList - sets.rank i
decreasing_by
  have rises := sets.rank_lt_grandparent i root
  have bounded := sets.rank_le_largest (sets.parent (sets.parent i))
  show largest sets.ranks.toList - sets.rank _ < _
  omega

/-- Walking to a root changes no rank. -/
theorem find_ranks (sets : DisjointSets n) (i : Fin n) : (sets.find i).1.ranks = sets.ranks := by
  fun_induction find sets i with
  | case1 => rfl
  | case2 sets i inner inductionHypothesis => exact inductionHypothesis

/-- The walk ends at a root. -/
theorem isRoot_find (sets : DisjointSets n) (i : Fin n) :
    (sets.find i).1.IsRoot (sets.find i).2 := by
  fun_induction find sets i with
  | case1 sets i root => exact root
  | case2 sets i inner inductionHypothesis => exact inductionHypothesis

/-- Hanging another element leaves a root in its place. -/
theorem IsRoot.hang {sets : DisjointSets n} {r : Fin n} (root : sets.IsRoot r) {low high : Fin n}
    (below : sets.rank low < sets.rank high) (other : low ≠ r) :
    (sets.hang low high below).IsRoot r := by
  simp only [IsRoot, parent, DisjointSets.hang, get_set, other, if_false]
  exact root

/-- Walking leaves every root in its place. -/
theorem IsRoot.find {sets : DisjointSets n} {r : Fin n} (root : sets.IsRoot r) (i : Fin n) :
    (sets.find i).1.IsRoot r := by
  fun_induction DisjointSets.find sets i with
  | case1 => exact root
  | case2 sets i inner inductionHypothesis =>
    exact inductionHypothesis (root.hang _ fun same => inner (same ▸ root))

/-- Raises the rank of a root by one. -/
def raise (sets : DisjointSets n) (r : Fin n) (root : sets.IsRoot r) : DisjointSets n where
  parents := sets.parents
  ranks := sets.ranks.set r (sets.rank r + 1)
  rank_lt := by
    intro j inner
    have rises : sets.rank j < sets.rank (sets.parent j) := sets.rank_lt j inner
    have different : r ≠ j := fun same => inner (same ▸ root)
    rw [get_set, get_set, if_neg different]
    split
    · next same =>
      have same : r = sets.parent j := same
      rw [← same] at rises
      exact Nat.lt_succ_of_lt rises
    · exact rises

/-- Unites two sets, given by their roots. -/
def link (sets : DisjointSets n) (a b : Fin n) (rootA : sets.IsRoot a) : DisjointSets n :=
  if less : sets.rank a < sets.rank b then sets.hang a b less
  else if greater : sets.rank b < sets.rank a then sets.hang b a greater
  else if same : a = b then sets
  else
    (sets.raise a rootA).hang b a (by
      simp only [rank, raise, get_set, if_neg same, if_true]
      simp only [rank] at less greater
      omega)

/-- Unites the sets of two elements. The flag tells whether they were two. -/
def union (sets : DisjointSets n) (a b : Fin n) : DisjointSets n × Bool :=
  let first := sets.find a
  let second := first.1.find b
  if first.2 = second.2 then (second.1, false)
  else (second.1.link first.2 second.2 ((sets.isRoot_find a).find b), true)

end DisjointSets

end Breadboard
