import Breadboard.Proofs.Safety.Nets
import Mathlib.Data.Nat.Log

/-!
# Finds and unions in any order

A forest is asked to find roots and to unite sets, in any order and as often as one likes. A find
rewrites parents on its way, and of two united roots of one rank the one that stays a root rises. What
carries all of it is that ranks increase along parents, and that a root of some rank stands for as many
elements as that power of two. So walks are short, sets are what the unions make them, and no rank of
eight bits passes its end.
-/

namespace Breadboard.DisjointSets

variable {n : Nat}

/-- What is asked of a forest. -/
inductive Call (n : Nat) where
  /-- Walk from an element to the root of its set. -/
  | find (i : Fin n)
  /-- Unite the sets of two elements. -/
  | union (a b : Fin n)

/-- The two elements that a call unites. -/
def Call.pair? : Call n → Option (Fin n × Fin n)
  | .find _ => none
  | .union a b => some (a, b)

/-- The forest after a call. -/
def call (sets : DisjointSets n) : Call n → DisjointSets n
  | .find i => (sets.find i).1
  | .union a b => (sets.union a b).1

/-- The forest after some calls, one after the other, from single elements on. -/
def afterCalls (calls : List (Call n)) : DisjointSets n :=
  calls.foldl call (singletons n)

/-- The unions among some calls connect two elements. -/
def Connected (calls : List (Call n)) : Fin n → Fin n → Prop :=
  Relation.EqvGen fun x y => .union x y ∈ calls

/-- The parents with an element's parent's parent for its parent. -/
def shortcut (parents : Vector (Fin n) n) (i : Fin n) : Vector (Fin n) n :=
  parents.set i.val (parents.get (parents.get i)) i.isLt

/-- A walk on parents of which nothing is known: every round takes a shortcut and goes on at the new
parent. There is no answer if so many rounds do not lead to a root. -/
def walk? (parents : Vector (Fin n) n) : Nat → Fin n → Option (Vector (Fin n) n × Fin n)
  | 0, i => if parents.get i = i then some (parents, i) else none
  | rounds + 1, i =>
    if parents.get i = i then some (parents, i)
    else walk? (shortcut parents i) rounds ((shortcut parents i).get i)

/-- Walking from one element does not change what is found from another. -/
theorem find_find (sets : DisjointSets n) (i j : Fin n) :
    ((sets.find i).1.find j).2 = (sets.find j).2 := by
  rw [((sets.find i).1.find_exact j).1, (sets.find_exact i).2, (sets.find_exact j).1]

/-- A union tells that it merged nothing exactly if both elements were in one set. -/
theorem union_eq_false_iff (sets : DisjointSets n) (a b : Fin n) :
    (sets.union a b).2 = false ↔ sets.root a = sets.root b := by
  have foundB : ((sets.find a).1.find b).2 = sets.root b :=
    (sets.find_find a b).trans (sets.find_exact b).1
  rw [← (sets.find_exact a).1, ← foundB]
  simp only [union]
  split
  · next same => exact iff_of_true rfl same
  · next different => exact iff_of_false (by simp) different

/-- From a root there is nowhere to walk. -/
theorem find_of_isRoot {sets : DisjointSets n} {i : Fin n} (top : sets.IsRoot i) :
    sets.find i = (sets, i) := by
  rw [find, dif_pos top]

/-- From another element the walk halves its path and goes on from the parent's parent. -/
theorem find_of_inner {sets : DisjointSets n} {i : Fin n} (inner : ¬sets.IsRoot i) :
    sets.find i = (sets.halve i inner).find (sets.parent (sets.parent i)) := by
  rw [find, dif_neg inner]

/-- A walk on the bare parents ends at the root that is found, with the parents that it leaves, as soon as
it may take as many rounds as ranks lie between the element and its root.

Proof: by induction on the rounds. Each of them rises by one rank at least and moves no element to
another set. -/
theorem walk?_eq_find (sets : DisjointSets n) {rounds : Nat} {i : Fin n}
    (enough : sets.rank (sets.root i) ≤ sets.rank i + rounds) :
    walk? sets.parents rounds i = some ((sets.find i).1.parents, (sets.find i).2) := by
  induction rounds generalizing sets i with
  | zero =>
    have top : sets.IsRoot i := by
      by_contra inner
      have rises := sets.rank_lt_parent i inner
      have below := (sets.root_exact (sets.parent i)).2
      rw [root_parent] at below
      omega
    rw [walk?, if_pos (show sets.parents.get i = i from top), find_of_isRoot top]
  | succ rounds inductionHypothesis =>
    by_cases top : sets.IsRoot i
    · rw [walk?, if_pos (show sets.parents.get i = i from top), find_of_isRoot top]
    · have rises := sets.rank_lt_grandparent i top
      have kept := sets.root_halve i top (sets.parent (sets.parent i))
      rw [root_parent, root_parent] at kept
      have closer : (sets.halve i top).rank ((sets.halve i top).root (sets.parent (sets.parent i))) ≤
          (sets.halve i top).rank (sets.parent (sets.parent i)) + rounds := by
        rw [kept]
        change sets.rank _ ≤ sets.rank _ + rounds
        omega
      have next : (shortcut sets.parents i).get i = sets.parent (sets.parent i) := by
        rw [shortcut, get_set, if_pos rfl]
        rfl
      rw [walk?, if_neg (show ¬sets.parents.get i = i from top), find_of_inner top, next]
      exact inductionHypothesis _ closer

/-- No rank is worth more than there are elements. -/
theorem Earned.rank_le_log {sets : DisjointSets n} (earned : sets.Earned) (i : Fin n) :
    sets.rank i ≤ Nat.log 2 n := by
  obtain ⟨top, below⟩ := sets.root_exact i
  exact below.trans (Nat.le_log_of_pow_le (by decide) (earned.rank_le top))

/-- A call leaves ranks earned. -/
theorem Earned.call {sets : DisjointSets n} (earned : sets.Earned) (made : Call n) :
    (sets.call made).Earned := by
  cases made with
  | find i => exact earned.find i
  | union a b => exact earned.union a b

/-- Calls leave ranks earned. -/
theorem earned_afterCalls (calls : List (Call n)) : (afterCalls calls).Earned :=
  List.foldlRecOn calls call (earned_singletons n) fun _ earned made _ => earned.call made

/-- After some calls two elements are in one set exactly if the unions among the calls connect them. A
find moves no element. -/
theorem root_afterCalls_eq_iff (calls : List (Call n)) (i j : Fin n) :
    (afterCalls calls).root i = (afterCalls calls).root j ↔ Connected calls i j := by
  rw [afterCalls, same_foldl_singletons_iff Call.pair?]
  · have united (made : Call n) (x y : Fin n) : made.pair? = some (x, y) ↔ made = .union x y := by
      cases made <;> simp [Call.pair?]
    simp only [united, exists_eq_right]
    rfl
  · rintro sets (_ | ⟨x, y⟩) a b paired
    · cases paired
    · cases paired
      rfl
  · rintro sets (i | _) unpaired
    · exact (sets.find_exact i).2
    · cases unpaired

/-- After any finds and unions, ranks strictly increase along parents. A find ends after at most as many
rounds as the number of elements has binary digits behind the first, on the bare parents as well, at a
root that the unions connect to the element, and it changes no later find. Two elements find one root
exactly if the unions connect them, and a union tells that it merged nothing exactly if they did before.
A root stands for at least as many elements as two to the power of its rank, so a rank of eight bits has
room to rise whenever it is to rise, among less than two to the power of 256 elements. -/
theorem exact_after_calls (calls : List (Call n)) :
    let sets := afterCalls calls
    (∀ i, sets.parent i ≠ i → sets.rank i < sets.rank (sets.parent i)) ∧
    (∀ i, walk? sets.parents (Nat.log 2 n) i = some ((sets.find i).1.parents, (sets.find i).2) ∧
      sets.IsRoot (sets.find i).2 ∧ Connected calls i (sets.find i).2 ∧
      ∀ j, ((sets.find i).1.find j).2 = (sets.find j).2) ∧
    (∀ i j, (sets.find i).2 = (sets.find j).2 ↔ Connected calls i j) ∧
    (∀ a b, (sets.union a b).2 = false ↔ Connected calls a b) ∧
    (∀ r, sets.IsRoot r →
      2 ^ sets.rank r ≤ (Finset.univ.filter fun i => (sets.find i).2 = r).card) ∧
    (n < 2 ^ rankLimit →
      (∀ i, sets.rank i < rankLimit) ∧ ∀ a b, sets.unionSafe a b = true) := by
  intro sets
  have earned := earned_afterCalls calls
  have found (i : Fin n) : (sets.find i).2 = sets.root i := (sets.find_exact i).1
  have top (i : Fin n) : sets.IsRoot (sets.root i) := (sets.root_exact i).1
  refine ⟨sets.rank_lt_parent, fun i => ⟨?_, ?_, ?_, sets.find_find i⟩, fun i j => ?_, fun a b => ?_,
    fun r isRoot => ?_, fun few => ⟨fun i => ?_, earned.unionSafe few⟩⟩
  · exact sets.walk?_eq_find ((earned.rank_le_log _).trans (Nat.le_add_left ..))
  · rw [found]
    exact top i
  · rw [found, ← root_afterCalls_eq_iff]
    exact (root_of_isRoot (top i)).symm
  · rw [found, found]
    exact root_afterCalls_eq_iff calls i j
  · rw [union_eq_false_iff]
    exact root_afterCalls_eq_iff calls a b
  · simp only [found]
    exact earned r isRoot
  · refine (sets.root_exact i).2.trans_lt ?_
    exact (Nat.pow_lt_pow_iff_right (by decide)).mp ((earned.rank_le (top i)).trans_lt few)

/-- Five elements, of which two pairs are united, and then the pairs, with finds in between. -/
def pairedCalls : List (Call 5) :=
  [.union 0 1, .union 3 4, .find 1, .union 1 0, .find 4, .union 1 4, .find 4]

/-- After these calls the pairs are one set of four elements, whose root has risen twice and has room to
rise; a further union of two of them merges nothing, and the fifth element is on its own. -/
theorem pairedCalls_exact :
    5 < 2 ^ rankLimit ∧ Connected pairedCalls 0 3 ∧ ¬Connected pairedCalls 2 0 ∧
      ((afterCalls pairedCalls).find 0).2 = ((afterCalls pairedCalls).find 3).2 ∧
      ((afterCalls pairedCalls).union 4 1).2 = false ∧
      (afterCalls pairedCalls).rank 0 = 2 ∧
      2 ^ 2 ≤ (Finset.univ.filter fun i => ((afterCalls pairedCalls).find i).2 = 0).card ∧
      (afterCalls pairedCalls).unionSafe 0 2 = true := by
  obtain ⟨_, _, same, merges, worth, room⟩ := exact_after_calls pairedCalls
  have few : 5 < 2 ^ rankLimit := by decide
  have raised : (afterCalls pairedCalls).rank 0 = 2 := by decide +kernel
  have top : (afterCalls pairedCalls).IsRoot 0 := by decide +kernel
  have united : Connected pairedCalls 0 3 := (same 0 3).mp (by decide +kernel)
  have pair : Connected pairedCalls 4 1 := (same 4 1).mp (by decide +kernel)
  have alone : ¬Connected pairedCalls 2 0 := fun connected =>
    absurd ((same 2 0).mpr connected) (by decide +kernel)
  exact ⟨few, united, alone, (same 0 3).mpr united, (merges 4 1).mpr pair, raised, raised ▸ worth 0 top,
    (room few).2 0 2⟩

end Breadboard.DisjointSets
