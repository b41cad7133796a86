import Breadboard.Net.DisjointSets
import Mathlib.Data.Setoid.Basic

/-!
# The partition that a forest stands for

Two elements are in one set when the same root stands above both. Walking to a root shortens paths
but moves no element to another set, and uniting two sets merges exactly these two. A run of unions
therefore leaves the equivalence that its pairs generate, in whatever order they come.

Ranks strictly increase along parents, so statements about all elements are proved from the elements
of higher rank downward.
-/

namespace Breadboard.DisjointSets

variable {n : Nat}

/-- What holds of an element as soon as it holds of all elements of higher rank holds of every
element. Ranks are bounded by the largest, so the ascent ends. -/
theorem rising_induction (sets : DisjointSets n) {motive : Fin n → Prop}
    (step : ∀ i, (∀ j, sets.rank i < sets.rank j → motive j) → motive i) (i : Fin n) :
    motive i := by
  generalize distance : largest sets.ranks.toList - sets.rank i = d
  induction d using Nat.strongRecOn generalizing i with
  | ind d inductionHypothesis =>
    refine step i fun j higher => ?_
    have bounded := sets.rank_le_largest j
    exact inductionHypothesis _ (by omega) j rfl

/-- The root above an element, found without shortening any path. -/
def root (sets : DisjointSets n) (i : Fin n) : Fin n :=
  if sets.IsRoot i then i else sets.root (sets.parent i)
termination_by largest sets.ranks.toList - sets.rank i
decreasing_by
  rename_i inner
  have rises := sets.rank_lt_parent i inner
  have bounded := sets.rank_le_largest (sets.parent i)
  show largest sets.ranks.toList - sets.rank _ < _
  omega

/-- An element that is its own parent stands above itself. -/
theorem root_of_isRoot {sets : DisjointSets n} {i : Fin n} (top : sets.IsRoot i) :
    sets.root i = i := by
  rw [root, if_pos top]

/-- The root above an element stands above its parent as well. -/
theorem root_parent (sets : DisjointSets n) (i : Fin n) :
    sets.root (sets.parent i) = sets.root i := by
  by_cases top : sets.IsRoot i
  · rw [show sets.parent i = i from top]
  · rw [root.eq_def sets i, if_neg top]

/-- What stands above an element is a root of no lower rank. -/
theorem root_exact (sets : DisjointSets n) (i : Fin n) :
    sets.IsRoot (sets.root i) ∧ sets.rank i ≤ sets.rank (sets.root i) := by
  induction i using sets.rising_induction with
  | step i inductionHypothesis =>
    by_cases top : sets.IsRoot i
    · rw [root_of_isRoot top]
      exact ⟨top, Nat.le_refl _⟩
    · have rises := sets.rank_lt_parent i top
      obtain ⟨isRoot, below⟩ := inductionHypothesis _ rises
      rw [root_parent] at isRoot below
      exact ⟨isRoot, by omega⟩

/-- Hanging an element changes its own parent only. -/
theorem parent_hang (sets : DisjointSets n) {low high : Fin n}
    (below : sets.rank low < sets.rank high) (i : Fin n) :
    (sets.hang low high below).parent i = if low = i then high else sets.parent i := by
  simp only [parent, hang, get_set]

/-- Hanging an element below another puts everything that stood below it under the root of the
other. Nothing else moves.

Proof: descend from high ranks. The hung element now has the other as its parent, whose rank is
higher; every other element keeps its parent. -/
theorem root_hang (sets : DisjointSets n) {low high : Fin n}
    (below : sets.rank low < sets.rank high)
    (settled : sets.IsRoot low ∨ sets.root high = sets.root low) (i : Fin n) :
    (sets.hang low high below).root i =
      if sets.root i = low then sets.root high else sets.root i := by
  have stays : sets.root high ≠ low := by
    intro same
    have above := (sets.root_exact high).2
    rw [same] at above
    omega
  induction i using sets.rising_induction with
  | step i inductionHypothesis =>
    have parents := sets.parent_hang below i
    by_cases hung : low = i
    · subst hung
      rw [if_pos rfl] at parents
      rw [← root_parent, parents, inductionHypothesis high below, if_neg stays]
      rcases settled with top | same
      · rw [root_of_isRoot top, if_pos rfl]
      · rw [← same, if_neg stays]
    · rw [if_neg hung] at parents
      by_cases top : sets.IsRoot i
      · have topAfter : (sets.hang low high below).IsRoot i := parents.trans top
        rw [root_of_isRoot topAfter, root_of_isRoot top, if_neg (Ne.symm hung)]
      · rw [← root_parent, parents, inductionHypothesis _ (sets.rank_lt_parent i top),
          root_parent]

/-- Halving a path moves no element to another set. -/
theorem root_halve (sets : DisjointSets n) (i : Fin n) (inner : ¬sets.IsRoot i) (j : Fin n) :
    (sets.halve i inner).root j = sets.root j := by
  have same : sets.root (sets.parent (sets.parent i)) = sets.root i := by
    rw [root_parent, root_parent]
  rw [halve, root_hang sets _ (.inr same)]
  split
  · next reached =>
    have top := (sets.root_exact j).1
    rw [reached] at top
    exact absurd top inner
  · rfl

/-- The walk ends at the root above the element it starts from, and leaves every element in its
set. -/
theorem find_exact (sets : DisjointSets n) (i : Fin n) :
    (sets.find i).2 = sets.root i ∧ ∀ j, (sets.find i).1.root j = sets.root j := by
  fun_induction find sets i with
  | case1 sets i top => exact ⟨(root_of_isRoot top).symm, fun _ => rfl⟩
  | case2 sets i inner inductionHypothesis =>
    obtain ⟨found, kept⟩ := inductionHypothesis
    refine ⟨?_, fun j => (kept j).trans (sets.root_halve i inner j)⟩
    rw [found, root_halve, root_parent, root_parent]

/-- Raising a rank changes no parent and so no root. -/
theorem root_raise (sets : DisjointSets n) (r : Fin n) (top : sets.IsRoot r) (i : Fin n) :
    (sets.raise r top).root i = sets.root i := by
  induction i using sets.rising_induction with
  | step i inductionHypothesis =>
    have parents : (sets.raise r top).parent i = sets.parent i := rfl
    by_cases isRoot : sets.IsRoot i
    · have after : (sets.raise r top).IsRoot i := isRoot
      rw [root_of_isRoot isRoot, root_of_isRoot after]
    · rw [← root_parent, parents, inductionHypothesis _ (sets.rank_lt_parent i isRoot),
        root_parent]

/-- Linking two roots puts one of them above everything that stood below either. -/
theorem root_link (sets : DisjointSets n) (a b : Fin n) (rootA : sets.IsRoot a)
    (rootB : sets.IsRoot b) :
    ∃ top, (top = a ∨ top = b) ∧ ∀ i, (sets.link a b rootA).root i =
      if sets.root i = a ∨ sets.root i = b then top else sets.root i := by
  have ofA : sets.root a = a := root_of_isRoot rootA
  have ofB : sets.root b = b := root_of_isRoot rootB
  unfold link
  split
  · next less =>
    refine ⟨b, .inr rfl, fun i => ?_⟩
    rw [root_hang sets less (.inl rootA), ofB]
    grind
  · split
    · next greater =>
      refine ⟨a, .inl rfl, fun i => ?_⟩
      rw [root_hang sets greater (.inl rootB), ofA]
      grind
    · split
      · next same =>
        refine ⟨a, .inl rfl, fun i => ?_⟩
        grind
      · have topB : (sets.raise a rootA).IsRoot b := rootB
        refine ⟨a, .inl rfl, fun i => ?_⟩
        rw [root_hang (sets.raise a rootA) _ (.inl topB), root_raise, root_raise, ofA]
        grind

/-- Uniting the sets of two elements merges exactly these two sets. -/
theorem same_union_iff (sets : DisjointSets n) (a b i j : Fin n) :
    (sets.union a b).1.root i = (sets.union a b).1.root j ↔
      sets.root i = sets.root j ∨ (sets.root i = sets.root a ∧ sets.root j = sets.root b) ∨
        (sets.root i = sets.root b ∧ sets.root j = sets.root a) := by
  obtain ⟨foundA, keptA⟩ := sets.find_exact a
  obtain ⟨foundB, keptB⟩ := (sets.find a).1.find_exact b
  have kept (x : Fin n) : ((sets.find a).1.find b).1.root x = sets.root x :=
    (keptB x).trans (keptA x)
  have foundB' : ((sets.find a).1.find b).2 = sets.root b := foundB.trans (keptA b)
  simp only [union]
  split
  · next same =>
    rw [foundA, foundB'] at same
    simp only [kept]
    grind
  · next different =>
    obtain ⟨top, isEnd, merged⟩ := root_link ((sets.find a).1.find b).1 (sets.find a).2
      ((sets.find a).1.find b).2 ((sets.isRoot_find a).find b) ((sets.find a).1.isRoot_find b)
    rw [merged, merged]
    simp only [kept, foundA, foundB'] at isEnd different ⊢
    grind

/-- At first every element is the root of its own set. -/
theorem root_singletons (i : Fin n) : (singletons n).root i = i :=
  root_of_isRoot (by simp [IsRoot, parent, singletons, get_eq_getElem])

/-- The sets of a forest after one union and some further relation generate what the sets before, the
united pair and that relation generate. -/
theorem eqvGen_union_iff (sets : DisjointSets n) (a b : Fin n) (further : Fin n → Fin n → Prop)
    (i j : Fin n) :
    Relation.EqvGen
        (fun x y => (sets.union a b).1.root x = (sets.union a b).1.root y ∨ further x y) i j ↔
      Relation.EqvGen
        (fun x y => sets.root x = sets.root y ∨ (a = x ∧ b = y) ∨ further x y) i j := by
  constructor
  · intro linked
    refine Setoid.eqvGen_le (s := Relation.EqvGen.setoid _) ?_ linked
    have whole (x y : Fin n) (same : sets.root x = sets.root y) : Relation.EqvGen
        (fun x y => sets.root x = sets.root y ∨ (a = x ∧ b = y) ∨ further x y) x y :=
      .rel _ _ (.inl same)
    have edge : Relation.EqvGen
        (fun x y => sets.root x = sets.root y ∨ (a = x ∧ b = y) ∨ further x y) a b :=
      .rel _ _ (.inr (.inl ⟨rfl, rfl⟩))
    rintro x y (merged | related)
    · rcases (sets.same_union_iff a b x y).mp merged with same | ⟨xa, yb⟩ | ⟨xb, ya⟩
      · exact whole x y same
      · exact .trans _ _ _ (whole x a xa) (.trans _ _ _ edge (whole b y yb.symm))
      · exact .trans _ _ _ (whole x b xb) (.trans _ _ _ (.symm _ _ edge) (whole a y ya.symm))
    · exact .rel _ _ (.inr (.inr related))
  · intro linked
    refine Relation.EqvGen.mono ?_ _ _ linked
    rintro x y (same | ⟨rfl, rfl⟩ | related)
    · exact .inl ((sets.same_union_iff a b x y).mpr (.inl same))
    · exact .inl ((sets.same_union_iff a b a b).mpr (.inr (.inl ⟨rfl, rfl⟩)))
    · exact .inr related

/-- Steps performed one after the other, each a union of two elements or one that moves no element,
leave exactly the equivalence generated by the sets before and the united pairs.

Proof: by induction over the run. One union adds its pair to the generating relation. -/
theorem same_foldl_union_iff {α : Type} (pair? : α → Option (Fin n × Fin n))
    (step : DisjointSets n → α → DisjointSets n)
    (unites : ∀ sets item a b, pair? item = some (a, b) → step sets item = (sets.union a b).1)
    (skips : ∀ sets item, pair? item = none → ∀ i, (step sets item).root i = sets.root i)
    (items : List α) (sets : DisjointSets n) (i j : Fin n) :
    (items.foldl step sets).root i = (items.foldl step sets).root j ↔
      Relation.EqvGen
        (fun x y => sets.root x = sets.root y ∨ ∃ item ∈ items, pair? item = some (x, y)) i j := by
  induction items generalizing sets with
  | nil =>
    simp only [List.not_mem_nil, false_and, exists_false, or_false, List.foldl_nil]
    exact (Equivalence.eqvGen_iff (Setoid.ker sets.root).iseqv).symm
  | cons item rest inductionHypothesis =>
    rw [List.foldl_cons, inductionHypothesis]
    cases united : pair? item with
    | none =>
      simp only [skips sets item united, List.mem_cons, exists_eq_or_imp, united, reduceCtorEq,
        false_or]
    | some ends =>
      rw [unites sets item ends.1 ends.2 united, eqvGen_union_iff]
      simp only [List.mem_cons, exists_eq_or_imp, united, Option.some.injEq, Prod.ext_iff]

/-- From single elements on, unions leave the equivalence that their pairs generate. -/
theorem same_foldl_singletons_iff {α : Type} (pair? : α → Option (Fin n × Fin n))
    (step : DisjointSets n → α → DisjointSets n)
    (unites : ∀ sets item a b, pair? item = some (a, b) → step sets item = (sets.union a b).1)
    (skips : ∀ sets item, pair? item = none → ∀ i, (step sets item).root i = sets.root i)
    (items : List α) (i j : Fin n) :
    (items.foldl step (singletons n)).root i = (items.foldl step (singletons n)).root j ↔
      Relation.EqvGen (fun x y => ∃ item ∈ items, pair? item = some (x, y)) i j := by
  rw [same_foldl_union_iff pair? step unites skips]
  simp only [root_singletons]
  constructor
  · refine fun linked => Setoid.eqvGen_le (s := Relation.EqvGen.setoid _) ?_ linked
    rintro x y (rfl | related)
    · exact .refl x
    · exact .rel _ _ related
  · exact Relation.EqvGen.mono (fun _ _ related => .inr related) _ _

end Breadboard.DisjointSets
