import Breadboard.Proofs.Engine.Coherence
import Breadboard.Proofs.List.FirstOccurrences
import Breadboard.Proofs.Net.Partition
import Breadboard.Proofs.Safety.Signals
import Mathlib.Algebra.Group.Nat.Defs
import Mathlib.Data.Finset.Card
import Mathlib.Data.Fintype.Card

/-!
# Checks on nets

A net resolves to the wired or of its sources, and its signal is staged at its sinks. When nets are
built, ranks of eight bits are raised, and when they are kept, builds are counted. A rank is raised only
where two sets of one rank become one. So a root of some rank stands for at least that power of two of
ports, and ranks stay far below the end of their type. Builds are counted for revisions that are not
kept, each of which is kept from then on.
-/

namespace Breadboard

/-- One more than the greatest rank. -/
def rankLimit : Nat := 0x100

namespace DisjointSets

variable {n : Nat}

/-- The rank that rises when two sets are united has room to. -/
def unionSafe (sets : DisjointSets n) (a b : Fin n) : Bool :=
  let first := sets.find a
  let second := first.1.find b
  first.2 == second.2 || second.1.rank first.2 != second.1.rank second.2 ||
    second.1.rank first.2 + 1 < rankLimit

/-- The elements that a root stands for. -/
def below (sets : DisjointSets n) (root : Fin n) : Finset (Fin n) :=
  Finset.univ.filter fun i => sets.root i = root

/-- Every root stands for as many elements as its rank is worth, a power of two. -/
def Earned (sets : DisjointSets n) : Prop :=
  ∀ r, sets.IsRoot r → 2 ^ sets.rank r ≤ (sets.below r).card

/-- Different roots stand for different elements. -/
theorem disjoint_below (sets : DisjointSets n) {a b : Fin n} (apart : a ≠ b) :
    Disjoint (sets.below a) (sets.below b) := by
  refine Finset.disjoint_left.mpr fun i underA underB => apart ?_
  simp only [below, Finset.mem_filter, Finset.mem_univ, true_and] at underA underB
  exact underA.symm.trans underB

/-- A root is what stands above itself. -/
theorem isRoot_iff {sets : DisjointSets n} {r : Fin n} : sets.IsRoot r ↔ sets.root r = r := by
  constructor
  · exact root_of_isRoot
  · intro above
    exact above ▸ (sets.root_exact r).1

/-- No rank is worth more than there are elements. -/
theorem Earned.rank_le {sets : DisjointSets n} (earned : sets.Earned) {r : Fin n}
    (top : sets.IsRoot r) : 2 ^ sets.rank r ≤ n := by
  calc 2 ^ sets.rank r
      _ ≤ (sets.below r).card := earned r top
      _ ≤ (Finset.univ : Finset (Fin n)).card := Finset.card_le_card (Finset.filter_subset _ _)
      _ = n := Finset.card_fin n

/-- Single elements earn the lowest rank. -/
theorem earned_singletons (n : Nat) : (singletons n).Earned := by
  intro r _
  have lowest : (singletons n).rank r = 0 := by
    simp [rank, singletons, get_eq_getElem]
  have own : r ∈ (singletons n).below r := by
    simp [below, root_singletons]
  rw [lowest]
  exact Finset.card_pos.mpr ⟨r, own⟩

/-- Where no element moves and no rank rises, ranks stay earned. -/
theorem Earned.of_root_eq {before after : DisjointSets n} (earned : before.Earned)
    (roots : ∀ i, after.root i = before.root i) (ranks : after.ranks = before.ranks) :
    after.Earned := by
  intro r top
  have topBefore : before.IsRoot r := by
    rw [isRoot_iff, ← roots]
    exact isRoot_iff.mp top
  have sameBelow : after.below r = before.below r := by
    simp only [below, roots]
  have sameRank : after.rank r = before.rank r := by
    rw [rank, ranks, rank]
  rw [sameBelow, sameRank]
  exact earned r topBefore

/-- Walking to a root leaves ranks earned. -/
theorem Earned.find {sets : DisjointSets n} (earned : sets.Earned) (i : Fin n) :
    (sets.find i).1.Earned :=
  earned.of_root_eq (sets.find_exact i).2 (sets.find_ranks i)

/-- A root that hangs below another one brings it all that it stood for. Ranks are earned afterwards if
the other one earns its rank with that, and the rest with what they had. -/
theorem earned_hang {sets : DisjointSets n} {low high : Fin n} (less : sets.rank low < sets.rank high)
    (topLow : sets.IsRoot low) (topHigh : sets.IsRoot high)
    (own : 2 ^ sets.rank high ≤ (sets.below low).card + (sets.below high).card)
    (rest : ∀ r, sets.IsRoot r → r ≠ low → r ≠ high → 2 ^ sets.rank r ≤ (sets.below r).card) :
    (sets.hang low high less).Earned := by
  have roots (i : Fin n) : (sets.hang low high less).root i =
      if sets.root i = low then high else sets.root i := by
    rw [root_hang sets less (.inl topLow), root_of_isRoot topHigh]
  have apart : high ≠ low := by
    rintro rfl
    exact Nat.lt_irrefl _ less
  intro r top
  have above := isRoot_iff.mp top
  rw [roots] at above
  have notLow : r ≠ low := by
    rintro rfl
    rw [root_of_isRoot topLow, if_pos rfl] at above
    exact apart above
  change 2 ^ sets.rank r ≤ _
  by_cases isHigh : r = high
  · subst isHigh
    have gathered : (sets.hang low r less).below r = sets.below low ∪ sets.below r := by
      ext i
      simp only [below, Finset.mem_filter, Finset.mem_univ, true_and, Finset.mem_union, roots]
      split <;> simp_all
    rw [gathered, Finset.card_union_of_disjoint (sets.disjoint_below apart.symm)]
    exact own
  · have topBefore : sets.IsRoot r := by
      refine isRoot_iff.mpr ?_
      split at above
      · exact absurd above.symm isHigh
      · exact above
    have same : (sets.hang low high less).below r = sets.below r := by
      ext i
      simp only [below, Finset.mem_filter, Finset.mem_univ, true_and, roots]
      split
      · next underLow =>
        constructor
        · intro same
          exact absurd same.symm isHigh
        · intro same
          exact absurd (same.symm.trans underLow) notLow
      · exact Iff.rfl
    rw [same]
    exact rest r topBefore notLow isHigh

/-- Linking two roots leaves ranks earned. Where the ranks are equal, the one that rises by one stands
for twice what it was worth. -/
theorem Earned.link {sets : DisjointSets n} (earned : sets.Earned) {a b : Fin n} (rootA : sets.IsRoot a)
    (rootB : sets.IsRoot b) : (sets.link a b rootA).Earned := by
  unfold DisjointSets.link
  split
  · next less =>
    refine earned_hang less rootA rootB ?_ fun r top _ _ => earned r top
    exact Nat.le_trans (earned b rootB) (Nat.le_add_left ..)
  · next notLess =>
    split
    · next greater =>
      refine earned_hang greater rootB rootA ?_ fun r top _ _ => earned r top
      exact Nat.le_trans (earned a rootA) (Nat.le_add_left ..)
    · next notGreater =>
      split
      · exact earned
      · next different =>
        have worth (r : Fin n) : (sets.raise a rootA).rank r =
            if a = r then sets.rank a + 1 else sets.rank r := by
          simp only [rank, raise, get_set]
        have belowRaised (r : Fin n) : (sets.raise a rootA).below r = sets.below r := by
          simp only [below, root_raise]
        refine earned_hang _ rootB rootA ?_ fun r top _ isOther => ?_
        · have equal : sets.rank b = sets.rank a := by omega
          have earnedB := earned b rootB
          rw [equal] at earnedB
          have earnedA := earned a rootA
          rw [worth, if_pos rfl, belowRaised, belowRaised, Nat.pow_succ]
          omega
        · rw [worth, if_neg (Ne.symm isOther), belowRaised]
          exact earned r top

/-- Uniting two sets leaves ranks earned. -/
theorem Earned.union {sets : DisjointSets n} (earned : sets.Earned) (a b : Fin n) :
    (sets.union a b).1.Earned := by
  have walked : ((sets.find a).1.find b).1.Earned := (earned.find a).find b
  simp only [DisjointSets.union]
  split
  · exact walked
  · exact walked.link ((sets.isRoot_find a).find b) ((sets.find a).1.isRoot_find b)

/-- Two roots stand for different elements, so their ranks together are worth no more than there are
elements. -/
theorem Earned.rank_add_rank_le {sets : DisjointSets n} (earned : sets.Earned) {a b : Fin n}
    (topA : sets.IsRoot a) (topB : sets.IsRoot b) (apart : a ≠ b) :
    2 ^ sets.rank a + 2 ^ sets.rank b ≤ n := by
  calc 2 ^ sets.rank a + 2 ^ sets.rank b
      _ ≤ (sets.below a).card + (sets.below b).card := Nat.add_le_add (earned a topA) (earned b topB)
      _ = (sets.below a ∪ sets.below b).card :=
          (Finset.card_union_of_disjoint (sets.disjoint_below apart)).symm
      _ ≤ (Finset.univ : Finset (Fin n)).card := Finset.card_le_card (Finset.subset_univ _)
      _ = n := Finset.card_fin n

/-- Earned ranks have room to rise, as long as there are less than two to the power of 256 elements: a
rank rises only where two roots of that rank meet. -/
theorem Earned.unionSafe {sets : DisjointSets n} (earned : sets.Earned) (few : n < 2 ^ rankLimit)
    (a b : Fin n) : sets.unionSafe a b = true := by
  have topA : ((sets.find a).1.find b).1.IsRoot (sets.find a).2 := (sets.isRoot_find a).find b
  have topB : ((sets.find a).1.find b).1.IsRoot ((sets.find a).1.find b).2 :=
    (sets.find a).1.isRoot_find b
  simp only [DisjointSets.unionSafe, Bool.or_eq_true, beq_iff_eq, bne_iff_ne, decide_eq_true_eq]
  refine or_iff_not_imp_left.mpr fun meet => ?_
  obtain ⟨apart, level⟩ := not_or.mp meet
  have together := ((earned.find a).find b).rank_add_rank_le topA topB apart
  rw [← not_ne_iff.mp level, ← Nat.two_mul, ← Nat.pow_succ'] at together
  exact (Nat.pow_lt_pow_iff_right (by decide)).mp (Nat.lt_of_le_of_lt together few)

end DisjointSets

namespace Circuit

/-- The checks of uniting the ends of a wire. -/
def uniteSafe (circuit : Circuit) (ports : List WiredPort) (sets : DisjointSets ports.length)
    (wire : Wire) : Bool :=
  match (circuit.wiredPort? wire.first).bind ports.finIdxOf?,
    (circuit.wiredPort? wire.second).bind ports.finIdxOf? with
  | some a, some b => sets.unionSafe a b
  | _, _ => true

/-- The checks of building the nets of a circuit. -/
def buildSafe (circuit : Circuit) : Bool :=
  let ports := circuit.wiredPorts
  foldSafe (circuit.uniteEnds ports) (circuit.uniteSafe ports) (.singletons ports.length) circuit.wires

/-- There are at most two ports for every wire. -/
theorem length_wiredPorts_le (circuit : Circuit) :
    circuit.wiredPorts.length ≤ 2 * circuit.wires.length := by
  have ends : (circuit.wires.flatMap fun wire => [wire.first, wire.second]).length =
      2 * circuit.wires.length := by
    simp [List.length_flatMap, Nat.mul_comm]
  have distinct (ports : List WiredPort) : ports.eraseDups.length ≤ ports.length :=
    ((FirstOccurrences.nodup_eraseDups ports).subperm fun _ => List.mem_eraseDups.mp).length_le
  rw [wiredPorts, ← ends]
  exact Nat.le_trans (distinct _) (List.length_filterMap_le ..)

/-- The ends of a wire are united safely in sets of earned ranks, which stay earned. -/
theorem uniteSafe_of_earned {circuit : Circuit} {ports : List WiredPort} (few : ports.length < 2 ^ rankLimit)
    {sets : DisjointSets ports.length} (earned : sets.Earned) (wire : Wire) :
    circuit.uniteSafe ports sets wire = true ∧ (circuit.uniteEnds ports sets wire).Earned := by
  unfold uniteSafe uniteEnds
  rcases (circuit.wiredPort? wire.first).bind ports.finIdxOf? with _ | a
  · exact ⟨rfl, earned⟩
  · rcases (circuit.wiredPort? wire.second).bind ports.finIdxOf? with _ | b
    · exact ⟨rfl, earned⟩
    · exact ⟨earned.unionSafe few a b, earned.union a b⟩

/-- No rank passes the end of its type when the nets of a circuit with fewer than two to the power of 64
wires are built. -/
theorem buildSafe_of_wires {circuit : Circuit} (few : circuit.wires.length < wordLimit) :
    circuit.buildSafe = true := by
  have fewPorts : circuit.wiredPorts.length < 2 ^ rankLimit := by
    calc circuit.wiredPorts.length
        _ ≤ 2 * circuit.wires.length := circuit.length_wiredPorts_le
        _ < 2 * wordLimit := Nat.mul_lt_mul_of_pos_left few (by decide)
        _ < 2 ^ rankLimit := by decide
  exact foldSafe_of_invariant DisjointSets.Earned
    (fun _ earned wire _ => uniteSafe_of_earned fewPorts earned wire)
    (DisjointSets.earned_singletons _)

end Circuit

namespace Net

/-- The checks of merging a source into the signal of a net. -/
def sourceSafe (net : Net) (total signal : Signal) : Bool :=
  total.mergeSafe net.width signal

/-- The checks of resolving a net. -/
def resolveSafe (net : Net) (circuit : Circuit) : Bool :=
  foldSafe (fun total signal => total.merge net.width signal) net.sourceSafe (.zero net.width)
    (net.sources.filterMap (driven? circuit))

/-- No net fails a check when it is resolved, whatever its sources drive. -/
@[simp] theorem resolveSafe_eq (net : Net) (circuit : Circuit) : net.resolveSafe circuit = true :=
  foldSafe_of_forall (fun total signal => total.mergeSafe_eq net.width signal) _ _

end Net

namespace NetlistCache

variable {cache : NetlistCache} {revisions : Finset Revision} {limit : Nat} {circuit : Circuit}

/-- The checks of asking for the netlist of a circuit. -/
def askSafe (cache : NetlistCache) (circuit : Circuit) : Bool :=
  (cache.get? circuit.revision).isSome || (cache.builds + 1 < wordLimit && circuit.buildSafe)

/-- Builds stay below a limit if one more is counted for every one of some revisions that is not kept.
-/
def RoomFor (revisions : Finset Revision) (limit : Nat) (cache : NetlistCache) : Prop :=
  cache.builds + (revisions.filter fun revision => cache.get? revision = none).card < limit

/-- There is room for all of some revisions, kept or not. -/
theorem RoomFor.of_builds (room : cache.builds + revisions.card < limit) :
    cache.RoomFor revisions limit :=
  Nat.lt_of_le_of_lt (Nat.add_le_add_left (Finset.card_le_card (Finset.filter_subset _ _)) _) room

/-- Where there is room, builds are below the limit. -/
theorem RoomFor.builds_lt (room : cache.RoomFor revisions limit) : cache.builds < limit :=
  Nat.lt_of_le_of_lt (Nat.le_add_right ..) room

/-- After asking for a circuit, the netlist of its revision is kept, and those that were kept before. -/
theorem get?_getOrBuild_eq_none_iff {revision : Revision} :
    (cache.getOrBuild circuit).2.get? revision = none ↔
      cache.get? revision = none ∧ revision ≠ circuit.revision := by
  unfold getOrBuild
  split
  · next kept found =>
    have present : ¬∀ entry ∈ cache.entries, entry.netlist.revision ≠ circuit.revision := by
      rw [← get?_eq_none_iff, found]
      exact Option.some_ne_none kept
    simp only [get?_eq_none_iff, List.forall_mem_map, netlist_marked]
    constructor
    · intro none
      refine ⟨none, ?_⟩
      rintro rfl
      exact present none
    · exact And.left
  · simp only [get?_eq_none_iff, List.forall_mem_append, List.forall_mem_singleton]
    exact and_congr_right fun _ => ⟨Ne.symm, Ne.symm⟩

/-- Where there is room for its revision, a circuit is asked for safely. -/
theorem RoomFor.askSafe (room : cache.RoomFor revisions wordLimit)
    (member : circuit.revision ∈ revisions) (few : circuit.wires.length < wordLimit) :
    cache.askSafe circuit = true := by
  rw [NetlistCache.askSafe, Circuit.buildSafe_of_wires few, Bool.and_true]
  cases found : cache.get? circuit.revision with
  | some kept => rfl
  | none =>
    have missing : circuit.revision ∈ revisions.filter fun revision => cache.get? revision = none :=
      Finset.mem_filter.mpr ⟨member, found⟩
    have some := Finset.card_pos.mpr ⟨_, missing⟩
    rw [RoomFor] at room
    simp only [Option.isSome_none, Bool.false_or, decide_eq_true_eq]
    omega

/-- Asking for a circuit leaves room for the rest: the netlist that is built is kept from then on. -/
theorem RoomFor.getOrBuild (room : cache.RoomFor revisions limit)
    (member : circuit.revision ∈ revisions) :
    (cache.getOrBuild circuit).2.RoomFor revisions limit := by
  have after : (revisions.filter fun revision => (cache.getOrBuild circuit).2.get? revision = none) =
      (revisions.filter fun revision => cache.get? revision = none).erase circuit.revision := by
    ext revision
    simp only [Finset.mem_filter, Finset.mem_erase, get?_getOrBuild_eq_none_iff]
    tauto
  rw [RoomFor] at room
  rw [RoomFor, after]
  cases found : cache.get? circuit.revision with
  | some kept =>
    rw [NetlistCache.getOrBuild, found]
    exact Nat.lt_of_le_of_lt (Nat.add_le_add_left Finset.card_erase_le _) room
  | none =>
    have missing : circuit.revision ∈ revisions.filter fun revision => cache.get? revision = none :=
      Finset.mem_filter.mpr ⟨member, found⟩
    have counted := Finset.card_erase_add_one missing
    have builds : (cache.getOrBuild circuit).2.builds = cache.builds + 1 := by
      rw [NetlistCache.getOrBuild, found]
    omega

end NetlistCache

end Breadboard
