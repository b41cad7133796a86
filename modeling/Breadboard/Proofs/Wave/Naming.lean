import Breadboard.Proofs.Circuit.Nodes
import Breadboard.Proofs.Wave.Words
import Mathlib.Data.List.DropRight

/-!
# Telling signals apart

A dump speaks of a signal by its code, and a viewer shows it by its name. A code tells its place among
the declarations. A name tells the handle of its node, which is written in all the digits that the name
ends in: a label may itself end in digits or in the name of another node, but an `n` stands between the
label and the handle.
-/

namespace Breadboard

namespace Text

/-- The digits of a number are all that a text ends in if another character stands in front. -/
theorem rtakeWhile_decimal (front : List Char) {c : Char} (other : c.isDigit = false) (n : Nat) :
    (front ++ c :: decimal n).rtakeWhile Char.isDigit = decimal n := by
  have digits : ∀ c ∈ (decimal n).reverse, c.isDigit = true := fun c member =>
    isDigit_of_mem_decimal n c (List.mem_reverse.mp member)
  have turned : (front ++ c :: decimal n).reverse =
      (decimal n).reverse ++ c :: front.reverse := by simp
  rw [List.rtakeWhile, turned, List.takeWhile_append_of_pos digits,
    List.takeWhile_cons_of_neg (Bool.eq_false_iff.mp other), List.append_nil, List.reverse_reverse]

end Text

namespace Node

variable {Inner : Type}

/-- The handle that a name ends in. -/
def namedHandle? (name : List Char) : Option NodeId :=
  Text.value? 10 (name.rtakeWhile Char.isDigit)

/-- A name ends in the handle, behind an `n`. -/
theorem exists_front_of_traceName (node : Node Inner) (id : NodeId) :
    ∃ front, (node.traceName id).toList = front ++ 'n' :: Text.decimal id := by
  rw [traceName, String.toList_ofList]
  split
  · exact ⟨[], rfl⟩
  · exact ⟨_ ++ ['_'], by rw [List.append_assoc]; rfl⟩

/-- The handle of a node is read back from its name, whatever its label. -/
theorem namedHandle?_traceName (node : Node Inner) (id : NodeId) :
    namedHandle? (node.traceName id).toList = some id := by
  obtain ⟨front, ending⟩ := node.exists_front_of_traceName id
  rw [namedHandle?, ending, Text.rtakeWhile_decimal front rfl, Text.value?_decimal]

/-- Names at different handles differ, whatever nodes stand there. -/
theorem traceName_ne {id otherId : NodeId} (apart : id ≠ otherId) (node other : Node Inner) :
    node.traceName id ≠ other.traceName otherId := by
  intro same
  have handles := node.namedHandle?_traceName id
  rw [same, other.namedHandle?_traceName] at handles
  exact apart (Option.some.inj handles).symm

end Node

namespace Dump

/-- Codes and names are unambiguous. Different places have different codes, and the codes are exactly
the texts of at least one character that are made of the characters from `!` to `~`. In every circuit,
the name of a node is one word, without blanks, and no node at another handle has the same name. -/
theorem codes_and_names_unambiguous :
    Function.Injective codeOf ∧
    (∀ text, (∃ place, codeOf place = text) ↔ IsCode text) ∧
    ∀ (circuit : Circuit) (id : NodeId) (node : Node Circuit), circuit.node? id = some node →
      Text.IsWord (node.traceName id).toList ∧
      ∀ (otherId : NodeId) (other : Node Circuit), circuit.node? otherId = some other →
        otherId ≠ id → other.traceName otherId ≠ node.traceName id := by
  have codes : ∀ text, (∃ place, codeOf place = text) ↔ IsCode text := by
    intro text
    constructor
    · rintro ⟨place, rfl⟩
      exact isCode_codeOf place
    · intro code
      exact ⟨ordinal text - 1, codeOf_ordinal code⟩
  refine ⟨codeOf_injective, codes, fun circuit id node _ => ⟨node.isWord_traceName id, ?_⟩⟩
  intro otherId other _ apart
  exact Node.traceName_ne apart other node

/-- A light with a label. -/
def labelled (label : String) : Node Circuit :=
  { (.ofPart (.light false) : Node Circuit) with label }

/-- Lights that imitate each other: the first one is labelled with the name of the second one, which has
no label, and the last one with the name of the first one, but for a blank. -/
def impostors : Circuit :=
  ⟨⟨[some (labelled "n1"), some (labelled ""), none, some (labelled "n1 n0")]⟩, [], 0⟩

/-- The last light goes by another name than the one that it imitates. -/
theorem impostors_named_apart :
    impostors.node? 0 = some (labelled "n1") ∧ impostors.node? 3 = some (labelled "n1 n0") ∧
    (3 : NodeId) ≠ 0 ∧ Text.IsWord ((labelled "n1").traceName 0).toList ∧
    (labelled "n1 n0").traceName 3 ≠ (labelled "n1").traceName 0 := by
  have first : impostors.node? 0 = some (labelled "n1") := rfl
  have last : impostors.node? 3 = some (labelled "n1 n0") := rfl
  have apart : (3 : NodeId) ≠ 0 := by decide
  obtain ⟨word, named⟩ := codes_and_names_unambiguous.2.2 impostors 0 _ first
  exact ⟨first, last, apart, word, named 3 _ last apart⟩

example : impostors.nodes.items.map (fun item => item.2.traceName item.1) =
    ["n1_n0", "n1", "n1_n0_n3"] := by
  decide +kernel

end Dump

end Breadboard
