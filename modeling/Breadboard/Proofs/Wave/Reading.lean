import Breadboard.Proofs.Wave.Words

/-!
# Reading a dump

A viewer reads a dump word by word. Keywords open sections, whose operands stand between the keyword
and `$end`; a section with a fixed number of operands takes that many words whatever they look
like. Outside sections stand the times, the changes and the marks around the block of initial
values. What is not of this form is refused.
-/

namespace Breadboard

namespace Dump

/-- One entry of a dump. -/
inductive Entry where
  /-- What wrote the dump. -/
  | version (words : List String)
  /-- The unit of the times. -/
  | timescale (words : List String)
  | scope (name : String)
  | variable (width : Nat) (code name : String)
  | upscope
  | endDefinitions
  /-- The changes from here on happen at a time. -/
  | time (time : Nat)
  /-- The block of initial values begins. -/
  | initial
  /-- The block of initial values ends. -/
  | stop
  | change (code : String) (value : Signal)
deriving DecidableEq

/-- What opens a section. -/
inductive Keyword where
  | version | timescale | scope | variable | upscope | endDefinitions
deriving DecidableEq

namespace Keyword

/-- The keyword with a name, which is written behind `$`. -/
def ofName? (name : List Char) : Option Keyword :=
  if name = "version".toList then some .version
  else if name = "timescale".toList then some .timescale
  else if name = "scope".toList then some .scope
  else if name = "var".toList then some .variable
  else if name = "upscope".toList then some .upscope
  else if name = "enddefinitions".toList then some .endDefinitions
  else none

/-- The number of operands, unless any number may stand in the section. -/
def arity? : Keyword → Option Nat
  | .version | .timescale => none
  | .scope => some 2
  | .variable => some 4
  | .upscope | .endDefinitions => some 0

/-- The entry of a section with its operands. -/
def entry? : Keyword → List (List Char) → Option Entry
  | .version, words => some (.version (words.map String.ofList))
  | .timescale, words => some (.timescale (words.map String.ofList))
  | .scope, [kind, name] =>
    if kind = "module".toList then some (.scope (String.ofList name)) else none
  | .variable, [kind, width, code, name] =>
    if kind = "wire".toList then
      (Text.value? 10 width).map fun width =>
        .variable width (String.ofList code) (String.ofList name)
    else none
  | .upscope, [] => some .upscope
  | .endDefinitions, [] => some .endDefinitions
  | _, _ => none

end Keyword

/-- What a reader waits for. -/
inductive Awaiting where
  /-- The first word of an entry. -/
  | entry
  /-- Further operands of a section or its end. -/
  | operands (keyword : Keyword) (given : List (List Char))
  /-- The code of the signal whose digits were read. -/
  | code (value : Bus)
deriving DecidableEq

/-- What the first word of an entry makes: a whole entry or something to wait for. -/
def begin? : List Char → Option (Option Entry × Awaiting)
  | '$' :: name =>
    if name = "dumpvars".toList then some (some .initial, .entry)
    else if name = "end".toList then some (some .stop, .entry)
    else (Keyword.ofName? name).map fun keyword => (none, .operands keyword [])
  | '#' :: digits => (Text.value? 10 digits).map fun time => (some (.time time), .entry)
  | 'b' :: digits =>
    if digits.contains '_' then none
    else (Bus.ofBinary? digits).map fun bus => (none, .code bus)
  | digit :: code =>
    if code.isEmpty then none
    else
      (Bus.binaryDigit? digit).map fun bit =>
        (some (.change (String.ofList code) (.bit bit)), .entry)
  | [] => none

/-- What a word makes of what a reader waits for: perhaps an entry, and what it waits for next. -/
def Awaiting.next? : Awaiting → List Char → Option (Option Entry × Awaiting)
  | .entry, word => begin? word
  | .operands keyword given, word =>
    if keyword.arity?.all (· == given.length) ∧ word = "$end".toList then
      (keyword.entry? given).map fun entry => (some entry, .entry)
    else if keyword.arity?.all (given.length < ·) then
      some (none, .operands keyword (given ++ [word]))
    else none
  | .code bus, word => some (some (.change (String.ofList word) (.bus bus)), .entry)

/-- The entries of a list of words. The last entry has to be whole. -/
def entriesFrom (awaiting : Awaiting) : List (List Char) → Option (List Entry)
  | [] => if awaiting = .entry then some [] else none
  | word :: rest =>
    (awaiting.next? word).bind fun (found, awaiting) =>
      (entriesFrom awaiting rest).map (found.toList ++ ·)

/-- Reads a dump. -/
def read? (text : String) : Option (List Entry) :=
  entriesFrom .entry (Text.words text.toList)

/-- A text is read as the given entries, whatever text follows it. -/
def Reads (text : String) (entries : List Entry) : Prop :=
  ∀ rest, read? (text ++ rest) = (read? rest).map (entries ++ ·)

/-- A text that is read in front of others is read alone. -/
theorem Reads.read? {text : String} {entries : List Entry} (reads : Reads text entries) :
    read? text = some entries := by
  have alone := reads ""
  rwa [String.append_empty, show Dump.read? "" = some [] from rfl, Option.map_some,
    List.append_nil] at alone

/-- No text has no entries. -/
theorem Reads.nil : Reads "" [] := by
  intro rest
  rw [String.empty_append]
  cases Dump.read? rest <;> rfl

/-- Texts one behind the other are read one after the other. -/
theorem Reads.append {front back : String} {first later : List Entry} (reads : Reads front first)
    (goesOn : Reads back later) : Reads (front ++ back) (first ++ later) := by
  intro rest
  rw [String.append_assoc, reads, goesOn, Option.map_map]
  congr 1
  funext entries
  exact (List.append_assoc ..).symm

/-- A text is read through the words that it is made of. -/
theorem Reads.of_pieces {text : String} {entries : List Entry}
    (pieces : List (List Char × List Char)) (spelled : text.toList = Text.spaced pieces)
    (proper : ∀ piece ∈ pieces, Text.IsWord piece.1 ∧ Text.IsGap piece.2)
    (read : ∀ later, entriesFrom .entry (pieces.map Prod.fst ++ later) =
      (entriesFrom .entry later).map (entries ++ ·)) : Reads text entries := by
  intro rest
  rw [Dump.read?, String.toList_append, spelled, Text.words_spaced proper, read, Dump.read?]

/-- A word that makes an entry puts it in front. -/
theorem entriesFrom_found {awaiting next : Awaiting} {word : List Char} {entry : Entry}
    (made : awaiting.next? word = some (some entry, next)) (rest : List (List Char)) :
    entriesFrom awaiting (word :: rest) = (entriesFrom next rest).map (entry :: ·) := by
  rw [entriesFrom, made]
  rfl

/-- A word that makes no entry yet is passed over. -/
theorem entriesFrom_pending {awaiting next : Awaiting} {word : List Char}
    (made : awaiting.next? word = some (none, next)) (rest : List (List Char)) :
    entriesFrom awaiting (word :: rest) = entriesFrom next rest := by
  rw [entriesFrom, made]
  exact Option.map_id_apply

/-- The operands are those of a whole section: as many as the keyword takes, or any number, none of
    which ends the section. -/
def Keyword.Takes (keyword : Keyword) (operands : List (List Char)) : Prop :=
  keyword.arity? = some operands.length ∨ keyword.arity? = none ∧ "$end".toList ∉ operands

/-- The rest of a section is read up to its end.

Proof: by induction on the operands that are still to come. -/
theorem entriesFrom_operands {keyword : Keyword} (given : List (List Char))
    {operands : List (List Char)} {entry : Entry}
    (takes : keyword.arity? = some (given.length + operands.length) ∨
      keyword.arity? = none ∧ "$end".toList ∉ operands)
    (made : keyword.entry? (given ++ operands) = some entry) (later : List (List Char)) :
    entriesFrom (.operands keyword given) (operands ++ "$end".toList :: later) =
      (entriesFrom .entry later).map (entry :: ·) := by
  induction operands generalizing given with
  | nil =>
    have mayEnd : keyword.arity?.all (· == given.length) = true := by
      rcases takes with fixed | ⟨free, _⟩
      · simp [fixed]
      · rw [free]
        rfl
    rw [List.append_nil] at made
    refine entriesFrom_found ?_ later
    rw [Awaiting.next?, if_pos ⟨mayEnd, rfl⟩, made, Option.map_some]
  | cons word operands inductionHypothesis =>
    have goesOn : ¬(keyword.arity?.all (· == given.length) = true ∧ word = "$end".toList) := by
      rintro ⟨mayEnd, isEnd⟩
      rcases takes with fixed | ⟨_, absent⟩
      · simp [fixed] at mayEnd
      · exact absent (isEnd ▸ List.mem_cons_self)
    have takesMore : keyword.arity?.all (given.length < ·) = true := by
      rcases takes with fixed | ⟨free, _⟩
      · simp [fixed]
      · rw [free]
        rfl
    have takesLater : keyword.arity? = some ((given ++ [word]).length + operands.length) ∨
        keyword.arity? = none ∧ "$end".toList ∉ operands := by
      refine takes.imp (fun fixed => ?_) fun ⟨free, absent⟩ =>
        ⟨free, fun member => absent (List.mem_cons_of_mem _ member)⟩
      rw [fixed, List.length_cons, List.length_append, List.length_singleton, Nat.add_assoc,
        Nat.add_comm 1]
    rw [List.append_cons] at made
    rw [List.cons_append, entriesFrom_pending, inductionHypothesis _ takesLater made]
    rw [Awaiting.next?, if_neg goesOn, if_pos takesMore]

/-- A section is read as its entry. -/
theorem entriesFrom_section (word : List Char) (keyword : Keyword) (operands : List (List Char))
    {entry : Entry} (opens : begin? word = some (none, .operands keyword []))
    (takes : keyword.Takes operands) (made : keyword.entry? operands = some entry)
    (later : List (List Char)) :
    entriesFrom .entry (word :: (operands ++ "$end".toList :: later)) =
      (entriesFrom .entry later).map (entry :: ·) := by
  have first : Awaiting.entry.next? word = some (none, .operands keyword []) := opens
  rw [entriesFrom_pending first]
  exact entriesFrom_operands [] (by simpa [Keyword.Takes] using takes) made later

/-- The opening lines tell the program and the unit of the times. -/
theorem reads_header : Reads header [.version ["gatesim", "0.1.0"], .timescale ["1ms"]] := by
  refine .of_pieces [("$version".toList, "\n  ".toList), ("gatesim".toList, [' ']),
    ("0.1.0".toList, ['\n']), ("$end".toList, ['\n']), ("$timescale".toList, "\n  ".toList),
    ("1ms".toList, ['\n']), ("$end".toList, ['\n'])]
    (by simp [Text.spaced, header, programName, programVersion]) (by decide) fun later => ?_
  have timescale := entriesFrom_section "$timescale".toList .timescale ["1ms".toList]
    rfl (.inr (by decide)) rfl later
  have version := entriesFrom_section "$version".toList .version
    ["gatesim".toList, "0.1.0".toList] rfl (.inr (by decide)) rfl
    ("$timescale".toList :: (["1ms".toList] ++ "$end".toList :: later))
  rw [timescale, Option.map_map] at version
  exact version

/-- The opening of a scope whose name is one word. -/
theorem reads_scope {name : String} (word : Text.IsWord name.toList) :
    Reads ("$scope module " ++ name ++ " $end\n") [.scope name] := by
  refine .of_pieces [("$scope".toList, [' ']), ("module".toList, [' ']), (name.toList, [' ']),
    ("$end".toList, ['\n'])] (by simp [Text.spaced]) ?_
    (entriesFrom_section _ .scope ["module".toList, name.toList] rfl (.inl rfl) ?_)
  · simp only [List.forall_mem_cons]
    exact ⟨by decide, by decide, ⟨word, Text.isGap_blank⟩, by decide, by simp⟩
  · simp [Keyword.entry?]

/-- The end of a scope. -/
theorem reads_endScope : Reads endScope [.upscope] :=
  .of_pieces [("$upscope".toList, [' ']), ("$end".toList, ['\n'])] (by simp [Text.spaced, endScope])
    (by decide) (entriesFrom_section _ .upscope [] rfl (.inl rfl) rfl)

/-- The declaration of a signal. -/
theorem reads_variable (width : Nat) {code name : String} (codeWord : Text.IsWord code.toList)
    (nameWord : Text.IsWord name.toList) :
    Reads ("$var wire " ++ decimalText width ++ " " ++ code ++ " " ++ name ++ " $end\n")
      [.variable width code name] := by
  refine .of_pieces [("$var".toList, [' ']), ("wire".toList, [' ']), (Text.decimal width, [' ']),
    (code.toList, [' ']), (name.toList, [' ']), ("$end".toList, ['\n'])]
    (by simp [Text.spaced, decimalText]) ?_
    (entriesFrom_section _ .variable
      ["wire".toList, Text.decimal width, code.toList, name.toList] rfl (.inl rfl) ?_)
  · simp only [List.forall_mem_cons]
    exact ⟨by decide, by decide, ⟨Text.isWord_decimal width, Text.isGap_blank⟩,
      ⟨codeWord, Text.isGap_blank⟩, ⟨nameWord, Text.isGap_blank⟩, by decide, by simp⟩
  · simp [Keyword.entry?, Text.value?_decimal]

/-- The end of the definitions. -/
theorem reads_endDefinitions : Reads "$enddefinitions $end\n" [.endDefinitions] :=
  .of_pieces [("$enddefinitions".toList, [' ']), ("$end".toList, ['\n'])] (by simp [Text.spaced])
    (by decide) (entriesFrom_section _ .endDefinitions [] rfl (.inl rfl) rfl)

/-- A time. -/
theorem reads_time (time : Nat) : Reads ("#" ++ decimalText time ++ "\n") [.time time] := by
  refine .of_pieces [('#' :: Text.decimal time, ['\n'])] (by simp [Text.spaced, decimalText]) ?_
    (entriesFrom_found ?_)
  · simp only [List.forall_mem_singleton]
    exact ⟨.cons rfl (Text.isWord_decimal time).solid, Text.isGap_newline⟩
  · simp [Awaiting.next?, begin?, Text.value?_decimal]

/-- The beginning of the block of initial values. -/
theorem reads_initial : Reads "$dumpvars\n" [.initial] :=
  .of_pieces [("$dumpvars".toList, ['\n'])] (by simp [Text.spaced]) (by decide)
    (entriesFrom_found rfl)

/-- The end of the block of initial values. -/
theorem reads_stop : Reads "$end\n" [.stop] :=
  .of_pieces [("$end".toList, ['\n'])] (by simp [Text.spaced]) (by decide) (entriesFrom_found rfl)

/-- A change of a single bit. -/
theorem reads_bit {code : String} (word : Text.IsWord code.toList) (bit : Bool) :
    Reads ((if bit then "1" else "0") ++ code ++ "\n") [.change code (.bit bit)] := by
  have notEmpty : code.toList.isEmpty = false := List.isEmpty_eq_false_iff.mpr word.nonempty
  have digit : Awaiting.entry.next? ((if bit then '1' else '0') :: code.toList) =
      some (some (.change code (.bit bit)), .entry) := by
    cases bit <;> simp [Awaiting.next?, begin?, notEmpty, Bus.binaryDigit?]
  refine .of_pieces [((if bit then '1' else '0') :: code.toList, ['\n'])] ?_ ?_
    (entriesFrom_found digit)
  · cases bit <;> simp [Text.spaced]
  · rw [List.forall_mem_singleton]
    exact ⟨.cons (by cases bit <;> rfl) word.solid, Text.isGap_newline⟩

/-- A change of a bus. -/
theorem reads_bus {code : String} (word : Text.IsWord code.toList) (bus : Bus) :
    Reads ("b" ++ String.ofList bus.render ++ " " ++ code ++ "\n") [.change code (.bus bus)] := by
  have plain : '_' ∉ bus.render := fun member => by
    rcases Bus.mem_render member with other | other <;> simp at other
  have digits : Awaiting.entry.next? ('b' :: bus.render) = some (none, .code bus) := by
    simp [Awaiting.next?, begin?, plain, Bus.ofBinary?_render]
  have named : (Awaiting.code bus).next? code.toList =
      some (some (.change code (.bus bus)), .entry) := by
    simp [Awaiting.next?]
  refine .of_pieces [('b' :: bus.render, [' ']), (code.toList, ['\n'])] (by simp [Text.spaced]) ?_
    fun later => (entriesFrom_pending digits _).trans (entriesFrom_found named later)
  simp only [List.forall_mem_cons]
  exact ⟨⟨.cons rfl bus.isWord_render.solid, Text.isGap_blank⟩, ⟨word, Text.isGap_newline⟩, by simp⟩

/-- A change tells the code of the signal and the value in the form of its width. -/
theorem reads_changeLine {signal : DumpSignal} (word : Text.IsWord signal.code.toList)
    (positive : 0 < signal.width) (value : Signal) :
    Reads (changeLine signal value) [.change signal.code (value.normalise signal.width)] := by
  by_cases single : signal.width = 1
  · have bit : value.normalise signal.width = .bit value.toBool := by
      rw [Signal.normalise, if_pos (by omega)]
    rw [changeLine, bit, if_pos single]
    simpa using reads_bit word value.toBool
  · have bus : value.normalise signal.width = .bus (value.toBus signal.width) := by
      rw [Signal.normalise, if_neg (by omega)]
    rw [changeLine, bus, if_neg single]
    exact reads_bus word _

end Dump

end Breadboard
