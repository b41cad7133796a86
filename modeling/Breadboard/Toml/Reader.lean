import Breadboard.Toml.Moment
import Breadboard.Toml.Number
import Breadboard.Toml.Text

/-!
# Reading TOML

A file is a sequence of lines: assignments of values to dotted names, and headers that open a
section in which the assignments below them are made. Sections do not nest in the files that are
read here, so the header of a section is a single name, and headers of lists of tables are refused.
Arrays and tables nest at most `nestingLimit` deep, and a dotted name leads through no more tables.
-/

namespace Breadboard.Toml

/-- How deep arrays and tables may nest, and how many names a dotted one may have. -/
def nestingLimit : Nat := 79

/-- Drops the blanks of a line. -/
def skipBlanks (text : List Char) : List Char :=
  text.dropWhile isBlank

/-- Drops blanks, line ends and comments. The flag tells that a comment has begun; it ends with its
    line. -/
def skipGap (inComment : Bool) : List Char → Option (List Char)
  | [] => some []
  | '\n' :: rest => skipGap false rest
  | '\r' :: '\n' :: rest => skipGap false rest
  | c :: rest =>
    if inComment then (if isPlain c then skipGap true rest else none)
    else if isBlank c then skipGap false rest
    else if c == '#' then skipGap true rest
    else some (c :: rest)

/-- The character may stand in a name without quotes. -/
def isBare (c : Char) : Bool :=
  c.isAlphanum || c == '_' || c == '-'

/-- Reads one name. -/
def name? (text : List Char) : Option (String × List Char) :=
  match text.span isBare with
  | ([], _) => lineText? text
  | (bare, rest) => some (String.ofList bare, rest)

/-- Reads a dotted name of at most so many names. -/
def path? : Nat → List Char → Option (List String × List Char)
  | 0, _ => none
  | steps + 1, text =>
    match name? (skipBlanks text) with
    | some (name, rest) =>
      match skipBlanks rest with
      | '.' :: rest => (path? steps rest).map fun (names, rest) => (name :: names, rest)
      | rest => some ([name], rest)
    | none => none

/-- The character ends a word. -/
def endsWord (c : Char) : Bool :=
  isBlank c || c == '\n' || c == '\r' || c == ',' || c == ']' || c == '\x7d' || c == '#'

/-- Reads a value that is a moment or one word. -/
def wordValue? (text : List Char) : Option (Toml × List Char) :=
  match skipMoment? text with
  | some rest => some (.moment, rest)
  | none =>
    let (word, rest) := text.span fun c => !endsWord c
    (word? word).map fun value => (value, rest)

mutual

/-- Reads a value that may hold containers of so many levels. The second number bounds the calls on
    the way to any part. -/
def readValue : Nat → Nat → List Char → Option (Toml × List Char)
  | _, 0, _ => none
  | levels, calls + 1, text =>
    match levels, text with
    | 0, '[' :: _ => none
    | 0, '\x7b' :: _ => none
    | levels + 1, '[' :: rest =>
      (readItems levels calls rest).map fun (items, rest) => (.array items, rest)
    | levels + 1, '\x7b' :: rest =>
      match skipBlanks rest with
      | '\x7d' :: rest => some (.table false [], rest)
      | rest =>
        (readEntries levels calls [] rest).map fun (entries, rest) => (.table false entries, rest)
    | _, c :: rest =>
      if c == '"' || c == '\'' then
        (text? (c :: rest)).map fun (value, rest) => (.string value, rest)
      else wordValue? (c :: rest)
    | _, [] => none

/-- Reads the items of an array up to its closing bracket, which a comma may precede. -/
def readItems : Nat → Nat → List Char → Option (List Toml × List Char)
  | _, 0, _ => none
  | levels, calls + 1, text =>
    match skipGap false text with
    | some (']' :: rest) => some ([], rest)
    | some text =>
      match readValue levels calls text with
      | some (item, rest) =>
        match skipGap false rest with
        | some (',' :: rest) =>
          (readItems levels calls rest).map fun (items, rest) => (item :: items, rest)
        | some (']' :: rest) => some ([item], rest)
        | _ => none
      | none => none
    | none => none

/-- Reads the assignments of a table on one line up to its closing brace, on top of its entries so
    far. -/
def readEntries : Nat → Nat → Entries → List Char → Option (Entries × List Char)
  | _, 0, _, _ => none
  | levels, calls + 1, entries, text =>
    match readAssignment levels calls text with
    | some (path, value, rest) =>
      match assign value path entries with
      | some entries =>
        match skipBlanks rest with
        | ',' :: rest => readEntries levels calls entries rest
        | '\x7d' :: rest => some (entries, rest)
        | _ => none
      | none => none
    | none => none

/-- Reads a dotted name, an equals sign and a value. -/
def readAssignment : Nat → Nat → List Char → Option (List String × Toml × List Char)
  | _, 0, _ => none
  | levels, calls + 1, text =>
    match path? nestingLimit text with
    | some (path, rest) =>
      match skipBlanks rest with
      | '=' :: rest =>
        (readValue levels calls (skipBlanks rest)).map fun (value, rest) => (path, value, rest)
      | _ => none
    | none => none

end

/-- A line of a file that is neither blank nor a comment. -/
inductive Line where
  | header (name : String)
  | assignment (path : List String) (value : Toml)

/-- Reads a header whose opening bracket was read. -/
def header? (text : List Char) : Option (Line × List Char) :=
  match name? (skipBlanks text) with
  | some (name, rest) =>
    match skipBlanks rest with
    | ']' :: rest => some (.header name, rest)
    | _ => none
  | none => none

/-- Reads a line. Every part of a value takes a character within three calls. -/
def line? (text : List Char) : Option (Line × List Char) :=
  match text with
  | '[' :: rest => header? rest
  | _ =>
    (readAssignment nestingLimit (3 * text.length + 3) text).map fun (path, value, rest) =>
      (.assignment path value, rest)

/-- Nothing but blanks and a comment follows on the line. -/
def endsLine (text : List Char) : Bool :=
  match skipBlanks text with
  | [] | '#' :: _ | '\n' :: _ | '\r' :: '\n' :: _ => true
  | _ => false

/-- Reads the lines of a file; every line takes at least one character. -/
def lines? : Nat → List Char → Option (List Line)
  | 0, _ => none
  | steps + 1, text =>
    match skipGap false text with
    | none => none
    | some [] => some []
    | some text =>
      match line? text with
      | some (line, rest) =>
        if endsLine rest then (lines? steps rest).map (line :: ·) else none
      | none => none

/-- The entries of a file, from those of the lines above, which are those outside any section and
    those of the section that the next line is in. A header may occur once. -/
def entriesOf (root : Entries) (current : Option (String × Entries)) :
    List Line → Option Entries
  | [] =>
    match current with
    | some (name, entries) => some (root ++ [(name, .table false entries)])
    | none => some root
  | .assignment path value :: rest =>
    match current with
    | some (name, entries) =>
      (assign value path entries).bind fun entries => entriesOf root (some (name, entries)) rest
    | none => (assign value path root).bind fun root => entriesOf root none rest
  | .header name :: rest =>
    let root := match current with
      | some (present, entries) => root ++ [(present, .table false entries)]
      | none => root
    match lookup? name root with
    | none => entriesOf root (some (name, [])) rest
    | some _ => none

/-- The characters of a file without the mark that may tell its encoding. -/
def withoutMark : List Char → List Char
  | '\ufeff' :: rest => rest
  | text => text

/-- Reads a file as a table. -/
def parse? (text : String) : Option Toml :=
  let chars := withoutMark text.toList
  ((lines? (chars.length + 1) chars).bind (entriesOf [] none)).map (.table false)

end Breadboard.Toml
