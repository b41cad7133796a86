import Breadboard.Text.Digits

/-!
# TOML dates and times

A date, a time of day, or both with a letter or a blank between them and perhaps the distance from
world time behind. No setting is a moment, so reading one tells only where it ends.
-/

namespace Breadboard.Toml

/-- Takes a number of so many digits off the front. -/
def digits? (count : Nat) (text : List Char) : Option (Nat × List Char) :=
  let digits := text.take count
  if digits.length = count then
    (Text.value? 10 digits).map fun value => (value, text.drop count)
  else none

/-- Takes two digits off the front, with a value between two bounds. -/
def pair? (least greatest : Nat) (text : List Char) : Option (Nat × List Char) :=
  (digits? 2 text).filter fun (value, _) => least ≤ value && value ≤ greatest

/-- Takes a mark off the front. -/
def mark? (mark : Char) : List Char → Option (List Char)
  | c :: rest => if c == mark then some rest else none
  | [] => none

/-- The days of a month of a year. -/
def daysIn (year month : Nat) : Nat :=
  if month = 2 then
    if year % 4 = 0 ∧ (year % 100 ≠ 0 ∨ year % 400 = 0) then 29 else 28
  else if month = 4 ∨ month = 6 ∨ month = 9 ∨ month = 11 then 30
  else 31

/-- Takes a date off the front. -/
def skipDate? (text : List Char) : Option (List Char) := do
  let (year, rest) ← digits? 4 text
  let (month, rest) ← pair? 1 12 (← mark? '-' rest)
  let (_, rest) ← pair? 1 (daysIn year month) (← mark? '-' rest)
  return rest

/-- Takes hours and minutes off the front. -/
def skipMinutes? (text : List Char) : Option (List Char) := do
  let (_, rest) ← pair? 0 23 text
  let (_, rest) ← pair? 0 59 (← mark? ':' rest)
  return rest

/-- Takes a fraction of a second off the front, if there is one. -/
def skipFraction : List Char → List Char
  | '.' :: c :: rest => if c.isDigit then rest.dropWhile Char.isDigit else '.' :: c :: rest
  | text => text

/-- Takes a time of day off the front. A minute may have a second more than sixty make. -/
def skipTime? (text : List Char) : Option (List Char) := do
  let (_, rest) ← pair? 0 60 (← mark? ':' (← skipMinutes? text))
  return skipFraction rest

/-- Takes the distance from world time off the front, if there is one. -/
def skipDistance (text : List Char) : List Char :=
  match text with
  | c :: rest =>
    if c == 'Z' || c == 'z' then rest
    else if c == '+' || c == '-' then (skipMinutes? rest).getD text
    else text
  | [] => []

/-- Takes the time that belongs to a date off the front, if there is one. -/
def skipTimeOfDate (text : List Char) : List Char :=
  match text with
  | c :: rest =>
    if c == 'T' || c == 't' || c == ' ' then ((skipTime? rest).map skipDistance).getD text
    else text
  | [] => []

/-- Takes a date, a time of day or both off the front. -/
def skipMoment? (text : List Char) : Option (List Char) :=
  match skipDate? text with
  | some rest => some (skipTimeOfDate rest)
  | none => skipTime? text

end Breadboard.Toml
