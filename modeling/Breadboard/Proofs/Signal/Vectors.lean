import Breadboard.Proofs.Form.Acceptance
import Breadboard.Proofs.Signal.Bits
import Breadboard.Proofs.Wave.Words

/-!
# Buses as vectors of bits

A bus packs its bits into one number, so every operation on buses is arithmetic with masks and shifts. Read
as the list of its bits, least significant first, a bus knows nothing of that: setting a bit is setting an
item of the list, a slice drops some items and takes others, and putting two buses together appends their
lists. However a bus was made, by whatever operations one after the other, its bits are those that the same
operations on lists of bits give, and where the lists cannot be had, the bus cannot be made either.
-/

namespace Breadboard.Bus

section Bits

/-- A bus has as many bits as its width says. -/
@[simp] theorem length_bits (bus : Bus) : bus.bits.length = bus.width := by
  rw [bits, List.length_map, List.length_range]

/-- The bits of a bus stand at the places below its width. -/
theorem getElem?_bits (bus : Bus) (place : Nat) :
    bus.bits[place]? = if place < bus.width then some (bus.get place) else none := by
  rw [bits, List.getElem?_map]
  split
  · next inside => rw [List.getElem?_range inside, Option.map_some]
  · next beyond => rw [List.getElem?_eq_none (by simpa using beyond), Option.map_none]

/-- Beyond the width every bit reads as clear. -/
theorem get_beyond (bus : Bus) {place : Nat} (beyond : bus.width ≤ place) : bus.get place = false := by
  rw [get, decide_eq_false (Nat.not_lt.mpr beyond), Bool.false_and]

/-- Within the width a bit is read off the number. -/
theorem get_inside (bus : Bus) {place : Nat} (inside : place < bus.width) :
    bus.get place = bus.word.testBit place := by
  rw [get, decide_eq_true inside, Bool.true_and]

/-- A bit is read off the number at every place, since the number has no bit beyond the width. -/
theorem testBit_eq_get (bus : Bus) (place : Nat) : bus.word.testBit place = bus.get place := by
  by_cases inside : place < bus.width
  · exact (bus.get_inside inside).symm
  · rw [bus.testBit_word inside, bus.get_beyond (Nat.le_of_not_lt inside)]

/-- The bits of a bus are told by what is read at the places below some width, if it has that width. -/
theorem bits_eq_map (bus : Bus) (width : Nat) (same : bus.width = width) {read : Nat → Bool}
    (each : ∀ place < width, bus.get place = read place) : bus.bits = (List.range width).map read := by
  subst same
  exact List.map_congr_left fun place member => each place (List.mem_range.mp member)

end Bits

section Operations

variable (bus : Bus)

/-- Writing a bit writes the addressed one, if it is within the width, and no other. -/
theorem get_set (index : Nat) (bit : Bool) (place : Nat) :
    (bus.set index bit).get place = if place = index ∧ index < bus.width then bit else bus.get place := by
  unfold set
  split
  · next inside =>
    by_cases here : place = index
    · subst here
      cases bit <;> simp [get, inside, bitWeight, Nat.testBit_two_pow_self]
    · have other : (2 ^ index).testBit place = false := Nat.testBit_two_pow_of_ne (Ne.symm here)
      cases bit <;> simp [get, here, bitWeight, other]
  · next beyond => rw [if_neg fun both => beyond both.2]

/-- Writing a bit keeps the width. -/
@[simp] theorem width_set (index : Nat) (bit : Bool) : (bus.set index bit).width = bus.width := by
  unfold set
  split
  · cases bit <;> rfl
  · rfl

/-- The complement turns every bit around, within the width. -/
theorem get_complement {place : Nat} (inside : place < bus.width) :
    bus.complement.get place = !bus.get place := by
  simp [get, complement, bitWeight, inside, Nat.testBit_two_pow_sub_one]

/-- The intersection of two buses is taken bit by bit. -/
theorem get_and {left right : Bus} (same : left.width = right.width) (place : Nat) :
    (left.and right same).get place = (left.get place && right.get place) := by
  simp only [get, and, Nat.testBit_and, same]
  cases decide (place < right.width) <;> simp

/-- The bits of a slice stand in the source behind the offset. -/
theorem get_slice (offset width place : Nat) :
    (bus.slice offset width).get place =
      (decide (place < clampWidth width) && bus.get (offset + place)) := by
  rw [slice, get_ofNat, Nat.testBit_shiftRight, testBit_eq_get]

/-- Two buses together have the bits of both, as far as there is room. -/
theorem width_append (low high : Bus) :
    (low.append high).width = min (low.width + high.width) maxBusWidth := by
  have positive := low.width_pos
  change clampWidth (low.width + high.width) = _
  simp only [clampWidth, maxBusWidth]
  omega

/-- Below the width of the low bus stand its bits, and from there on those of the high bus, as far as
there is room. -/
theorem get_append (low high : Bus) (place : Nat) :
    (low.append high).get place = (decide (place < maxBusWidth) &&
      if place < low.width then low.get place else high.get (place - low.width)) := by
  have width : clampWidth (low.width + high.width) = min (low.width + high.width) maxBusWidth :=
    width_append low high
  have room (inside : place < low.width + high.width) :
      decide (place < min (low.width + high.width) maxBusWidth) = decide (place < maxBusWidth) :=
    decide_eq_decide.mpr (by omega)
  rw [append, get_ofNat, Nat.testBit_or, Nat.testBit_shiftLeft, testBit_eq_get, testBit_eq_get, width]
  by_cases inLow : place < low.width
  · rw [if_pos inLow, decide_eq_false (Nat.not_le.mpr inLow), Bool.false_and, Bool.or_false,
      room (by omega)]
  · rw [if_neg inLow, low.get_beyond (Nat.le_of_not_lt inLow), Bool.false_or,
      decide_eq_true (Nat.le_of_not_lt inLow), Bool.true_and]
    by_cases inside : place < low.width + high.width
    · rw [room inside]
    · rw [high.get_beyond (by omega), Bool.and_false, Bool.and_false]

/-- The digits of a bus are its bits, the most significant one first. -/
theorem getElem?_render {place : Nat} (inside : place < bus.width) :
    bus.render[bus.width - 1 - place]? = some (if bus.get place then '1' else '0') := by
  rw [render, List.getElem?_reverse (by simp; omega), List.length_map, length_bits, List.getElem?_map,
    show bus.width - 1 - (bus.width - 1 - place) = place by omega, getElem?_bits, if_pos inside,
    Option.map_some]

end Operations

section Lists

/-- Bits cut off, or filled up with clear bits, to as many as a bus of the width has. -/
def fitted (width : Nat) (bits : List Bool) : List Bool :=
  bits.takeD (clampWidth width) false

/-- The lowest binary digits of a number, as many as a bus of the width has. -/
def lowest (width word : Nat) : List Bool :=
  (List.range (clampWidth width)).map word.testBit

/-- Binary digits, most significant first, as bits. Underscores are separators; one to sixty-four digits have
to remain, zeros and ones. -/
def digitBits? (text : List Char) : Option (List Bool) :=
  let written := text.filter (· != '_')
  if 1 ≤ written.length ∧ written.length ≤ maxBusWidth ∧
      written.all (fun c => c == '0' || c == '1') then
    some (written.reverse.map (· == '1'))
  else none

/-- Behind the end of some bits all are clear.

Proof: by induction on how many bits are taken. -/
theorem takeD_eq_map_range (bits : List Bool) (count : Nat) :
    bits.takeD count false = (List.range count).map fun place => bits[place]?.getD false := by
  induction count generalizing bits with
  | zero => rfl
  | succ count inductionHypothesis =>
    rw [List.takeD_succ, inductionHypothesis, List.range_succ_eq_map, List.map_cons, List.map_map]
    cases bits with
    | nil => rfl
    | cons bit rest => rfl

/-- What is read behind the last bit of a bus is clear. -/
theorem getD_bits (bus : Bus) (place : Nat) : bus.bits[place]?.getD false = bus.get place := by
  rw [getElem?_bits]
  split
  · rfl
  · next beyond => rw [bus.get_beyond (Nat.le_of_not_lt beyond), Option.getD_none]

/-- Digits that are zeros and ones are read as bits, and no others are.

Proof: by induction on the digits. -/
theorem mapM_binaryDigit?_eq (written : List Char) :
    written.mapM binaryDigit? =
      if written.all fun c => c == '0' || c == '1' then some (written.map (· == '1')) else none := by
  induction written with
  | nil => rfl
  | cons c rest inductionHypothesis =>
    rw [List.mapM_cons, inductionHypothesis, List.all_cons]
    by_cases zero : c = '0'
    · subst zero
      cases rest.all fun c => c == '0' || c == '1' <;> rfl
    · by_cases one : c = '1'
      · subst one
        cases rest.all fun c => c == '0' || c == '1' <;> rfl
      · simp [binaryDigit?, zero, one]

end Lists

section BitLists

variable (bus : Bus)

theorem bits_ofNat (word width : Nat) : (ofNat word width).bits = lowest width word :=
  bits_eq_map _ (clampWidth width) rfl fun place inside => by
    rw [get_ofNat, decide_eq_true inside, Bool.true_and]

theorem bits_zero (width : Nat) : (zero width).bits = List.replicate (clampWidth width) false := by
  have clear : (Nat.testBit 0) = fun _ => false := funext Nat.zero_testBit
  rw [zero, bits_ofNat, lowest, clear, List.map_const', List.length_range]

theorem bits_splat (width : Nat) (bit : Bool) :
    (splat width bit).bits = List.replicate (clampWidth width) bit := by
  have each : (splat width bit).bits = (List.range (clampWidth width)).map fun _ => bit :=
    bits_eq_map _ (clampWidth width) rfl fun place inside => by
      rw [get_splat, decide_eq_true inside, Bool.true_and]
  rw [each, List.map_const', List.length_range]

theorem bits_resize (width : Nat) : (bus.resize width).bits = fitted width bus.bits := by
  rw [fitted, takeD_eq_map_range]
  refine bits_eq_map _ (clampWidth width) rfl fun place inside => ?_
  rw [get_resize, decide_eq_true inside, Bool.true_and, getD_bits]

theorem bits_slice (offset width : Nat) :
    (bus.slice offset width).bits = fitted width (bus.bits.drop offset) := by
  rw [fitted, takeD_eq_map_range]
  refine bits_eq_map _ (clampWidth width) rfl fun place inside => ?_
  rw [get_slice, decide_eq_true inside, Bool.true_and, List.getElem?_drop, getD_bits]

/-- Bits make a bus of their number. Those that are counted but do not fit in are dropped. -/
theorem bits_ofBits (bits : List Bool) :
    (ofBits bits).bits = fitted (bits.length % handleLimit) bits := by
  rw [ofBits, fitted, takeD_eq_map_range]
  refine bits_eq_map _ (clampWidth (bits.length % handleLimit)) rfl fun place inside => ?_
  have room : place < maxBusWidth := Nat.lt_of_lt_of_le inside (clampWidth_le _)
  rw [get_ofNat, decide_eq_true inside, Bool.true_and, testBit_pack, List.getElem?_take,
    if_pos room]

theorem bits_set (index : Nat) (bit : Bool) : (bus.set index bit).bits = bus.bits.set index bit := by
  refine List.ext_getElem? fun place => ?_
  rw [getElem?_bits, width_set, get_set, List.getElem?_set, getElem?_bits, length_bits]
  by_cases here : index = place
  · subst here
    by_cases inside : index < bus.width <;> simp [inside]
  · rw [if_neg fun both : place = index ∧ _ => here both.1.symm, if_neg here]

theorem bits_complement : bus.complement.bits = bus.bits.map not := by
  rw [bits.eq_def bus, List.map_map]
  exact bits_eq_map bus.complement bus.width rfl fun place inside => bus.get_complement inside

theorem bits_or {left right : Bus} (same : left.width = right.width) :
    (left.or right same).bits = List.zipWith Bool.or left.bits right.bits := by
  rw [bits.eq_def left, bits.eq_def right, same, List.zipWith_map, List.zipWith_self]
  exact bits_eq_map (left.or right same) right.width same fun place _ => get_or same place

theorem bits_and {left right : Bus} (same : left.width = right.width) :
    (left.and right same).bits = List.zipWith Bool.and left.bits right.bits := by
  rw [bits.eq_def left, bits.eq_def right, same, List.zipWith_map, List.zipWith_self]
  exact bits_eq_map (left.and right same) right.width same fun place _ => get_and same place

theorem bits_append (low high : Bus) :
    (low.append high).bits = (low.bits ++ high.bits).take maxBusWidth := by
  refine List.ext_getElem? fun place => ?_
  rw [getElem?_bits, width_append, get_append, List.getElem?_take, List.getElem?_append, length_bits,
    getElem?_bits, getElem?_bits]
  by_cases room : place < maxBusWidth
  · have inside : place < min (low.width + high.width) maxBusWidth ↔ place < low.width + high.width := by
      omega
    by_cases inLow : place < low.width
    · simp [room, inLow, inside, Nat.lt_add_right]
    · have there : place - low.width < high.width ↔ place < low.width + high.width := by omega
      simp [room, inLow, inside, there]
  · have beyond : ¬ place < min (low.width + high.width) maxBusWidth := by omega
    rw [if_neg beyond, if_neg room]

/-- A bus is read from digits exactly if there are bits that they stand for. -/
theorem map_bits_ofBinary? (text : List Char) : (ofBinary? text).map bits = digitBits? text := by
  rw [ofBinary?, digitBits?]
  generalize text.filter (· != '_') = written
  have many : (written.isEmpty || decide (written.length > maxBusWidth)) = false ↔
      1 ≤ written.length ∧ written.length ≤ maxBusWidth := by
    cases written <;> simp
  by_cases count : 1 ≤ written.length ∧ written.length ≤ maxBusWidth
  · rw [if_neg (Bool.eq_false_iff.mp (many.mpr count)), mapM_binaryDigit?_eq]
    rw [List.all_reverse]
    by_cases digits : written.all fun c => c == '0' || c == '1'
    · have few : written.length < handleLimit := Nat.lt_of_le_of_lt count.2 (by decide)
      have clamped : clampWidth written.length = written.length := by
        rw [clampWidth, Nat.min_eq_left count.2, Nat.max_eq_right count.1]
      rw [if_pos digits, if_pos ⟨count.1, count.2, digits⟩, Option.map_some, Option.map_some, bits_ofBits,
        List.length_map, List.length_reverse, Nat.mod_eq_of_lt few, fitted, clamped,
        List.takeD_eq_take _ (by simp), List.take_of_length_le (by simp)]
    · rw [if_neg digits, if_neg fun all => digits all.2.2]
      rfl
  · rw [if_pos (Bool.of_not_eq_false fun inRange => count (many.mp inRange)),
      if_neg fun all => count ⟨all.1, all.2.1⟩]
    rfl

end BitLists

section Recipes

/-- Two buses of one width, joined; buses of different widths cannot be joined. -/
def joined? (join : (left right : Bus) → left.width = right.width → Bus) (left right : Bus) : Option Bus :=
  if same : left.width = right.width then some (join left right same) else none

/-- Two lists of bits of one length, joined place by place. -/
def zipped? (join : Bool → Bool → Bool) (left right : List Bool) : Option (List Bool) :=
  if left.length = right.length then some (List.zipWith join left right) else none

/-- A way to make a bus: the operations one after the other, down to what the first buses are made of. -/
inductive Recipe where
  /-- The clear bus of a width. -/
  | zero (width : Nat)
  /-- A bit, copied to every place. -/
  | splat (width : Nat) (bit : Bool)
  /-- The low bits of a number. -/
  | ofNat (word width : Nat)
  /-- Bits, one by one. -/
  | ofBits (bits : List Bool)
  /-- Binary digits. -/
  | ofBinary (text : List Char)
  /-- The record of a file. -/
  | stored (width data : Nat)
  /-- A bit of a bus is written. -/
  | set (bus : Recipe) (index : Nat) (bit : Bool)
  /-- Every bit of a bus is turned around. -/
  | complement (bus : Recipe)
  /-- The union of two buses. -/
  | or (left right : Recipe)
  /-- The intersection of two buses. -/
  | and (left right : Recipe)
  /-- Bits out of a bus. -/
  | slice (bus : Recipe) (offset width : Nat)
  /-- Two buses, one behind the other. -/
  | append (low high : Recipe)
  /-- A bus that is brought to a width. -/
  | resize (bus : Recipe) (width : Nat)

namespace Recipe

/-- The bus that a recipe makes, if every part of it can be made. -/
def make? : Recipe → Option Bus
  | zero width => some (Bus.zero width)
  | splat width bit => some (Bus.splat width bit)
  | ofNat word width => some (Bus.ofNat word width)
  | ofBits bits => some (Bus.ofBits bits)
  | ofBinary text => Bus.ofBinary? text
  | stored width data => Bus.ofJson? (.object [("width", .nat width), ("data", .nat data)])
  | set bus index bit => bus.make?.map fun bus => bus.set index bit
  | complement bus => bus.make?.map Bus.complement
  | or left right => left.make?.bind fun left => right.make?.bind fun right => joined? Bus.or left right
  | and left right => left.make?.bind fun left => right.make?.bind fun right => joined? Bus.and left right
  | slice bus offset width => bus.make?.map fun bus => bus.slice offset width
  | append low high => low.make?.bind fun low => high.make?.map fun high => low.append high
  | resize bus width => bus.make?.map fun bus => bus.resize width

/-- The bits that a recipe describes, with lists of bits in place of buses. -/
def bits? : Recipe → Option (List Bool)
  | zero width => some (List.replicate (clampWidth width) false)
  | splat width bit => some (List.replicate (clampWidth width) bit)
  | ofNat word width => some (lowest width word)
  | ofBits bits => some (fitted (bits.length % handleLimit) bits)
  | ofBinary text => digitBits? text
  | stored width data => if width < handleLimit ∧ data < wordLimit then some (lowest width data) else none
  | set bus index bit => bus.bits?.map fun bits => bits.set index bit
  | complement bus => bus.bits?.map fun bits => bits.map not
  | or left right => left.bits?.bind fun left => right.bits?.bind fun right => zipped? Bool.or left right
  | and left right => left.bits?.bind fun left => right.bits?.bind fun right => zipped? Bool.and left right
  | slice bus offset width => bus.bits?.map fun bits => fitted width (bits.drop offset)
  | append low high =>
    low.bits?.bind fun low => high.bits?.map fun high => (low ++ high).take maxBusWidth
  | resize bus width => bus.bits?.map (fitted width)

end Recipe

/-- A join that acts bit by bit joins the bits, and can be made exactly if these can be joined. -/
theorem map_bits_joined? {join : (left right : Bus) → left.width = right.width → Bus}
    {pointwise : Bool → Bool → Bool}
    (bitwise : ∀ {left right : Bus} (same : left.width = right.width),
      (join left right same).bits = List.zipWith pointwise left.bits right.bits)
    (left right : Bus) : (joined? join left right).map bits = zipped? pointwise left.bits right.bits := by
  rw [joined?, zipped?, length_bits, length_bits]
  split
  · next same => rw [Option.map_some, bitwise same]
  · rfl

/-- Two buses, if both can be made, are joined like their bits. -/
theorem map_bits_both {join : Bus → Bus → Option Bus}
    {listed : List Bool → List Bool → Option (List Bool)}
    (each : ∀ left right, (join left right).map bits = listed left.bits right.bits)
    (left right : Option Bus) :
    (left.bind fun left => right.bind fun right => join left right).map bits =
      (left.map bits).bind fun left => (right.map bits).bind fun right => listed left right := by
  cases left with
  | none => rfl
  | some left =>
    cases right with
    | none => rfl
    | some right => exact each left right

/-- A record makes a bus if its two numbers fit the fields. -/
theorem map_bits_stored (width data : Nat) :
    ((Recipe.stored width data).make?).map bits = (Recipe.stored width data).bits? := by
  have below (limit n : Nat) : Json.natBelow? limit (.nat n) = if n < limit then some n else none := by
    by_cases fits : n < limit
    · rw [Json.natBelow?_nat fits, if_pos fits]
    · rw [Json.nat, Json.natBelow?, if_neg (by omega), if_neg fits]
  rw [Recipe.make?, Recipe.bits?, ofJson?_of_fields (some (.nat width)) (some (.nat data)) rfl,
    Json.required_some, Json.required_some, below, below]
  by_cases widthFits : width < handleLimit
  · by_cases dataFits : data < wordLimit
    · rw [if_pos widthFits, if_pos dataFits, if_pos ⟨widthFits, dataFits⟩]
      exact congrArg some (bits_ofNat data width)
    · rw [if_neg dataFits, if_neg fun both : _ ∧ data < wordLimit => dataFits both.2, if_pos widthFits]
      rfl
  · rw [if_neg fun both : width < handleLimit ∧ _ => widthFits both.1, if_neg widthFits]
    rfl

/-- A recipe makes the bus of the bits that it describes, and none if it describes none.

Proof: by induction on the recipe; every operation on buses is the one on lists of bits. -/
theorem map_bits_make? (recipe : Recipe) : recipe.make?.map bits = recipe.bits? := by
  induction recipe with
  | zero width => exact congrArg some (bits_zero width)
  | splat width bit => exact congrArg some (bits_splat width bit)
  | ofNat word width => exact congrArg some (bits_ofNat word width)
  | ofBits bits => exact congrArg some (bits_ofBits bits)
  | ofBinary text => exact map_bits_ofBinary? text
  | stored width data => exact map_bits_stored width data
  | set source index bit inductionHypothesis =>
    rw [Recipe.make?, Recipe.bits?, ← inductionHypothesis, Option.map_map, Option.map_map]
    exact congrArg (source.make?.map ·) (funext fun bus => bus.bits_set index bit)
  | complement source inductionHypothesis =>
    rw [Recipe.make?, Recipe.bits?, ← inductionHypothesis, Option.map_map, Option.map_map]
    exact congrArg (source.make?.map ·) (funext bits_complement)
  | or left right ofLeft ofRight =>
    rw [Recipe.make?, Recipe.bits?, ← ofLeft, ← ofRight]
    exact map_bits_both (map_bits_joined? bits_or) left.make? right.make?
  | and left right ofLeft ofRight =>
    rw [Recipe.make?, Recipe.bits?, ← ofLeft, ← ofRight]
    exact map_bits_both (map_bits_joined? bits_and) left.make? right.make?
  | slice source offset width inductionHypothesis =>
    rw [Recipe.make?, Recipe.bits?, ← inductionHypothesis, Option.map_map, Option.map_map]
    exact congrArg (source.make?.map ·) (funext fun bus => bus.bits_slice offset width)
  | append low high ofLow ofHigh =>
    rw [Recipe.make?, Recipe.bits?, ← ofLow, ← ofHigh]
    have appended (low high : Bus) : (some (low.append high)).map bits =
        (fun low high => some ((low ++ high).take maxBusWidth)) low.bits high.bits :=
      congrArg some (bits_append low high)
    simpa only [Option.map_eq_bind] using map_bits_both appended low.make? high.make?
  | resize source width inductionHypothesis =>
    rw [Recipe.make?, Recipe.bits?, ← inductionHypothesis, Option.map_map, Option.map_map]
    exact congrArg (source.make?.map ·) (funext fun bus => bus.bits_resize width)

end Recipes

section Laws

/-- What the operations do to a bus bit by bit, whatever they are given. -/
structure ActsBitwise (bus : Bus) : Prop where
  reads : ∀ place, bus.get place = (decide (place < bus.width) && bus.word.testBit place)
  sets : ∀ index bit, (bus.set index bit).width = bus.width ∧
    ∀ place, (bus.set index bit).get place =
      if place = index ∧ index < bus.width then bit else bus.get place
  resizes : ∀ width, (bus.resize width).width = clampWidth width ∧
    ∀ place, (bus.resize width).get place = (decide (place < clampWidth width) && bus.get place)
  slices : ∀ offset width, (bus.slice offset width).width = clampWidth width ∧
    ∀ place, (bus.slice offset width).get place =
      (decide (place < clampWidth width) && bus.get (offset + place))
  appends : ∀ high : Bus, (bus.append high).width = min (bus.width + high.width) maxBusWidth ∧
    ∀ place, (bus.append high).get place = (decide (place < maxBusWidth) &&
      if place < bus.width then bus.get place else high.get (place - bus.width))
  complements : bus.complement.width = bus.width ∧
    ∀ place, bus.complement.get place = (decide (place < bus.width) && !bus.get place)
  unites : ∀ (other : Bus) (same : bus.width = other.width), (bus.or other same).width = bus.width ∧
    ∀ place, (bus.or other same).get place = (bus.get place || other.get place)
  intersects : ∀ (other : Bus) (same : bus.width = other.width),
    (bus.and other same).width = bus.width ∧
      ∀ place, (bus.and other same).get place = (bus.get place && other.get place)
  renders : bus.render.length = bus.width ∧ ∀ place < bus.width,
    bus.render[bus.width - 1 - place]? = some (if bus.get place then '1' else '0')

/-- The operations act on every bus bit by bit. -/
theorem actsBitwise (bus : Bus) : bus.ActsBitwise where
  reads _ := rfl
  sets index bit := ⟨bus.width_set index bit, bus.get_set index bit⟩
  resizes width := ⟨rfl, bus.get_resize width⟩
  slices offset width := ⟨rfl, bus.get_slice offset width⟩
  appends high := ⟨width_append bus high, get_append bus high⟩
  complements := by
    refine ⟨rfl, fun place => ?_⟩
    by_cases inside : place < bus.width
    · rw [bus.get_complement inside, decide_eq_true inside, Bool.true_and]
    · rw [bus.complement.get_beyond (Nat.le_of_not_lt inside), decide_eq_false inside, Bool.false_and]
  unites _ same := ⟨rfl, get_or same⟩
  intersects _ same := ⟨rfl, get_and same⟩
  renders := ⟨bus.length_render, fun _ inside => bus.getElem?_render inside⟩

/-- Whatever a file gives for a bus, the bus is that of a record of two numbers. -/
theorem exists_stored {json : Json} {bus : Bus} (read : Bus.ofJson? json = some bus) :
    ∃ width data, (Recipe.stored width data).make? = some bus := by
  have numbers : ∃ width < handleLimit, ∃ data < wordLimit, bus = ofNat data width := by
    rw [Bus.ofJson?] at read
    obtain ⟨fields, _, read⟩ := Option.bind_eq_some_iff.mp read
    split at read
    · next width data =>
      obtain ⟨width, ofWidth, read⟩ := Option.bind_eq_some_iff.mp read
      obtain ⟨data, ofData, read⟩ := Option.bind_eq_some_iff.mp read
      obtain ⟨_, _, ofWidth⟩ := Option.bind_eq_some_iff.mp ofWidth
      obtain ⟨_, _, ofData⟩ := Option.bind_eq_some_iff.mp ofData
      exact ⟨width, Json.lt_of_natBelow? ofWidth, data, Json.lt_of_natBelow? ofData,
        (Option.some.inj read).symm⟩
    · contradiction
  obtain ⟨width, widthFits, data, dataFits, rfl⟩ := numbers
  refine ⟨width, data, ?_⟩
  rw [Recipe.make?, ofJson?_of_fields (some (.nat width)) (some (.nat data)) rfl, Json.required_some,
    Json.required_some, Json.natBelow?_nat widthFits, Option.bind_some, Json.natBelow?_nat dataFits,
    Option.bind_some]

/-- Buses are faithful vectors of bits. Whatever the recipe, it makes the bus of the bits that the same
recipe gives on lists of bits, and none if it gives none; the bus has one to sixty-four bits and none beyond
its width; the records of files make no others. Every operation acts bit by bit, and two buses are equal
exactly if their widths and all their bits agree. -/
theorem faithful_vectors :
    (∀ recipe : Recipe, recipe.make?.map bits = recipe.bits?) ∧
    (∀ (recipe : Recipe) (bus : Bus), recipe.make? = some bus →
      1 ≤ bus.width ∧ bus.width ≤ 64 ∧ ∀ place ≥ bus.width, bus.word.testBit place = false) ∧
    (∀ (json : Json) (bus : Bus), Bus.ofJson? json = some bus →
      ∃ width data, (Recipe.stored width data).make? = some bus) ∧
    (∀ bus : Bus, bus.ActsBitwise) ∧
    (∀ left right : Bus, left = right ↔
      left.width = right.width ∧ ∀ place, left.get place = right.get place) := by
  refine ⟨map_bits_make?, ?_, fun _ _ => exists_stored, actsBitwise, ?_⟩
  · intro _ bus _
    refine ⟨bus.width_pos, bus.width_le, fun place beyond => ?_⟩
    exact bus.testBit_word (Nat.not_lt.mpr beyond)
  · intro left right
    constructor
    · rintro rfl
      exact ⟨rfl, fun _ => rfl⟩
    · rintro ⟨widths, each⟩
      exact ext_get widths fun place _ => each place

end Laws

end Breadboard.Bus
