/-!
# Texts as sequences of 16-bit units

Lengths and orders of texts are counted in 16-bit units: a character below U+10000 is one unit,
every other character is a surrogate pair.

* `units` lists the units of a text, `unitLength` counts them;
* `unitsBefore` is the lexicographic order of unit lists, and `before` that order on texts;
* `sortByText` lists elements in the order of their keys, one element for each key;
* `ofUnits` reads units back into characters.
-/

namespace ValueLattice.Text

/-! ## Units of a text -/

/-- The 16-bit units of one character. -/
def charUnits (c : Char) : List Nat :=
  if c.toNat < 0x10000 then [c.toNat]
  else [0xD800 + (c.toNat - 0x10000) / 0x400, 0xDC00 + (c.toNat - 0x10000) % 0x400]

/-- The 16-bit units of a text. -/
def units (s : String) : List Nat :=
  s.toList.flatMap charUnits

/-- The number of 16-bit units of a text. -/
def unitLength (s : String) : Nat :=
  (units s).length

/-! ## The order of texts -/

/-- The strict lexicographic order of unit lists: a proper beginning comes first. -/
def unitsBefore : List Nat → List Nat → Bool
  | _, [] => false
  | [], _ :: _ => true
  | u :: l, v :: m => u < v || (u == v && unitsBefore l m)

/-- Whether the first text comes before the second in the order of their units. -/
def before (s t : String) : Bool :=
  unitsBefore (units s) (units t)

/-- Inserts an element in front of the first one whose key comes later; an element with the same
key is replaced. -/
def insertByText {α : Type} (key : α → String) (a : α) : List α → List α
  | [] => [a]
  | b :: l =>
    if before (key a) (key b) then a :: b :: l
    else if key a = key b then a :: l
    else b :: insertByText key a l

/-- The elements in the order of their keys, one element for each key. -/
def sortByText {α : Type} (key : α → String) (l : List α) : List α :=
  l.foldr (insertByText key) []

/-! ## Reading units back -/

/-- The character of a unit that stands alone; an unpaired surrogate is the replacement character. -/
def unitChar (u : Nat) : Char :=
  if 0xD800 ≤ u ∧ u < 0xE000 then '\ufffd' else Char.ofNat u

/-- The characters of a list of units. -/
def ofUnits : List Nat → List Char
  | [] => []
  | [u] => [unitChar u]
  | u :: v :: l =>
    if (0xD800 ≤ u ∧ u < 0xDC00) ∧ (0xDC00 ≤ v ∧ v < 0xE000) then
      Char.ofNat (0x10000 + (u - 0xD800) * 0x400 + (v - 0xDC00)) :: ofUnits l
    else unitChar u :: ofUnits (v :: l)

/-! ## Basic facts -/

theorem unitsBefore_irrefl (l : List Nat) : unitsBefore l l = false := by
  induction l with
  | nil => rfl
  | cons u l ih => simp [unitsBefore, ih]

theorem before_irrefl (s : String) : before s s = false :=
  unitsBefore_irrefl (units s)

@[simp] theorem sortByText_nil {α : Type} (key : α → String) : sortByText key [] = [] := rfl

end ValueLattice.Text
