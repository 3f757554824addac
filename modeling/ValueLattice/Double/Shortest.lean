import ValueLattice.Double.Rounding

/-!
# The fewest digits that read back

A magnitude is written with the fewest decimal digits that round to it again. On every decimal grid
`10^e` the two neighbours of the value are tried, from coarse grids to fine ones. The first grid with
a neighbour that reads back gives the digits: the nearer neighbour if both read back, and the even
one on a tie.

* `readsBack` is the test that a decimal rounds to the magnitude;
* `neighbour?_readsBack`: a neighbour that is selected on some grid passes it.
-/

namespace ValueLattice.Double

/-- The non-negative decimal number `digits * 10^exponent`. -/
structure Decimal where
  /-- The significant digits, read as one number. -/
  digits : Nat
  /-- The power of ten that scales the digits. -/
  exponent : Int
deriving DecidableEq

/-- Whether a decimal rounds to the magnitude with the given index. -/
def readsBack (index : Nat) (d : Decimal) : Bool :=
  let steps := decimalSteps d.digits d.exponent
  nearestIndex steps.1 steps.2 == index

/-- The value of the given number of steps on the grid `10^exponent`, as a quotient. -/
def onGrid (steps : Nat) (exponent : Int) : Nat × Nat :=
  (steps * Nat.pow 10 (-exponent).toNat, Nat.pow 2 1074 * Nat.pow 10 exponent.toNat)

/-- The neighbour of the value on the grid `10^exponent` that reads back, if one does: the nearer
of two, and the even one on a tie. -/
def neighbour? (index : Nat) (exponent : Int) : Option Decimal :=
  let value := onGrid (stepsOfIndex index) exponent
  let below : Decimal := ⟨value.1 / value.2, exponent⟩
  let above : Decimal := ⟨value.1 / value.2 + 1, exponent⟩
  let nearest : Decimal := ⟨roundEven value.1 value.2, exponent⟩
  if readsBack index nearest then some nearest
  else if readsBack index below then some below
  else if readsBack index above then some above
  else none

/-- A neighbour that is selected reads back. -/
theorem neighbour?_readsBack {index : Nat} {exponent : Int} {d : Decimal}
    (h : neighbour? index exponent = some d) : readsBack index d = true := by
  simp only [neighbour?] at h
  split at h
  · next hnearest => exact Option.some.inj h ▸ hnearest
  · split at h
    · next hbelow => exact Option.some.inj h ▸ hbelow
    · split at h
      · next habove => exact Option.some.inj h ▸ habove
      · exact absurd h (by simp)

/-- The first neighbour that reads back on the grids `10^exponent`, `10^(exponent - 1)` and so on. -/
def firstNeighbour? (index : Nat) : Nat → Int → Option Decimal
  | 0, _ => none
  | tries + 1, exponent =>
    (neighbour? index exponent).or (firstNeighbour? index tries (exponent - 1))

/-- An exponent at which the grid is coarser than the value: its binary logarithm times a little
over `log10 2`, rounded down, and two more. -/
def coarsestExponent (steps : Nat) : Int :=
  ((steps.log2 : Int) - 1074) * 30103 / 100000 + 2

/-- The exact decimal of the magnitude. -/
def exactDecimal (index : Nat) : Decimal :=
  ⟨stepsOfIndex index * Nat.pow 5 1074, -1074⟩

/-- The decimal with the fewest digits that rounds to the magnitude with the given index. -/
def shortest (index : Nat) : Decimal :=
  (firstNeighbour? index 20 (coarsestExponent (stepsOfIndex index))).getD (exactDecimal index)

end ValueLattice.Double
