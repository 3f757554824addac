import ValueLattice.Double.Basic

/-!
# Rounding to the nearest number

Exact values are quotients of naturals, counted in steps of `2^-1074`, and are rounded once: to the
nearest representable number, a tie going to the even one, and past the largest one to infinity.

* `roundEven` rounds a quotient to an integer;
* `nearestIndex` gives the index of the nearest double; since the indices of a binade continue where
  those of the binade below end, a carry out of the significand needs no case of its own;
* `ofInt` and `ofDecimal` round integers and decimals, `ofNumeral` numerals as they are written;
* `toSingle` rounds to single precision, `FloatingWidth.round` to the precision of a width.
-/

namespace ValueLattice

namespace Double

/-- The integer nearest to a quotient; a tie goes to the even one. -/
def roundEven (num den : Nat) : Nat :=
  let q := num / den
  let r := num % den
  if 2 * r < den then q
  else if den < 2 * r then q + 1
  else if q % 2 = 0 then q else q + 1

/-- The index of the double nearest to `num / den` steps; at least `finiteCount` when the value
rounds past the largest finite double. -/
def nearestIndex (num den : Nat) : Nat :=
  let shift := (num / den).log2 - 52
  shift * Nat.pow 2 52 + roundEven num (den * Nat.pow 2 shift)

/-- The double nearest to `num / den` steps, with the given sign. -/
def ofSteps (negative : Bool) (num den : Nat) : Double :=
  if h : nearestIndex num den < finiteCount then finite negative (nearestIndex num den) h
  else infinity negative

/-- The double nearest to an integer. -/
def ofInt (n : Int) : Double :=
  ofSteps (decide (n < 0)) (n.natAbs * Nat.pow 2 1074) 1

/-- The number of steps in `digits * 10^exponent`, as a quotient. -/
def decimalSteps (digits : Nat) (exponent : Int) : Nat × Nat :=
  (digits * Nat.pow 2 1074 * Nat.pow 10 exponent.toNat, Nat.pow 10 (-exponent).toNat)

/-- The double nearest to `digits * 10^exponent`, with the given sign. -/
def ofDecimal (negative : Bool) (digits : Nat) (exponent : Int) : Double :=
  let steps := decimalSteps digits exponent
  ofSteps negative steps.1 steps.2

/-- The double nearest to a decimal numeral whose exponent may be of any size: from `10^400` on a
number is beyond the finite doubles, and below `10^-400` it is nearest to zero. -/
def ofNumeral (negative : Bool) (digits : Nat) (exponent : Int) : Double :=
  if digits = 0 ∨ exponent < -(400 + digits.log2) then finite negative 0 zero_lt_finiteCount
  else if 400 < exponent then infinity negative
  else ofDecimal negative digits exponent

/-- The number of doubles' steps in one step of single precision. -/
def singleShift : Nat := 925

/-- The nearest number of single precision: 24 significant bits, steps of at least `2^-149`, and
infinity from `2^128` on. -/
def toSingle : Double → Double
  | finite negative index h =>
    let steps := stepsOfIndex index
    let shift := max singleShift (steps.log2 - 23)
    let rounded := roundEven steps (Nat.pow 2 shift) * Nat.pow 2 shift
    if Nat.pow 2 1202 ≤ rounded then infinity negative
    else if rounded = steps then finite negative index h
    else ofSteps negative rounded 1
  | x => x

end Double

/-- The widths of floating-point numbers. -/
inductive FloatingWidth where
  /-- Single precision. -/
  | float
  /-- Double precision. -/
  | double
deriving DecidableEq

namespace FloatingWidth

/-- The name of the width. -/
def name : FloatingWidth → String
  | float => "float"
  | double => "double"

/-- The number of the width that is nearest to a double. -/
def round : FloatingWidth → Double → Double
  | float, x => x.toSingle
  | double, x => x

end FloatingWidth

end ValueLattice
