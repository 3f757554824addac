import ValueLattice.Double.Shortest
import ValueLattice.Text.Scalar

/-!
# Decimal texts of doubles

A double is written with the fewest digits that read back. `numberLayout` says how they are laid
out: positionally when the leading digit stands for an exponent from -6 to 20, otherwise with an
exponent that carries its sign.

* `text` is the plain text; both zeros are `0`;
* `key` tells the zeros apart and otherwise is the plain text;
* `pointText` writes an integral value below `10^21` with all its digits and one place.
-/

namespace ValueLattice.Double

/-- Where positional notation ends. -/
structure Layout where
  /-- The least exponent of the leading digit that is written positionally. -/
  leastPlain : Int
  /-- The greatest exponent of the leading digit that is written positionally. -/
  greatestPlain : Int

/-- Numbers are written positionally from `10^-6` to below `10^21`. -/
def numberLayout : Layout := ⟨-6, 20⟩

/-- A text of zeros. -/
def zerosText (n : Nat) : String :=
  String.ofList (List.replicate n '0')

/-- The digits with a point after the first one, unless it is the only one. -/
def pointAfterFirst : List Char → String
  | [] => ""
  | [c] => String.ofList [c]
  | c :: l => String.ofList (c :: '.' :: l)

/-- The text of a positive decimal. -/
def decimalText (layout : Layout) (d : Decimal) : String :=
  let digits := Nat.toDigits 10 d.digits
  let lead : Int := digits.length + d.exponent - 1
  if lead < layout.leastPlain ∨ layout.greatestPlain < lead then
    pointAfterFirst digits ++ "e" ++ (if lead < 0 then "-" else "+") ++ Text.natural lead.natAbs
  else if 0 ≤ d.exponent then
    String.ofList digits ++ zerosText d.exponent.toNat
  else if 0 ≤ lead then
    String.ofList (digits.take (lead.toNat + 1)) ++ "." ++ String.ofList (digits.drop (lead.toNat + 1))
  else
    "0." ++ zerosText (-lead - 1).toNat ++ String.ofList digits

/-- The plain text of a double: the fewest digits that read back, and `0` for both zeros. -/
def text : Double → String
  | nan => "NaN"
  | infinity negative => Text.sign negative ++ "Infinity"
  | finite _ 0 _ => "0"
  | finite negative index _ => Text.sign negative ++ decimalText numberLayout (shortest index)

/-- The text that identifies a double: the negative zero is told apart from the positive one. -/
def key (x : Double) : String :=
  if x = negativeZero then "-0" else x.text

/-- The text of a double in which integral values show a point: all digits and one place below
`10^21`, the plain text otherwise. -/
def pointText (x : Double) : String :=
  if x = negativeZero then "-0.0"
  else match x.toInt? with
    | some n =>
      if n.natAbs < Nat.pow 10 21 then Text.integer n ++ ".0" else x.text
    | none => x.text

/-- Whether two doubles are the same value: the zeros differ, and NaN is the same as itself. -/
def same (x y : Double) : Bool :=
  x.key == y.key

@[simp] theorem same_self (x : Double) : same x x = true := by
  simp [same]

end ValueLattice.Double
