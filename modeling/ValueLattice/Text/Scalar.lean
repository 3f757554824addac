/-!
# Plain texts of scalars

Integers of any size are written with their decimal digits, behind a minus sign when they are
negative. Truth values are words.
-/

namespace ValueLattice.Text

/-- The decimal digits of a natural number. -/
def natural (n : Nat) : String :=
  String.ofList (Nat.toDigits 10 n)

/-- The sign in front of a negative number. -/
def sign (negative : Bool) : String :=
  if negative then "-" else ""

/-- The decimal numeral of an integer. -/
def integer (n : Int) : String :=
  sign (decide (n < 0)) ++ natural n.natAbs

/-- The word for a truth value. -/
def boolean (b : Bool) : String :=
  if b then "true" else "false"

end ValueLattice.Text
