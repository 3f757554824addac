import ValueLattice.Text.Units

/-!
# A 32-bit hash of texts

Each unit of the text multiplies the hash by 33 and is added to it; the result is kept in the
signed 32-bit range.
-/

namespace ValueLattice.Text

/-- The hash of a list of units, starting from `h`. -/
def hashUnits (h : Int) (l : List Nat) : Int :=
  l.foldl (fun h (u : Nat) => Int.bmod (h * 33 + u) (Nat.pow 2 32)) h

/-- The signed 32-bit hash of a text. -/
def hash (s : String) : Int :=
  hashUnits 5381 (units s)

end ValueLattice.Text
