import ValueLattice.RangeSet.Algebra

/-!
# Integer types and their domains

The fixed-width integer types and the sets of values they have. Lattice elements distinguish two
widths, `int` and `long`; the narrower types are subsets of `int`.
-/

namespace ValueLattice

/-- The fixed-width integer types. -/
inductive IntegerType where
  /-- Eight signed bits. -/
  | byte
  /-- Sixteen signed bits. -/
  | short
  /-- Sixteen unsigned bits. -/
  | char
  /-- Thirty-two signed bits. -/
  | int
  /-- Sixty-four signed bits. -/
  | long
deriving DecidableEq

namespace IntegerType

/-- The name of the type. -/
def name : IntegerType → String
  | byte => "byte"
  | short => "short"
  | char => "char"
  | int => "int"
  | long => "long"

/-- The least value of the type. -/
def least : IntegerType → Int
  | byte => -128
  | short => -32768
  | char => 0
  | int => -2147483648
  | long => -9223372036854775808

/-- The greatest value of the type. -/
def greatest : IntegerType → Int
  | byte => 127
  | short => 32767
  | char => 65535
  | int => 2147483647
  | long => 9223372036854775807

/-- The values of the type. -/
def domain (t : IntegerType) : RangeSet := RangeSet.range t.least t.greatest

theorem mem_domain {t : IntegerType} {n : Int} :
    n ∈ t.domain ↔ t.least ≤ n ∧ n ≤ t.greatest :=
  RangeSet.mem_range

theorem canonical_domain (t : IntegerType) : t.domain.Canonical :=
  RangeSet.canonical_range _ _

end IntegerType

/-- The widths of integral lattice elements. -/
inductive IntegralWidth where
  /-- Thirty-two bits. -/
  | int
  /-- Sixty-four bits. -/
  | long
deriving DecidableEq

namespace IntegralWidth

/-- The integer type of the width. -/
def integerType : IntegralWidth → IntegerType
  | int => .int
  | long => .long

/-- The name of the width. -/
def name (w : IntegralWidth) : String := w.integerType.name

/-- The values of the width. -/
def domain (w : IntegralWidth) : RangeSet := w.integerType.domain

end IntegralWidth

end ValueLattice
