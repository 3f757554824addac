import ValueLattice.Double.Rounding
import ValueLattice.RangeSet.Domain

/-!
# Primitive types

The eight primitive types. The four integer types that fit in 32 bits are called narrow: their
literals are written as numbers, and lattice elements do not tell them apart.
-/

namespace ValueLattice

/-- The integer types that fit in 32 bits. -/
inductive NarrowType where
  /-- Eight signed bits. -/
  | byte
  /-- Sixteen signed bits. -/
  | short
  /-- Sixteen unsigned bits. -/
  | char
  /-- Thirty-two signed bits. -/
  | int
deriving DecidableEq

/-- The integer type that a narrow type is. -/
def NarrowType.integerType : NarrowType → IntegerType
  | byte => .byte
  | short => .short
  | char => .char
  | int => .int

/-- The primitive types. -/
inductive PrimitiveType where
  /-- Truth values. -/
  | boolean
  /-- Integers of up to 32 bits. -/
  | narrow (type : NarrowType)
  /-- Integers of 64 bits. -/
  | long
  /-- Floating-point numbers. -/
  | floating (width : FloatingWidth)
deriving DecidableEq

namespace PrimitiveType

/-- The name of the type. -/
def name : PrimitiveType → String
  | boolean => "boolean"
  | narrow type => type.integerType.name
  | long => IntegerType.long.name
  | floating width => width.name

/-- All primitive types. -/
def all : List PrimitiveType :=
  [boolean, narrow .byte, narrow .short, narrow .char, narrow .int, long, floating .float,
    floating .double]

/-- The primitive type with the given name. -/
def ofName? (name : String) : Option PrimitiveType :=
  all.find? (·.name == name)

/-- Every type is found by its name. -/
@[simp] theorem ofName?_name (t : PrimitiveType) : ofName? t.name = some t := by
  cases t with
  | boolean => decide
  | narrow type => cases type <;> decide
  | long => decide
  | floating width => cases width <;> decide

end PrimitiveType

end ValueLattice
