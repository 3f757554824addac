import ValueLattice.Primitive

/-!
# Types of the host

A type as a front-end reports it: a primitive type, one of two types without values of their own, or
a type of objects, known by its name.
-/

namespace ValueLattice

/-- A type of the host. -/
inductive HostType where
  /-- A primitive type. -/
  | primitive (type : PrimitiveType)
  /-- The type without values. -/
  | void
  /-- The type of the null reference. -/
  | null
  /-- A type of objects. -/
  | reference (name : String)
deriving DecidableEq

/-- The type with the given name among the primitive types; a name that is not one of theirs is
taken for a type of objects. -/
def HostType.ofPrimitiveName (name : String) : HostType :=
  match PrimitiveType.ofName? name with
  | some type => primitive type
  | none => if name = "void" then void else if name = "null" then null else reference name

end ValueLattice
