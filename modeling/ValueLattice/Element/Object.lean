import ValueLattice.Constraint.Algebra
import ValueLattice.Payload

/-!
# Shapes of object references

What is known about a reference apart from the contents of the object: a constraint on its class,
whether it may be null, whether the object may be modified, and whether it is a fresh object that
has not escaped. Each component has its order, join and meet.

* the join of a reference that is never null with one that may be null has unknown nullability,
  although the latter covers the former; `absorbs` tells the two apart;
* a local object is never null.
-/

namespace ValueLattice

/-! ## Nullability -/

/-- The nullability of a value. -/
inductive Nullability where
  /-- Always null. -/
  | null
  /-- Never null. -/
  | notNull
  /-- Sometimes null. -/
  | nullable
  /-- Nothing is known. -/
  | unknown
deriving DecidableEq

/-- The name of a nullability. -/
def Nullability.name : Nullability → String
  | null => "null"
  | notNull => "not-null"
  | nullable => "nullable"
  | unknown => "unknown"

/-- The nullability of a reference that is not always null. -/
inductive ObjectNullability where
  /-- Never null. -/
  | notNull
  /-- Sometimes null. -/
  | nullable
  /-- Nothing is known. -/
  | unknown
deriving DecidableEq

/-- The nullability of a reference, unless it is always null. -/
def Nullability.object? : Nullability → Option ObjectNullability
  | null => none
  | notNull => some .notNull
  | nullable => some .nullable
  | unknown => some .unknown

namespace ObjectNullability

/-- The nullability among all. -/
def general : ObjectNullability → Nullability
  | notNull => .notNull
  | nullable => .nullable
  | unknown => .unknown

/-- Whether a reference may be null. -/
def mayBeNull : ObjectNullability → Bool
  | notNull => false
  | _ => true

/-- Whether the first nullability allows for everything that the second one does. -/
def covers : ObjectNullability → ObjectNullability → Bool
  | unknown, _ => true
  | nullable, unknown => false
  | nullable, _ => true
  | notNull, n => n == notNull

/-- The nullability of either of two references. -/
def join (n m : ObjectNullability) : ObjectNullability :=
  if n = m then n else unknown

/-- The nullability of a reference that is known in two ways. -/
def meet : ObjectNullability → ObjectNullability → ObjectNullability
  | unknown, m => m
  | n, unknown => n
  | n, m => if n = m then n else notNull

end ObjectNullability

/-! ## Mutability -/

/-- Whether the object may be modified through the reference. -/
inductive Mutability where
  /-- It may be modified. -/
  | mutable
  /-- It may not be modified. -/
  | unmodifiable
  /-- Nothing is known. -/
  | unknown
deriving DecidableEq

namespace Mutability

/-- The name of a mutability. -/
def name : Mutability → String
  | mutable => "mutable"
  | unmodifiable => "unmodifiable"
  | unknown => "unknown"

/-- Whether the first mutability allows for everything that the second one does. -/
def covers (m n : Mutability) : Bool :=
  m == n || m == unknown

/-- The mutability of either of two objects. -/
def join (m n : Mutability) : Mutability :=
  if m = n then m else unknown

/-- The mutability of an object that is known in two ways, if there is any. -/
def meet? : Mutability → Mutability → Option Mutability
  | unknown, n => some n
  | m, unknown => some m
  | m, n => if m = n then some m else none

end Mutability

/-! ## Shapes -/

/-- What is known about a reference apart from the contents of the object. -/
structure ObjectShape where
  /-- The constraint on the class of the object. -/
  constraint : Constraint
  /-- Whether the reference may be null. -/
  nullability : ObjectNullability
  /-- Whether the object may be modified. -/
  mutability : Mutability := .unknown
  /-- Whether the object is fresh and has not escaped. -/
  isLocal : Bool := false
deriving DecidableEq

namespace ObjectShape

/-- The invariant of shapes: local objects are never null. -/
def Valid (s : ObjectShape) : Prop :=
  s.isLocal = true → s.nullability = .notNull

/-- Whether every reference of the second shape has the first shape. -/
def covers (r : Registry) (s t : ObjectShape) : Bool :=
  s.nullability.covers t.nullability && s.mutability.covers t.mutability &&
    (!s.isLocal || t.isLocal) && s.constraint.covers r t.constraint

@[simp] theorem covers_self (r : Registry) (s : ObjectShape) : s.covers r s = true := by
  simp only [covers, Constraint.covers_self, Mutability.covers]
  cases s.nullability <;> simp [ObjectNullability.covers]

/-- The shape of either of two references. -/
def join (r : Registry) (s t : ObjectShape) : ObjectShape where
  constraint := s.constraint.join r t.constraint
  nullability := s.nullability.join t.nullability
  mutability := s.mutability.join t.mutability
  isLocal := s.isLocal && t.isLocal

/-- The shape of a reference or null. A reference that was never null is no longer local. -/
def orNull (s : ObjectShape) : ObjectShape :=
  if s.nullability.mayBeNull then s else { s with nullability := .nullable, isLocal := false }

/-- The nullability of a reference that has two shapes: local objects are never null. -/
def meetNullability (s t : ObjectShape) : ObjectNullability :=
  if s.isLocal || t.isLocal then .notNull else s.nullability.meet t.nullability

/-- The shape of a reference that has two shapes, if an object can have both. -/
def meet? (r : Registry) (s t : ObjectShape) : Option ObjectShape :=
  let constraint := s.constraint.meet r t.constraint
  if constraint.isBottom then none
  else (s.mutability.meet? t.mutability).map fun mutability =>
    ⟨constraint, s.meetNullability t, mutability, s.isLocal || t.isLocal⟩

/-- Whether both references may be null, so that null has both shapes. -/
def bothMayBeNull (s t : ObjectShape) : Bool :=
  s.nullability.mayBeNull && t.nullability.mayBeNull

end ObjectShape

/-! ## Reference constants -/

/-- A reference to one object that is known. -/
structure ReferenceConstant where
  /-- The object. -/
  payload : Payload
  /-- The constraint on the class of the object. -/
  constraint : Constraint
  /-- Whether the value was computed, and not taken from a literal. -/
  synthesized : Bool := false
deriving DecidableEq

namespace ReferenceConstant

/-- Whether the second constant stands for the object that the first one stands for. -/
def covers (r : Registry) (c d : ReferenceConstant) : Bool :=
  c.payload.key == d.payload.key && c.constraint.covers r d.constraint

@[simp] theorem covers_self (r : Registry) (c : ReferenceConstant) : c.covers r c = true := by
  simp [covers]

/-- The shape of the reference to the object. -/
def shape (c : ReferenceConstant) : ObjectShape :=
  ⟨c.constraint, .notNull, .unknown, false⟩

/-- The text that identifies the constant. -/
def key (c : ReferenceConstant) : String :=
  "const|" ++ c.payload.key ++ "|" ++ c.constraint.key

end ReferenceConstant

end ValueLattice
