/-!
# Sets of truth values

A non-empty set of truth values. An intersection or a complement without members is `none`.
-/

namespace ValueLattice

/-- A non-empty set of truth values. -/
inductive BooleanSet where
  /-- Both truth values. -/
  | any
  /-- One truth value. -/
  | only (value : Bool)
deriving DecidableEq

namespace BooleanSet

/-- Whether every member of `t` is a member of `s`. -/
def covers (s t : BooleanSet) : Bool :=
  s == any || s == t

@[simp] theorem covers_self (s : BooleanSet) : s.covers s = true := by
  simp [covers]

/-- The members of either set. -/
def join (s t : BooleanSet) : BooleanSet :=
  if s.covers t then s else if t.covers s then t else any

/-- The common members of two sets. -/
def meet? (s t : BooleanSet) : Option BooleanSet :=
  if s.covers t then some t else if t.covers s then some s else none

/-- The truth values that do not belong to the set. -/
def negate? : BooleanSet → Option BooleanSet
  | any => none
  | only b => some (only !b)

end BooleanSet

end ValueLattice
