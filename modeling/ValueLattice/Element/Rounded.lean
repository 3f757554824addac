import ValueLattice.Element.Floating

/-!
# Operations that round

A set of floating-point numbers of a width is made of numbers that are rounded to the width. The
operations make their results in this way too, out of the numbers of their operands. Here they are
with the rounding.

* `roundedExcluding` makes the set of all numbers but some;
* `roundedJoin`, `roundedMeet?` and `roundedNegate?` are the operations.
-/

namespace ValueLattice.FloatingSet

variable (w : FloatingWidth)

/-- All numbers but the given ones, rounded to the width. -/
def roundedExcluding (xs : List Double) : FloatingSet :=
  excluding (xs.map w.round)

/-- The join of two sets neither of which covers the other. -/
def roundedJoinApart : FloatingSet → FloatingSet → FloatingSet
  | allBut xs, t => roundedExcluding w (xs.filter (!t.contains ·))
  | s, allBut ys => roundedExcluding w (ys.filter (!s.contains ·))
  | only x, only y => if x.isZero && y.isZero then zeros else any
  | _, _ => any

/-- A set that contains the members of both sets. -/
def roundedJoin (s t : FloatingSet) : FloatingSet :=
  if s.covers t then s else if t.covers s then t else roundedJoinApart w s t

/-- The zeros among the members of a set. -/
def roundedZerosOf? (s : FloatingSet) : Option FloatingSet :=
  match Double.zeros.filter (s.contains ·) with
  | [] => none
  | [x] => some (only (w.round x))
  | _ => some zeros

/-- The meet of two sets neither of which covers the other. -/
def roundedMeetApart? : FloatingSet → FloatingSet → Option FloatingSet
  | allBut xs, allBut ys => some (roundedExcluding w (xs ++ ys))
  | zeros, t => roundedZerosOf? w t
  | s, zeros => roundedZerosOf? w s
  | _, _ => none

/-- The common members of two sets. -/
def roundedMeet? (s t : FloatingSet) : Option FloatingSet :=
  if s.covers t then some t else if t.covers s then some s else roundedMeetApart? w s t

/-- The numbers that do not belong to the set, if they have a form. -/
def roundedNegate? : FloatingSet → Option FloatingSet
  | any => none
  | zeros => some (roundedExcluding w Double.zeros)
  | only x => some (roundedExcluding w [x])
  | allBut [x] => some (only (w.round x))
  | allBut [x, y] => if x.isZero && y.isZero then some zeros else none
  | allBut _ => none

end ValueLattice.FloatingSet
