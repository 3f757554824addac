import ValueLattice.Double.Text
import ValueLattice.Listed
import ValueLattice.Text.Units

/-!
# Sets of floating-point numbers

A non-empty set of numbers of one width. Numbers are told apart by their keys, so the two zeros
differ and NaN is the same as itself.

* `contains` is membership, and `covers`, `join`, `meet?` and `negate?` are the algebra;
* a join that has no form of its own is the set of all numbers;
* `Valid` says that excluded numbers are listed in the order of their keys, without repetition, and
  that there are some.
-/

namespace ValueLattice

/-- A non-empty set of floating-point numbers. -/
inductive FloatingSet where
  /-- Every number. -/
  | any
  /-- The two zeros. -/
  | zeros
  /-- A single number. -/
  | only (value : Double)
  /-- Every number but the listed ones. -/
  | allBut (excluded : List Double)
deriving DecidableEq

namespace FloatingSet

/-- The set of all numbers but the given ones, which may come in any order. -/
def excluding (xs : List Double) : FloatingSet :=
  match Text.sortByText Double.key xs with
  | [] => any
  | x :: l => allBut (x :: l)

/-- The invariant of sets of floating-point numbers. -/
def Valid : FloatingSet → Prop
  | allBut xs => xs ≠ [] ∧ xs.Pairwise fun x y => Text.before x.key y.key = true
  | _ => True

/-- Whether a number is a member. -/
def contains (s : FloatingSet) (x : Double) : Bool :=
  match s with
  | any => true
  | zeros => x.isZero
  | only y => y.same x
  | allBut ys => !ys.any (·.same x)

/-- Whether every member of the second set is a member of the first one. -/
def covers (s : FloatingSet) : FloatingSet → Bool
  | any => s == any
  | zeros => Double.zeros.all (s.contains ·)
  | only x => s.contains x
  | allBut ys =>
    match s with
    | any => true
    | allBut xs => listedIn Double.same xs ys
    | _ => false

@[simp] theorem covers_self (s : FloatingSet) : s.covers s = true := by
  cases s with
  | any => rfl
  | zeros => rfl
  | only x => exact Double.same_self x
  | allBut xs => exact listedIn_iff.2 fun x hx => ⟨x, hx, Double.same_self x⟩

/-- The join of two sets neither of which covers the other. -/
def joinApart : FloatingSet → FloatingSet → FloatingSet
  | allBut xs, t => excluding (xs.filter (!t.contains ·))
  | s, allBut ys => excluding (ys.filter (!s.contains ·))
  | only x, only y => if x.isZero && y.isZero then zeros else any
  | _, _ => any

/-- A set that contains the members of both sets. -/
def join (s t : FloatingSet) : FloatingSet :=
  if s.covers t then s else if t.covers s then t else joinApart s t

/-- The zeros among the members of a set. -/
def zerosOf? (s : FloatingSet) : Option FloatingSet :=
  match Double.zeros.filter (s.contains ·) with
  | [] => none
  | [x] => some (only x)
  | _ => some zeros

/-- The meet of two sets neither of which covers the other. -/
def meetApart? : FloatingSet → FloatingSet → Option FloatingSet
  | allBut xs, allBut ys => some (excluding (xs ++ ys))
  | zeros, t => zerosOf? t
  | s, zeros => zerosOf? s
  | _, _ => none

/-- The common members of two sets. -/
def meet? (s t : FloatingSet) : Option FloatingSet :=
  if s.covers t then some t else if t.covers s then some s else meetApart? s t

/-- The numbers that do not belong to the set, if they have a form. -/
def negate? : FloatingSet → Option FloatingSet
  | any => none
  | zeros => some (excluding Double.zeros)
  | only x => some (excluding [x])
  | allBut [x] => some (only x)
  | allBut [x, y] => if x.isZero && y.isZero then some zeros else none
  | allBut _ => none

/-! ## Texts -/

/-- The text that identifies a set of numbers of a width. -/
def key (width : FloatingWidth) : FloatingSet → String
  | any => width.name
  | zeros => width.name ++ "|zero"
  | only x => width.name ++ "|" ++ x.key
  | allBut xs => width.name ++ "|not|" ++ ",".intercalate (xs.map Double.key)

/-- The mark behind a number of the width. -/
def suffix : FloatingWidth → String
  | .float => "f"
  | .double => ""

/-- The readable text of a set of numbers of a width. -/
def text (width : FloatingWidth) : FloatingSet → String
  | any => width.name
  | zeros => width.name ++ " ±0.0"
  | only x => x.pointText ++ suffix width
  | allBut xs => width.name ++ " != " ++ ", ".intercalate (xs.map Double.pointText)

end FloatingSet

end ValueLattice
