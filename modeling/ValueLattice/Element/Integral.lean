import ValueLattice.RangeSet.Domain

/-!
# Sets of `int` or `long` values

An integral set is a non-empty range set inside the domain of its width. It may record a *wide*
range: what the range was before conditions narrowed it, so that widening can return to it. The wide
range takes no part in the order.

* `normal?` makes an integral set from any range and any wide range; an empty range gives `none`;
* `narrow?` intersects the range and keeps the wide range, `toWide` returns to it;
* `Valid` is the invariant: the range is canonical, not empty and inside the domain, and a recorded
  wide range is a canonical proper superset of it inside the domain.
-/

namespace ValueLattice

/-- A set of integers of one width. -/
structure IntegralSet where
  /-- The width of the integers. -/
  width : IntegralWidth
  /-- The members. -/
  range : RangeSet
  /-- The members before narrowing, if there were more. -/
  wide : Option RangeSet := none
deriving DecidableEq

namespace IntegralSet

/-! ## Making sets -/

/-- The wide range to record beside a range: cut to the domain of the width, extended to contain the
range, and nothing if that leaves no more than the range. -/
def recordedWide (width : IntegralWidth) (range : RangeSet) (wide : RangeSet) : Option RangeSet :=
  let inside := wide.intersect width.domain
  let extended := if inside.containsAll range then inside else inside.union range
  if extended.isEmpty || extended == range then none else some extended

/-- The integral set with a range that lies inside the domain of its width, or `none` if the range
is empty. -/
def normal? (width : IntegralWidth) (range : RangeSet) (wide : Option RangeSet) :
    Option IntegralSet :=
  if range.isEmpty then none
  else some ⟨width, range, wide.bind (recordedWide width range)⟩

/-- All integers of a width. -/
def all (width : IntegralWidth) : IntegralSet := ⟨width, width.domain, none⟩

/-- A single integer. -/
def point (width : IntegralWidth) (n : Int) : IntegralSet := ⟨width, .point n, none⟩

/-! ## Queries -/

/-- The recorded wide range, or the range itself. -/
def effectiveWide (s : IntegralSet) : RangeSet :=
  s.wide.getD s.range

/-- Whether both sets have one width and every member of `t` is a member of `s`. -/
def covers (s t : IntegralSet) : Bool :=
  s.width == t.width && s.range.containsAll t.range

@[simp] theorem covers_self (s : IntegralSet) : s.covers s = true := by
  simp [covers]

/-- The invariant of integral sets. -/
structure Valid (s : IntegralSet) : Prop where
  /-- The set has members. -/
  range_ne_empty : s.range.intervals ≠ []
  /-- The range is canonical. -/
  range_canonical : s.range.Canonical
  /-- The range lies inside the domain of the width. -/
  range_in_domain : ∀ n ∈ s.range, n ∈ s.width.domain
  /-- A wide range is canonical. -/
  wide_canonical : ∀ w ∈ s.wide, w.Canonical
  /-- A wide range lies inside the domain of the width. -/
  wide_in_domain : ∀ w ∈ s.wide, ∀ n ∈ w, n ∈ s.width.domain
  /-- A wide range contains the range. -/
  range_in_wide : ∀ w ∈ s.wide, ∀ n ∈ s.range, n ∈ w
  /-- A wide range has more members than the range. -/
  wide_proper : ∀ w ∈ s.wide, ∃ n ∈ w, n ∉ s.range

/-! ## Operations within one width -/

/-- The wide range of a combination: nothing if neither set records one. -/
def combinedWide (op : RangeSet → RangeSet → RangeSet) (s t : IntegralSet) : Option RangeSet :=
  if s.wide.isNone && t.wide.isNone then none else some (op s.effectiveWide t.effectiveWide)

/-- Combines the ranges and the wide ranges of two sets of one width. -/
def combine? (op : RangeSet → RangeSet → RangeSet) (s t : IntegralSet) : Option IntegralSet :=
  normal? s.width (op s.range t.range) (combinedWide op s t)

/-- The members of either set. -/
def join? (s t : IntegralSet) : Option IntegralSet := combine? RangeSet.union s t

/-- The common members of two sets. -/
def meet? (s t : IntegralSet) : Option IntegralSet := combine? RangeSet.intersect s t

/-- The integers of the width that do not belong to the set. -/
def negate? (s : IntegralSet) : Option IntegralSet :=
  normal? s.width (s.width.domain.subtract s.range) none

/-- The members that belong to a range; the wide range stays what it was. -/
def narrow? (s : IntegralSet) (r : RangeSet) : Option IntegralSet :=
  normal? s.width (s.range.intersect r) (some s.effectiveWide)

/-- The set of the members of the recorded wide range. -/
def toWide? (s : IntegralSet) : Option IntegralSet :=
  match s.wide with
  | none => some s
  | some wide => normal? s.width wide none

/-! ## Texts -/

/-- The text that identifies the set; the wide range takes no part in it. -/
def key (s : IntegralSet) : String :=
  s.width.name ++ "|" ++ s.range.text

/-- The mark behind an integer of the width. -/
def suffix : IntegralWidth → String
  | .int => ""
  | .long => "L"

/-- The readable text of the set. -/
def text (s : IntegralSet) : String :=
  match s.range.constant? with
  | some n => Text.integer n ++ suffix s.width
  | none =>
    if s.range = s.width.domain then s.width.name else s.width.name ++ " " ++ s.range.text

end IntegralSet

end ValueLattice
