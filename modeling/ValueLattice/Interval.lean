import ValueLattice.Text.Scalar

/-!
# Intervals of integers

An interval is closed and has at least one member. Operations whose result may be empty return an
`Option`.

* `mem_hull_of_touches`: the hull of two intervals that touch has the members of both and no more;
* `mem_intersect?`: the common part has exactly the common members.
-/

namespace ValueLattice

/-- A non-empty closed interval of integers. -/
structure Interval where
  /-- The least member. -/
  low : Int
  /-- The greatest member. -/
  high : Int
  /-- The bounds are in order. -/
  low_le_high : low ≤ high := by omega
deriving DecidableEq

namespace Interval

/-- Membership: the members lie between the bounds, bounds included. -/
instance : Membership Int Interval where
  mem i n := i.low ≤ n ∧ n ≤ i.high

theorem mem_iff {i : Interval} {n : Int} : n ∈ i ↔ i.low ≤ n ∧ n ≤ i.high := Iff.rfl

instance (n : Int) (i : Interval) : Decidable (n ∈ i) :=
  inferInstanceAs (Decidable (i.low ≤ n ∧ n ≤ i.high))

/-! ## Making intervals -/

/-- The interval between two bounds, or `none` when they are reversed. -/
def of? (low high : Int) : Option Interval :=
  if h : low ≤ high then some ⟨low, high, h⟩ else none

/-- The interval whose only member is `n`. -/
def point (n : Int) : Interval :=
  ⟨n, n, Int.le_refl n⟩

/-! ## Queries -/

/-- Whether the interval has a single member. -/
def isPoint (i : Interval) : Bool :=
  i.low == i.high

/-- Whether `n` is a member. -/
def contains (i : Interval) (n : Int) : Bool :=
  decide (n ∈ i)

/-- Whether every member of `j` is a member of `i`. -/
def includes (i j : Interval) : Bool :=
  decide (i.low ≤ j.low) && decide (j.high ≤ i.high)

/-- Whether two intervals overlap or are adjacent, so that together they are one interval. -/
def touches (i j : Interval) : Bool :=
  decide (i.low ≤ j.high + 1) && decide (j.low ≤ i.high + 1)

/-! ## Combining intervals -/

/-- The common part of two intervals, or `none` when they are disjoint. -/
def intersect? (i j : Interval) : Option Interval :=
  of? (max i.low j.low) (min i.high j.high)

/-- The least interval that includes both. -/
def hull (i j : Interval) : Interval :=
  ⟨min i.low j.low, max i.high j.high, by
    have := i.low_le_high
    omega⟩

/-- The text of an interval: its bounds with two points between them, or its only member. -/
def text (i : Interval) : String :=
  if i.isPoint then Text.integer i.low else Text.integer i.low ++ ".." ++ Text.integer i.high

/-! ## Members of each operation -/

theorem low_mem (i : Interval) : i.low ∈ i := ⟨Int.le_refl _, i.low_le_high⟩

theorem high_mem (i : Interval) : i.high ∈ i := ⟨i.low_le_high, Int.le_refl _⟩

@[simp] theorem contains_eq_true {i : Interval} {n : Int} : i.contains n = true ↔ n ∈ i := by
  simp [contains]

@[simp] theorem mem_point {m n : Int} : m ∈ point n ↔ m = n := by
  simp only [mem_iff, point]
  omega

theorem of?_eq_some_iff {low high : Int} {i : Interval} :
    of? low high = some i ↔ i.low = low ∧ i.high = high := by
  obtain ⟨l, u, h⟩ := i
  unfold of?
  split <;> simp <;> omega

theorem includes_iff {i j : Interval} : i.includes j = true ↔ ∀ n, n ∈ j → n ∈ i := by
  simp only [includes, Bool.and_eq_true, decide_eq_true_eq, mem_iff]
  constructor
  · intro h n hn
    omega
  · intro h
    exact ⟨(h j.low (low_mem j)).1, (h j.high (high_mem j)).2⟩

theorem mem_intersect? {i j k : Interval} (h : i.intersect? j = some k) {n : Int} :
    n ∈ k ↔ n ∈ i ∧ n ∈ j := by
  obtain ⟨hl, hh⟩ := of?_eq_some_iff.1 h
  simp only [mem_iff, hl, hh]
  omega

/-- Two intervals have no common part when one lies below the other. -/
theorem intersect?_eq_none_iff_lt {i j : Interval} :
    i.intersect? j = none ↔ i.high < j.low ∨ j.high < i.low := by
  have hi := i.low_le_high
  have hj := j.low_le_high
  simp only [intersect?, of?]
  split <;> simp <;> omega

theorem intersect?_eq_none_iff {i j : Interval} :
    i.intersect? j = none ↔ ∀ n, n ∈ i → n ∉ j := by
  have hi := i.low_le_high
  have hj := j.low_le_high
  simp only [intersect?_eq_none_iff_lt, mem_iff]
  constructor
  · intro h n hn
    omega
  · intro h
    have hn := h (max i.low j.low)
    omega

theorem mem_hull_of_touches {i j : Interval} (h : i.touches j = true) {n : Int} :
    n ∈ i.hull j ↔ n ∈ i ∨ n ∈ j := by
  have hi := i.low_le_high
  have hj := j.low_le_high
  simp only [touches, Bool.and_eq_true, decide_eq_true_eq] at h
  simp only [mem_iff, hull]
  omega

end Interval

end ValueLattice
