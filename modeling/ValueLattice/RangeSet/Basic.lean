import ValueLattice.Interval

/-!
# Sets of integers as ranges

A range set lists closed intervals. Every operation keeps the list *canonical*: ascending, with at
least one missing integer between neighbours, so that a set of integers has one canonical list.

* `insert` adds an interval to a canonical list, absorbing the intervals it touches;
* `mem_ofIntervals`: a set built from intervals in any order has exactly their members;
* `canonical_ofIntervals`: and it is canonical.
-/

namespace ValueLattice

/-- A set of integers, listed as closed intervals. -/
structure RangeSet where
  /-- The intervals of the set. -/
  intervals : List Interval
deriving DecidableEq

namespace RangeSet

/-- Membership: an integer belongs to the set when it belongs to one of the intervals. -/
instance : Membership Int RangeSet where
  mem s n := ∃ i ∈ s.intervals, n ∈ i

theorem mem_iff {s : RangeSet} {n : Int} : n ∈ s ↔ ∃ i ∈ s.intervals, n ∈ i := Iff.rfl

/-- An interval lies apart below another one when an integer is missing between them. -/
def Apart (i j : Interval) : Prop := i.high + 1 < j.low

instance (i j : Interval) : Decidable (Apart i j) :=
  inferInstanceAs (Decidable (i.high + 1 < j.low))

/-- A range set is canonical when its intervals ascend and no two of them touch. -/
def Canonical (s : RangeSet) : Prop := s.intervals.Pairwise Apart

instance (s : RangeSet) : Decidable s.Canonical :=
  inferInstanceAs (Decidable (s.intervals.Pairwise Apart))

/-! ## Making sets -/

/-- The set without members. -/
def empty : RangeSet := ⟨[]⟩

/-- The set whose only member is `n`. -/
def point (n : Int) : RangeSet := ⟨[Interval.point n]⟩

/-- The integers between two bounds, none when the bounds are reversed. -/
def range (low high : Int) : RangeSet := ⟨(Interval.of? low high).toList⟩

/-- Adds an interval to ascending intervals; those it touches become one interval with it. -/
def insert (i : Interval) : List Interval → List Interval
  | [] => [i]
  | j :: l =>
    if i.high + 1 < j.low then i :: j :: l
    else if j.high + 1 < i.low then j :: insert i l
    else insert (i.hull j) l

/-- The set of the members of any intervals, in any order. -/
def ofIntervals (l : List Interval) : RangeSet := ⟨l.foldr insert []⟩

/-! ## Queries -/

/-- Whether the set has no members. -/
def isEmpty (s : RangeSet) : Bool := s.intervals.isEmpty

/-- The least member. -/
def min? (s : RangeSet) : Option Int := s.intervals.head?.map (·.low)

/-- The greatest member. -/
def max? (s : RangeSet) : Option Int := s.intervals.getLast?.map (·.high)

/-- The only member, if there is exactly one. -/
def constant? (s : RangeSet) : Option Int :=
  match s.intervals with
  | [i] => if i.isPoint then some i.low else none
  | _ => none

/-- Whether `n` is a member. -/
def contains (s : RangeSet) (n : Int) : Bool := s.intervals.any (·.contains n)

/-- Whether every interval of `t` lies in one interval of `s`. -/
def containsAll (s t : RangeSet) : Bool :=
  t.intervals.all fun j => s.intervals.any (·.includes j)

/-- The number of intervals. -/
def size (s : RangeSet) : Nat := s.intervals.length

/-- The text of a set: its intervals between braces, with commas between them. -/
def text (s : RangeSet) : String :=
  "\x7b" ++ ", ".intercalate (s.intervals.map (·.text)) ++ "\x7d"

/-! ## Members of the sets above -/

@[simp] theorem contains_eq_true {s : RangeSet} {n : Int} : s.contains n = true ↔ n ∈ s := by
  simp [contains, mem_iff]

instance (n : Int) (s : RangeSet) : Decidable (n ∈ s) :=
  decidable_of_iff (s.contains n = true) contains_eq_true

@[simp] theorem containsAll_self (s : RangeSet) : s.containsAll s = true := by
  simp only [containsAll, List.all_eq_true, List.any_eq_true]
  exact fun i hi => ⟨i, hi, Interval.includes_iff.2 fun _ hn => hn⟩

@[simp] theorem not_mem_empty (n : Int) : n ∉ empty := by
  simp [mem_iff, empty]

@[simp] theorem mem_singleton_point {m n : Int} : m ∈ point n ↔ m = n := by
  simp [mem_iff, point]

@[simp] theorem mem_range {low high n : Int} : n ∈ range low high ↔ low ≤ n ∧ n ≤ high := by
  unfold range Interval.of?
  split <;> simp [mem_iff, Interval.mem_iff]
  omega

/-- Inserting adds exactly the members of the inserted interval. -/
theorem mem_insert {i : Interval} {l : List Interval} {n : Int} :
    (∃ j ∈ insert i l, n ∈ j) ↔ n ∈ i ∨ ∃ j ∈ l, n ∈ j := by
  induction l generalizing i with
  | nil => simp [insert]
  | cons j l ih =>
    have hi := i.low_le_high
    have hj := j.low_le_high
    unfold insert
    split
    · simp
    · split
      · simp only [List.mem_cons, exists_eq_or_imp, ih]
        exact ⟨fun h => h.elim (fun h => .inr (.inl h)) (fun h => h.imp_right .inr),
          fun h => h.elim (fun h => .inr (.inl h)) (fun h => h.imp_right .inr)⟩
      · have htouch : i.touches j = true := by
          simp only [Interval.touches, Bool.and_eq_true, decide_eq_true_eq]
          omega
        rw [ih, Interval.mem_hull_of_touches htouch]
        simp only [List.mem_cons, exists_eq_or_imp, or_assoc]

/-- The members of a set built from intervals are the members of the intervals. -/
@[simp] theorem mem_ofIntervals {l : List Interval} {n : Int} :
    n ∈ ofIntervals l ↔ ∃ i ∈ l, n ∈ i := by
  have h : (∃ i ∈ l.foldr insert [], n ∈ i) ↔ ∃ i ∈ l, n ∈ i := by
    induction l with
    | nil => simp
    | cons i l ih => simp only [List.foldr_cons, mem_insert, ih, List.mem_cons, exists_eq_or_imp]
  exact h

/-! ## Canonical form -/

theorem Apart.trans {i j k : Interval} (hij : Apart i j) (hjk : Apart j k) : Apart i k := by
  have := j.low_le_high
  simp only [Apart] at *
  omega

/-- Whatever lies apart below the inserted interval and below the list lies apart below the
result. -/
theorem apart_insert {i k : Interval} {l : List Interval} (hi : Apart k i)
    (hl : ∀ j ∈ l, Apart k j) : ∀ j ∈ insert i l, Apart k j := by
  induction l generalizing i with
  | nil => simpa [insert] using hi
  | cons j l ih =>
    have hj := hl j (by simp)
    have hrest : ∀ m ∈ l, Apart k m := fun m hm => hl m (by simp [hm])
    unfold insert
    split
    · intro m hm
      simp only [List.mem_cons] at hm
      rcases hm with rfl | rfl | hm
      · exact hi
      · exact hj
      · exact hrest m hm
    · split
      · intro m hm
        simp only [List.mem_cons] at hm
        rcases hm with rfl | hm
        · exact hj
        · exact ih hi hrest m hm
      · refine ih ?_ hrest
        simp only [Apart, Interval.hull] at *
        omega

/-- Inserting keeps the canonical form. -/
theorem pairwise_insert {i : Interval} {l : List Interval} (h : l.Pairwise Apart) :
    (insert i l).Pairwise Apart := by
  induction l generalizing i with
  | nil => simp [insert]
  | cons j l ih =>
    rw [List.pairwise_cons] at h
    unfold insert
    split
    · rename_i hij
      have hbelow : Apart i j := hij
      refine List.pairwise_cons.2 ⟨?_, List.pairwise_cons.2 h⟩
      intro m hm
      simp only [List.mem_cons] at hm
      rcases hm with rfl | hm
      · exact hbelow
      · exact hbelow.trans (h.1 m hm)
    · split
      · rename_i hji
        exact List.pairwise_cons.2 ⟨apart_insert hji h.1, ih h.2⟩
      · exact ih h.2

/-- A set built from intervals is canonical. -/
theorem canonical_ofIntervals (l : List Interval) : (ofIntervals l).Canonical := by
  have h : (l.foldr insert []).Pairwise Apart := by
    induction l with
    | nil => exact .nil
    | cons i l ih => exact pairwise_insert ih
  exact h

end RangeSet

end ValueLattice
