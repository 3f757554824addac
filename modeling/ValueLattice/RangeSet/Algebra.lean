import ValueLattice.RangeSet.Basic

/-!
# Algebra of range sets

Intersection and difference are exact. The union is exact as long as it needs few intervals; one
that would need more than `maxIntervals` intervals, and more than either operand has, is replaced by
its hull.

* `mem_intersect`, `mem_subtract`: the members of an intersection and of a difference;
* `canonical_union`, `canonical_intersect`, `canonical_subtract`: results are canonical.
-/

namespace ValueLattice.RangeSet

/-! ## Union -/

/-- A union with more intervals than this is replaced by its hull. -/
def maxIntervals : Nat := 16

/-- The union without any loss. -/
def exactUnion (s t : RangeSet) : RangeSet :=
  ofIntervals (s.intervals ++ t.intervals)

/-- The least interval that includes every interval of an ascending list. -/
def hull (s : RangeSet) : RangeSet :=
  match s.intervals.head?, s.intervals.getLast? with
  | some i, some j => ⟨[i.hull j]⟩
  | _, _ => s

/-- The union of two sets: an operand that contains the other one as it is, the exact union if it
has at most `maxIntervals` intervals or no more than one of the operands, its hull otherwise. -/
def union (s t : RangeSet) : RangeSet :=
  if s.containsAll t then s
  else if t.containsAll s then t
  else if (exactUnion s t).size ≤ max maxIntervals (max s.size t.size) then exactUnion s t
  else (exactUnion s t).hull

/-! ## Intersection and difference -/

/-- The common members of two sets. -/
def intersect (s t : RangeSet) : RangeSet :=
  ofIntervals (s.intervals.flatMap fun i => t.intervals.filterMap i.intersect?)

/-- Whether two sets have a common member. -/
def intersects (s t : RangeSet) : Bool :=
  !(s.intersect t).isEmpty

/-- What remains of an interval when another one is cut out of it. -/
def cut (i j : Interval) : List Interval :=
  if (i.intersect? j).isNone then [i]
  else (Interval.of? i.low (j.low - 1)).toList ++ (Interval.of? (j.high + 1) i.high).toList

/-- The members of the first set that do not belong to the second one. -/
def subtract (s t : RangeSet) : RangeSet :=
  ofIntervals (t.intervals.foldl (fun pieces j => pieces.flatMap (cut · j)) s.intervals)

/-- The set without one integer. -/
def without (s : RangeSet) (n : Int) : RangeSet :=
  s.subtract (point n)

/-! ## Members -/

@[simp] theorem mem_exactUnion {s t : RangeSet} {n : Int} :
    n ∈ exactUnion s t ↔ n ∈ s ∨ n ∈ t := by
  rw [exactUnion, mem_ofIntervals]
  simp only [List.mem_append, mem_iff, or_and_right, exists_or]

@[simp] theorem mem_intersect {s t : RangeSet} {n : Int} :
    n ∈ s.intersect t ↔ n ∈ s ∧ n ∈ t := by
  simp only [intersect, mem_ofIntervals, List.mem_flatMap, List.mem_filterMap]
  constructor
  · rintro ⟨k, ⟨i, hi, j, hj, hk⟩, hn⟩
    have h := (Interval.mem_intersect? hk).1 hn
    exact ⟨⟨i, hi, h.1⟩, ⟨j, hj, h.2⟩⟩
  · rintro ⟨⟨i, hi, hni⟩, ⟨j, hj, hnj⟩⟩
    cases hk : i.intersect? j with
    | none => exact absurd hnj (Interval.intersect?_eq_none_iff.1 hk n hni)
    | some k => exact ⟨k, ⟨i, hi, j, hj, hk⟩, (Interval.mem_intersect? hk).2 ⟨hni, hnj⟩⟩

/-- Cutting an interval leaves exactly the members outside it. -/
theorem mem_cut {i j : Interval} {n : Int} : (∃ k ∈ cut i j, n ∈ k) ↔ n ∈ i ∧ n ∉ j := by
  have hi := i.low_le_high
  have hj := j.low_le_high
  unfold cut
  split
  · rename_i h
    have hdisjoint := Interval.intersect?_eq_none_iff.1 (Option.isNone_iff_eq_none.1 h)
    simp only [List.mem_singleton, exists_eq_left]
    exact ⟨fun hn => ⟨hn, hdisjoint n hn⟩, fun hn => hn.1⟩
  · rename_i h
    rw [Option.isNone_iff_eq_none, Interval.intersect?_eq_none_iff_lt] at h
    simp only [List.mem_append, Option.mem_toList, or_and_right, exists_or, Interval.mem_iff,
      Interval.of?_eq_some_iff]
    constructor
    · rintro (⟨k, ⟨hl, hh⟩, hn⟩ | ⟨k, ⟨hl, hh⟩, hn⟩) <;> omega
    · intro hn
      by_cases hlow : n < j.low
      · exact .inl ⟨⟨i.low, j.low - 1, by omega⟩, ⟨rfl, rfl⟩, by simp only; omega⟩
      · exact .inr ⟨⟨j.high + 1, i.high, by omega⟩, ⟨rfl, rfl⟩, by simp only; omega⟩

/-- Cutting out several intervals leaves exactly the members outside all of them. -/
theorem mem_foldl_cut {cuts pieces : List Interval} {n : Int} :
    (∃ k ∈ cuts.foldl (fun pieces j => pieces.flatMap (cut · j)) pieces, n ∈ k) ↔
      (∃ k ∈ pieces, n ∈ k) ∧ ∀ j ∈ cuts, n ∉ j := by
  induction cuts generalizing pieces with
  | nil => simp
  | cons j cuts ih =>
    rw [List.foldl_cons, ih]
    have hstep : (∃ k ∈ pieces.flatMap (cut · j), n ∈ k) ↔ (∃ k ∈ pieces, n ∈ k) ∧ n ∉ j := by
      simp only [List.mem_flatMap]
      constructor
      · rintro ⟨k, ⟨i, hi, hk⟩, hn⟩
        have h := mem_cut.1 ⟨k, hk, hn⟩
        exact ⟨⟨i, hi, h.1⟩, h.2⟩
      · rintro ⟨⟨i, hi, hn⟩, hj⟩
        obtain ⟨k, hk, hnk⟩ := mem_cut.2 ⟨hn, hj⟩
        exact ⟨k, ⟨i, hi, hk⟩, hnk⟩
    rw [hstep, List.forall_mem_cons, and_assoc]

@[simp] theorem mem_subtract {s t : RangeSet} {n : Int} :
    n ∈ s.subtract t ↔ n ∈ s ∧ n ∉ t := by
  rw [subtract, mem_ofIntervals, mem_foldl_cut]
  simp only [mem_iff, not_exists, not_and]

@[simp] theorem mem_without {s : RangeSet} {m n : Int} :
    n ∈ s.without m ↔ n ∈ s ∧ n ≠ m := by
  simp [without]

/-! ## Canonical form -/

theorem canonical_empty : empty.Canonical := .nil

theorem canonical_point (n : Int) : (point n).Canonical := List.pairwise_singleton _ _

theorem canonical_range (low high : Int) : (range low high).Canonical := by
  unfold range Interval.of?
  split
  · exact List.pairwise_singleton _ _
  · exact .nil

theorem canonical_hull {s : RangeSet} (h : s.Canonical) : s.hull.Canonical := by
  unfold hull
  split
  · exact List.pairwise_singleton _ _
  · exact h

theorem canonical_union {s t : RangeSet} (hs : s.Canonical) (ht : t.Canonical) :
    (s.union t).Canonical := by
  unfold union
  split
  · exact hs
  · split
    · exact ht
    · split
      · exact canonical_ofIntervals _
      · exact canonical_hull (canonical_ofIntervals _)

theorem canonical_intersect (s t : RangeSet) : (s.intersect t).Canonical :=
  canonical_ofIntervals _

theorem canonical_subtract (s t : RangeSet) : (s.subtract t).Canonical :=
  canonical_ofIntervals _

theorem canonical_without (s : RangeSet) (n : Int) : (s.without n).Canonical :=
  canonical_subtract s _

end ValueLattice.RangeSet
