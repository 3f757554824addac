import Mathlib.Data.Set.Card
import ValueLattice.Proofs.RangeSets

/-!
# Unions of range sets

Neither the shortcuts of a union nor the order of its operands show in the result: the number of
maximal runs of consecutive integers alone decides whether a union is exact.

* `Canonical.runs_eq`, `Canonical.encard_runs`: a canonical set has one interval for each run;
* `union_eq_ite`: an operand that contains the other one is their exact union, so a union is the
  exact one or its hull, whichever way it is computed;
* `Canonical.hull_bounds`: the hull reaches from the least to the greatest member;
* `size_exactUnion_le`, `mem_union_of_size_le`: unions of sets with few intervals are exact;
* `union_laws`: which members a union has, how many intervals, and what it is of comparable sets.
-/

namespace ValueLattice.RangeSet

/-! ## Maximal runs -/

/-- The maximal runs of consecutive integers with a property. -/
def runs (p : Int → Prop) : Set Interval :=
  {i | (∀ n ∈ i, p n) ∧ ¬ p (i.low - 1) ∧ ¬ p (i.high + 1)}

theorem Canonical.nodup {s : RangeSet} (h : s.Canonical) : s.intervals.Nodup := by
  refine List.Pairwise.imp ?_ h
  rintro i j hij rfl
  have := i.low_le_high
  simp only [Apart] at hij
  omega

/-- The runs of the members of a canonical set are its intervals. -/
theorem Canonical.runs_eq {s : RangeSet} (h : s.Canonical) :
    runs (· ∈ s) = {i | i ∈ s.intervals} :=
  Set.ext fun _ => h.mem_intervals_iff.symm

theorem Canonical.encard_runs {s : RangeSet} (h : s.Canonical) :
    (runs (· ∈ s)).encard = s.size := by
  rw [h.runs_eq, ← List.coe_toFinset, Set.encard_coe_eq_coe_finsetCard,
    List.toFinset_card_of_nodup h.nodup, size]

/-- The exact union of two sets has one interval for each run of their members. -/
theorem encard_runs_or (s t : RangeSet) :
    (runs fun n => n ∈ s ∨ n ∈ t).encard = (exactUnion s t).size := by
  rw [← (canonical_exactUnion s t).encard_runs]
  simp only [mem_exactUnion]

/-! ## The two ways of a union -/

theorem exactUnion_eq_left {s t : RangeSet} (hs : s.Canonical) (h : ∀ n ∈ t, n ∈ s) :
    exactUnion s t = s :=
  (canonical_exactUnion s t).ext hs fun n => by
    rw [mem_exactUnion, or_iff_left_of_imp (h n)]

theorem union_eq_left {s t : RangeSet} (hs : s.Canonical) (h : ∀ n ∈ t, n ∈ s) : s.union t = s :=
  if_pos ((containsAll_iff hs).2 h)

theorem union_eq_right {s t : RangeSet} (hs : s.Canonical) (ht : t.Canonical)
    (h : ∀ n ∈ s, n ∈ t) : s.union t = t := by
  rw [union_comm hs ht, union_eq_left ht h]

/-- The most intervals that a union may have. -/
def unionLimit (s t : RangeSet) : Nat := max maxIntervals (max s.size t.size)

/-- An operand that contains the other one is their exact union, and has no more intervals than the
limit. So the shortcuts of a union lead to what it would be without them. -/
theorem union_eq_ite {s t : RangeSet} (hs : s.Canonical) (ht : t.Canonical) :
    s.union t =
      if (exactUnion s t).size ≤ unionLimit s t then exactUnion s t else (exactUnion s t).hull := by
  by_cases hst : s.containsAll t = true
  · have hcontains := (containsAll_iff hs).1 hst
    have hsize : s.size ≤ unionLimit s t := by
      unfold unionLimit
      omega
    rw [union_eq_left hs hcontains, exactUnion_eq_left hs hcontains, if_pos hsize]
  by_cases hts : t.containsAll s = true
  · have hcontains := (containsAll_iff ht).1 hts
    have hsize : t.size ≤ unionLimit s t := by
      unfold unionLimit
      omega
    rw [union_eq_right hs ht hcontains, exactUnion_comm, exactUnion_eq_left ht hcontains,
      if_pos hsize]
  · rw [union, if_neg hst, if_neg hts, unionLimit]

/-- The hull of a canonical set with members is the interval from the least to the greatest of
them. -/
theorem Canonical.hull_bounds {s : RangeSet} (h : s.Canonical) (hne : s.intervals ≠ []) :
    ∃ i, s.hull.intervals = [i] ∧ s.min? = some i.low ∧ s.max? = some i.high := by
  have hfirst := List.head?_eq_some_head hne
  have hlast := List.getLast?_eq_some_getLast hne
  generalize s.intervals.head hne = first at hfirst
  generalize s.intervals.getLast hne = last at hlast
  have hlow : first.low ≤ last.low := h.head_low_le hfirst (List.mem_of_getLast? hlast)
  have hhigh : first.high ≤ last.high := h.high_le_getLast hlast (List.mem_of_mem_head? hfirst)
  refine ⟨first.hull last, ?_, ?_, ?_⟩
  · rw [hull, hfirst, hlast]
  · rw [min?, hfirst]
    simp only [Interval.hull, Option.map_some, Int.min_eq_left hlow]
  · rw [max?, hlast]
    simp only [Interval.hull, Option.map_some, Int.max_eq_right hhigh]

/-! ## Unions of few intervals -/

theorem length_insert_le (i : Interval) (l : List Interval) :
    (insert i l).length ≤ l.length + 1 := by
  induction l generalizing i with
  | nil => exact Nat.le_refl 1
  | cons j l ih =>
    unfold insert
    split
    · exact Nat.le_refl _
    split
    · exact Nat.succ_le_succ (ih i)
    · exact Nat.le_succ_of_le (ih (i.hull j))

theorem size_ofIntervals_le (l : List Interval) : (ofIntervals l).size ≤ l.length := by
  show (l.foldr insert []).length ≤ l.length
  induction l with
  | nil => exact Nat.le_refl 0
  | cons i l ih => exact (length_insert_le i _).trans (Nat.succ_le_succ ih)

theorem size_exactUnion_le (s t : RangeSet) : (exactUnion s t).size ≤ s.size + t.size := by
  have hle := size_ofIntervals_le (s.intervals ++ t.intervals)
  rwa [List.length_append] at hle

/-- Two sets that together have few intervals have an exact union. -/
theorem mem_union_of_size_le {s t : RangeSet} (hs : s.Canonical) (ht : t.Canonical)
    (h : s.size + t.size ≤ maxIntervals) {n : Int} : n ∈ s.union t ↔ n ∈ s ∨ n ∈ t := by
  have hle : (exactUnion s t).size ≤ unionLimit s t :=
    (size_exactUnion_le s t).trans (h.trans (Nat.le_max_left _ _))
  rw [union_eq_ite hs ht, if_pos hle, mem_exactUnion]

/-! ## The laws of unions -/

/-- Neither an exact union nor a hull has more intervals than the limit. -/
theorem size_union_le {s t : RangeSet} (hs : s.Canonical) (ht : t.Canonical) :
    (s.union t).size ≤ unionLimit s t := by
  rw [union_eq_ite hs ht]
  split
  · assumption
  · next hmany =>
    have hne : (exactUnion s t).intervals ≠ [] := by
      intro hnil
      rw [size, hnil] at hmany
      exact hmany (Nat.zero_le _)
    obtain ⟨i, hi, _⟩ := (canonical_exactUnion s t).hull_bounds hne
    rw [size, hi]
    exact (by decide : 1 ≤ maxIntervals).trans (Nat.le_max_left _ _)

/-- A union is exact as long as its members form at most 16 runs, or no more than one of the
operands has intervals; otherwise it is the interval from their least to their greatest member. It
contains both operands, has no more intervals than that limit, is the operand that contains the
other one, and does not depend on the order of the operands. -/
theorem union_laws {s t : RangeSet} (hs : s.Built) (ht : t.Built) :
    ((runs fun n => n ∈ s ∨ n ∈ t).encard ≤ (max 16 (max s.size t.size) : ℕ) →
        ∀ n, (s.union t).contains n = (s.contains n || t.contains n)) ∧
      ((max 16 (max s.size t.size) : ℕ) < (runs fun n => n ∈ s ∨ n ∈ t).encard →
        ∃ i, (s.union t).intervals = [i] ∧ IsLeast {n | n ∈ s ∨ n ∈ t} i.low ∧
          IsGreatest {n | n ∈ s ∨ n ∈ t} i.high) ∧
      (∀ n, n ∈ s ∨ n ∈ t → n ∈ s.union t) ∧
      (s.union t).size ≤ max 16 (max s.size t.size) ∧
      ((∀ n ∈ t, n ∈ s) → s.union t = s) ∧ ((∀ n ∈ s, n ∈ t) → s.union t = t) ∧
      s.union t = t.union s := by
  have hsc := hs.canonical
  have htc := ht.canonical
  have hcanonical := canonical_exactUnion s t
  refine ⟨?exact, ?hull, fun n => mem_union_of_mem, size_union_le hsc htc, union_eq_left hsc,
    union_eq_right hsc htc, union_comm hsc htc⟩
  case exact =>
    intro hruns n
    have hfew : (exactUnion s t).size ≤ unionLimit s t := by
      rwa [encard_runs_or, Nat.cast_le] at hruns
    rw [union_eq_ite hsc htc, if_pos hfew, Bool.eq_iff_iff, Bool.or_eq_true]
    simp only [contains_eq_true, mem_exactUnion]
  case hull =>
    intro hruns
    have hmany : unionLimit s t < (exactUnion s t).size := by
      rwa [encard_runs_or, Nat.cast_lt] at hruns
    have hne : (exactUnion s t).intervals ≠ [] :=
      List.ne_nil_of_length_pos ((Nat.zero_le _).trans_lt hmany)
    obtain ⟨i, hi, hmin, hmax⟩ := hcanonical.hull_bounds hne
    obtain ⟨hlow, hleast⟩ := hcanonical.min?_eq_some_iff.1 hmin
    obtain ⟨hhigh, hgreatest⟩ := hcanonical.max?_eq_some_iff.1 hmax
    rw [union_eq_ite hsc htc, if_neg (Nat.not_le_of_lt hmany)]
    exact ⟨i, hi, ⟨mem_exactUnion.1 hlow, fun n hn => hleast n (mem_exactUnion.2 hn)⟩,
      mem_exactUnion.1 hhigh, fun n hn => hgreatest n (mem_exactUnion.2 hn)⟩

/-- Every fourth integer from a first one on. -/
def fourths (first : Int) (count : Nat) : RangeSet :=
  ofIntervals ((List.range count).map fun k => .point (first + 4 * k))

theorem union_laws_fourths :
    (fourths 0 9).Built ∧ (fourths 2 8).Built ∧
      (runs fun n => n ∈ fourths 0 9 ∨ n ∈ fourths 2 8).encard = 17 ∧
      (∃ i, ((fourths 0 9).union (fourths 2 8)).intervals = [i] ∧
        IsLeast {n | n ∈ fourths 0 9 ∨ n ∈ fourths 2 8} i.low ∧
        IsGreatest {n | n ∈ fourths 0 9 ∨ n ∈ fourths 2 8} i.high) ∧
      (runs fun n => n ∈ fourths 0 9 ∨ n ∈ fourths 2 7).encard = 16 ∧
      ((fourths 0 9).union (fourths 2 7)).contains 1 = false := by
  have hs : (fourths 0 9).Built := .ofIntervals _
  have ht {count : Nat} : (fourths 2 count).Built := .ofIntervals _
  have hmany : (runs fun n => n ∈ fourths 0 9 ∨ n ∈ fourths 2 8).encard = 17 :=
    (encard_runs_or _ _).trans (congrArg Nat.cast (by decide))
  have hfew : (runs fun n => n ∈ fourths 0 9 ∨ n ∈ fourths 2 7).encard = 16 :=
    (encard_runs_or _ _).trans (congrArg Nat.cast (by decide))
  refine ⟨hs, ht, hmany, (union_laws hs ht).2.1 ?_, hfew, (union_laws hs ht).1 ?_ 1⟩
  · rw [hmany]
    decide
  · rw [hfew]
    decide

end ValueLattice.RangeSet
