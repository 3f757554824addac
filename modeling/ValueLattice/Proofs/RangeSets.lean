import Mathlib.Data.List.Sort
import ValueLattice.Proofs.Texts
import ValueLattice.RangeSet.Domain

/-!
# Canonical range sets

The intervals of a canonical range set are its maximal runs of consecutive members
(`mem_intervals_iff`), so the members determine the set:

* `Canonical.ext`: canonical sets with the same members are equal;
* `containsAll_iff`: comparing interval by interval decides inclusion;
* `Canonical.min?_eq_some_iff`, `Canonical.max?_eq_some_iff`, `Canonical.constant?_eq_some_iff`: the
  outer bounds are the least and the greatest member, a constant is the only one;
* `mem_union_of_mem`, `union_comm`: a union contains both operands, whichever comes first;
* `between_of_mem_union`: and nothing beyond them;
* `text_inj`: the text determines the set;
* `Built.canonical`: whatever the operations make is canonical.
-/

namespace ValueLattice

/-! ## Texts of intervals -/

namespace Interval

theorem ext {i j : Interval} (hlow : i.low = j.low) (hhigh : i.high = j.high) : i = j := by
  cases i
  cases j
  simp_all

theorem mem_text {i : Interval} {c : Char} (h : c ∈ i.text.toList) :
    c = '.' ∨ c = '-' ∨ c.isDigit = true := by
  unfold text at h
  split at h
  · exact .inr (Text.mem_integer h)
  · simp only [String.toList_append, List.mem_append] at h
    rcases h with (h | h) | h
    · exact .inr (Text.mem_integer h)
    · exact .inl (by simpa using h)
    · exact .inr (Text.mem_integer h)

theorem point_notMem_integer (n : Int) : '.' ∉ (Text.integer n).toList := by
  intro h
  rcases Text.mem_integer h with h | h <;> exact absurd h (by decide)

theorem text_inj {i j : Interval} (h : i.text = j.text) : i = j := by
  have hlist := congrArg String.toList h
  unfold text at hlist
  by_cases hi : i.isPoint = true <;> by_cases hj : j.isPoint = true <;>
    simp only [hi, hj, if_true, if_false, String.toList_append, Bool.false_eq_true] at hlist
  · have hlow := Text.integer_inj (String.toList_inj.1 hlist)
    simp only [isPoint, beq_iff_eq] at hi hj
    exact ext hlow (by omega)
  · -- Only one of the two texts has points.
    exact absurd (by rw [hlist]; simp) (point_notMem_integer i.low)
  · exact absurd (by rw [← hlist]; simp) (point_notMem_integer j.low)
  · have hpoints : "..".toList = ['.', '.'] := rfl
    rw [hpoints, List.append_assoc, List.append_assoc, List.cons_append, List.cons_append] at hlist
    obtain ⟨hlow, hrest⟩ := Text.append_cons_inj (point_notMem_integer i.low)
      (point_notMem_integer j.low) hlist
    exact ext (Text.integer_inj (String.toList_inj.1 hlow))
      (Text.integer_inj (String.toList_inj.1 (List.cons.inj hrest).2))

end Interval

namespace RangeSet

/-! ## Maximal runs -/

/-- Two intervals of a canonical set are the same or lie apart. -/
theorem Canonical.eq_or_apart {s : RangeSet} (h : s.Canonical) {i j : Interval}
    (hi : i ∈ s.intervals) (hj : j ∈ s.intervals) : i = j ∨ Apart i j ∨ Apart j i := by
  have hpair : s.intervals.Pairwise Apart := h
  have hall : ∀ i ∈ s.intervals, ∀ j ∈ s.intervals, i = j ∨ Apart i j ∨ Apart j i :=
    List.Pairwise.forall_of_forall_of_flip (fun _ _ => .inl rfl)
      (hpair.imp fun hij => .inr (.inl hij)) (hpair.imp fun hij => .inr (.inr hij))
  exact hall i hi j hj

/-- The integer above an interval of a canonical set is missing. -/
theorem Canonical.high_succ_notMem {s : RangeSet} (h : s.Canonical) {i : Interval}
    (hi : i ∈ s.intervals) : i.high + 1 ∉ s := by
  rintro ⟨j, hj, hlow, hhigh⟩
  have := i.low_le_high
  rcases h.eq_or_apart hi hj with rfl | hij | hji
  · omega
  · simp only [Apart] at hij
    omega
  · simp only [Apart] at hji
    omega

/-- The integer below an interval of a canonical set is missing. -/
theorem Canonical.low_pred_notMem {s : RangeSet} (h : s.Canonical) {i : Interval}
    (hi : i ∈ s.intervals) : i.low - 1 ∉ s := by
  rintro ⟨j, hj, hlow, hhigh⟩
  have := i.low_le_high
  rcases h.eq_or_apart hi hj with rfl | hij | hji
  · omega
  · simp only [Apart] at hij
    omega
  · simp only [Apart] at hji
    omega

/-- An interval whose members all belong to a canonical set lies in one of its intervals: the member
above the one its lower bound belongs to would be missing. -/
theorem Canonical.exists_includes {s : RangeSet} (h : s.Canonical) {j : Interval}
    (hj : ∀ n ∈ j, n ∈ s) : ∃ i ∈ s.intervals, i.includes j = true := by
  obtain ⟨i, hi, hlow, hhigh⟩ := hj j.low j.low_mem
  refine ⟨i, hi, Interval.includes_iff.2 ?_⟩
  intro n hn
  rw [Interval.mem_iff] at hn ⊢
  by_contra hout
  exact h.high_succ_notMem hi (hj (i.high + 1) ⟨by omega, by omega⟩)

/-- The intervals of a canonical set are its maximal runs of members. -/
theorem Canonical.mem_intervals_iff {s : RangeSet} (h : s.Canonical) {i : Interval} :
    i ∈ s.intervals ↔ (∀ n ∈ i, n ∈ s) ∧ i.low - 1 ∉ s ∧ i.high + 1 ∉ s := by
  constructor
  · intro hi
    exact ⟨fun n hn => ⟨i, hi, hn⟩, h.low_pred_notMem hi, h.high_succ_notMem hi⟩
  · rintro ⟨hmem, hbelow, habove⟩
    obtain ⟨j, hj, hji⟩ := h.exists_includes hmem
    have hlow := (Interval.includes_iff.1 hji) i.low i.low_mem
    have hhigh := (Interval.includes_iff.1 hji) i.high i.high_mem
    rw [Interval.mem_iff] at hlow hhigh
    have hlow_eq : i.low = j.low := by
      by_contra hne
      exact hbelow ⟨j, hj, by rw [Interval.mem_iff]; omega⟩
    have hhigh_eq : i.high = j.high := by
      by_contra hne
      exact habove ⟨j, hj, by rw [Interval.mem_iff]; omega⟩
    exact Interval.ext hlow_eq hhigh_eq ▸ hj

/-! ## Members determine canonical sets -/

/-- Canonical sets with the same members are equal. -/
theorem Canonical.ext {s t : RangeSet} (hs : s.Canonical) (ht : t.Canonical)
    (h : ∀ n, n ∈ s ↔ n ∈ t) : s = t := by
  have : Std.Irrefl Apart := ⟨fun i hi => by
    have := i.low_le_high
    simp only [Apart] at hi
    omega⟩
  have : Std.Antisymm Apart := ⟨fun i j hij hji => by
    have := i.low_le_high
    have := j.low_le_high
    simp only [Apart] at hij hji
    omega⟩
  -- Intervals that lie apart are in ascending order, so the members determine the list.
  have hlists : s.intervals = t.intervals := by
    apply List.Pairwise.eq_of_mem_iff hs ht
    intro i
    simp only [hs.mem_intervals_iff, ht.mem_intervals_iff, h]
  cases s
  cases t
  exact congrArg RangeSet.mk hlists

theorem subset_of_containsAll {s t : RangeSet} (h : s.containsAll t = true) {n : Int}
    (hn : n ∈ t) : n ∈ s := by
  obtain ⟨j, hj, hnj⟩ := hn
  obtain ⟨i, hi, hij⟩ := List.any_eq_true.1 (List.all_eq_true.1 h j hj)
  exact ⟨i, hi, Interval.includes_iff.1 hij n hnj⟩

/-- Comparing interval by interval decides whether a canonical set includes another set. -/
theorem containsAll_iff {s t : RangeSet} (hs : s.Canonical) :
    s.containsAll t = true ↔ ∀ n ∈ t, n ∈ s := by
  constructor
  · intro h n hn
    exact subset_of_containsAll h hn
  · intro h
    apply List.all_eq_true.2
    intro j hj
    apply List.any_eq_true.2
    exact hs.exists_includes fun n hn => h n ⟨j, hj, hn⟩

theorem containsAll_antisymm {s t : RangeSet} (hs : s.Canonical) (ht : t.Canonical)
    (hst : s.containsAll t = true) (hts : t.containsAll s = true) : s = t :=
  hs.ext ht fun _ => ⟨subset_of_containsAll hts, subset_of_containsAll hst⟩

theorem exists_mem {s : RangeSet} (h : s.intervals ≠ []) : ∃ n, n ∈ s := by
  obtain ⟨i, hi⟩ := List.exists_mem_of_ne_nil _ h
  exact ⟨i.low, i, hi, i.low_mem⟩

theorem intervals_ne_nil {s : RangeSet} {n : Int} (h : n ∈ s) : s.intervals ≠ [] := by
  obtain ⟨i, hi, _⟩ := h
  exact List.ne_nil_of_mem hi

/-! ## Bounds -/

/-- No interval of a canonical set begins below the first one. -/
theorem Canonical.head_low_le {s : RangeSet} (h : s.Canonical) {i k : Interval}
    (hi : s.intervals.head? = some i) (hk : k ∈ s.intervals) : i.low ≤ k.low := by
  obtain ⟨rest, hhead⟩ := List.head?_eq_some_iff.1 hi
  have hpair : (i :: rest).Pairwise Apart := hhead ▸ h
  rcases List.mem_cons.1 (hhead ▸ hk) with rfl | hk
  · exact Int.le_refl _
  · have hapart : i.high + 1 < k.low := (List.pairwise_cons.1 hpair).1 k hk
    have := i.low_le_high
    omega

/-- No interval of a canonical set ends above the last one. -/
theorem Canonical.high_le_getLast {s : RangeSet} (h : s.Canonical) {j k : Interval}
    (hj : s.intervals.getLast? = some j) (hk : k ∈ s.intervals) : k.high ≤ j.high := by
  obtain ⟨front, hlast⟩ := List.getLast?_eq_some_iff.1 hj
  have hpair : (front ++ [j]).Pairwise Apart := hlast ▸ h
  rcases List.mem_append.1 (hlast ▸ hk) with hk | hk
  · have hapart : k.high + 1 < j.low :=
      (List.pairwise_append.1 hpair).2.2 k hk j List.mem_cons_self
    have := j.low_le_high
    omega
  · rw [List.mem_singleton.1 hk]

theorem intervals_eq_nil_iff {s : RangeSet} : s.intervals = [] ↔ ∀ n, n ∉ s := by
  constructor
  · intro hnil n hn
    exact intervals_ne_nil hn hnil
  · intro hnone
    by_contra hne
    obtain ⟨n, hn⟩ := exists_mem hne
    exact hnone n hn

theorem min?_eq_none_iff {s : RangeSet} : s.min? = none ↔ ∀ n, n ∉ s := by
  rw [← intervals_eq_nil_iff, min?, Option.map_eq_none_iff, List.head?_eq_none_iff]

theorem max?_eq_none_iff {s : RangeSet} : s.max? = none ↔ ∀ n, n ∉ s := by
  rw [← intervals_eq_nil_iff, max?, Option.map_eq_none_iff, List.getLast?_eq_none_iff]

/-- The lower bound of the first interval is the least member. -/
theorem Canonical.min?_eq_some_iff {s : RangeSet} (h : s.Canonical) {n : Int} :
    s.min? = some n ↔ n ∈ s ∧ ∀ m ∈ s, n ≤ m := by
  have hleast {n : Int} (hn : s.min? = some n) : n ∈ s ∧ ∀ m ∈ s, n ≤ m := by
    obtain ⟨i, hi, rfl⟩ := Option.map_eq_some_iff.1 hn
    refine ⟨⟨i, List.mem_of_mem_head? hi, i.low_mem⟩, ?_⟩
    rintro m ⟨k, hk, hm⟩
    exact Int.le_trans (h.head_low_le hi hk) hm.1
  constructor
  · exact hleast
  · rintro ⟨hn, hall⟩
    cases hmin : s.min? with
    | none => exact absurd hn (min?_eq_none_iff.1 hmin n)
    | some k =>
      obtain ⟨hk, hkall⟩ := hleast hmin
      rw [Int.le_antisymm (hkall n hn) (hall k hk)]

/-- The upper bound of the last interval is the greatest member. -/
theorem Canonical.max?_eq_some_iff {s : RangeSet} (h : s.Canonical) {n : Int} :
    s.max? = some n ↔ n ∈ s ∧ ∀ m ∈ s, m ≤ n := by
  have hgreatest {n : Int} (hn : s.max? = some n) : n ∈ s ∧ ∀ m ∈ s, m ≤ n := by
    obtain ⟨j, hj, rfl⟩ := Option.map_eq_some_iff.1 hn
    refine ⟨⟨j, List.mem_of_getLast? hj, j.high_mem⟩, ?_⟩
    rintro m ⟨k, hk, hm⟩
    exact Int.le_trans hm.2 (h.high_le_getLast hj hk)
  constructor
  · exact hgreatest
  · rintro ⟨hn, hall⟩
    cases hmax : s.max? with
    | none => exact absurd hn (max?_eq_none_iff.1 hmax n)
    | some k =>
      obtain ⟨hk, hkall⟩ := hgreatest hmax
      rw [Int.le_antisymm (hall k hk) (hkall n hn)]

/-- A canonical set with a single member is one interval with equal bounds. -/
theorem Canonical.constant?_eq_some_iff {s : RangeSet} (h : s.Canonical) {v : Int} :
    s.constant? = some v ↔ ∀ n, n ∈ s ↔ n = v := by
  constructor
  · intro hv
    unfold constant? at hv
    split at hv
    · next i hi =>
      split at hv
      · next hpoint =>
        intro n
        obtain rfl := Option.some.inj hv
        have hbounds : i.low = i.high := eq_of_beq hpoint
        rw [mem_iff, hi]
        simp only [List.mem_singleton, exists_eq_left, Interval.mem_iff]
        omega
      · exact nomatch hv
    · exact nomatch hv
  · intro hv
    have hs : s = point v := h.ext (canonical_point v) fun n => by rw [hv, mem_singleton_point]
    rw [hs]
    simp [constant?, point, Interval.point, Interval.isPoint]

/-! ## Unions -/

theorem canonical_exactUnion (s t : RangeSet) : (exactUnion s t).Canonical :=
  canonical_ofIntervals _

theorem exactUnion_comm (s t : RangeSet) : exactUnion s t = exactUnion t s :=
  (canonical_exactUnion s t).ext (canonical_exactUnion t s) fun n => by
    rw [mem_exactUnion, mem_exactUnion, or_comm]

/-- The hull of a canonical set contains its members: no interval lies below the first one or above
the last one. -/
theorem mem_hull_of_mem {s : RangeSet} (h : s.Canonical) {n : Int} (hn : n ∈ s) : n ∈ s.hull := by
  unfold hull
  split
  · next i j hi hj =>
    obtain ⟨k, hk, hnk⟩ := hn
    have hlow := h.head_low_le hi hk
    have hhigh := h.high_le_getLast hj hk
    refine ⟨i.hull j, List.mem_cons_self, ?_⟩
    rw [Interval.mem_iff] at hnk ⊢
    simp only [Interval.hull]
    omega
  · exact hn

/-- A union contains both operands, also where it is not exact. -/
theorem mem_union_of_mem {s t : RangeSet} {n : Int} (hn : n ∈ s ∨ n ∈ t) : n ∈ s.union t := by
  unfold union
  split
  · next h => exact hn.elim id (subset_of_containsAll h)
  · split
    · next h => exact hn.elim (subset_of_containsAll h) id
    · split
      · exact mem_exactUnion.2 hn
      · exact mem_hull_of_mem (canonical_exactUnion s t) (mem_exactUnion.2 hn)

theorem between_of_mem_hull {s : RangeSet} {n : Int} (hn : n ∈ s.hull) :
    ∃ low ∈ s, ∃ high ∈ s, low ≤ n ∧ n ≤ high := by
  unfold hull at hn
  split at hn
  · next i j hi hj =>
    have hi : i ∈ s.intervals := List.mem_of_mem_head? hi
    have hj : j ∈ s.intervals := List.mem_of_getLast? hj
    obtain ⟨k, hk, hlow, hhigh⟩ := hn
    obtain rfl := List.mem_singleton.1 hk
    have hlowMem : min i.low j.low ∈ s := by
      rcases Int.le_total i.low j.low with h | h
      · exact ⟨i, hi, by rw [Int.min_eq_left h]; exact i.low_mem⟩
      · exact ⟨j, hj, by rw [Int.min_eq_right h]; exact j.low_mem⟩
    have hhighMem : max i.high j.high ∈ s := by
      rcases Int.le_total i.high j.high with h | h
      · exact ⟨j, hj, by rw [Int.max_eq_right h]; exact j.high_mem⟩
      · exact ⟨i, hi, by rw [Int.max_eq_left h]; exact i.high_mem⟩
    exact ⟨_, hlowMem, _, hhighMem, hlow, hhigh⟩
  · exact ⟨n, hn, n, hn, Int.le_refl n, Int.le_refl n⟩

/-- A union has no members beyond those of its operands. -/
theorem between_of_mem_union {s t : RangeSet} {n : Int} (hn : n ∈ s.union t) :
    ∃ low high, (low ∈ s ∨ low ∈ t) ∧ (high ∈ s ∨ high ∈ t) ∧ low ≤ n ∧ n ≤ high := by
  have hself (h : n ∈ s ∨ n ∈ t) : ∃ low high, (low ∈ s ∨ low ∈ t) ∧ (high ∈ s ∨ high ∈ t) ∧
      low ≤ n ∧ n ≤ high := ⟨n, n, h, h, Int.le_refl n, Int.le_refl n⟩
  unfold union at hn
  split at hn
  · exact hself (.inl hn)
  · split at hn
    · exact hself (.inr hn)
    · split at hn
      · exact hself (mem_exactUnion.1 hn)
      · obtain ⟨low, hlow, high, hhigh, hbounds⟩ := between_of_mem_hull hn
        exact ⟨low, high, mem_exactUnion.1 hlow, mem_exactUnion.1 hhigh, hbounds⟩

theorem union_self (s : RangeSet) : s.union s = s := by
  rw [union, if_pos (containsAll_self s)]

/-- A union that one operand contains is that operand. -/
theorem union_eq_self {s t : RangeSet} (hs : s.Canonical) (h : s.containsAll (s.union t) = true) :
    s.union t = s := by
  have hst : s.containsAll t = true :=
    (containsAll_iff hs).2 fun n hn => subset_of_containsAll h (mem_union_of_mem (.inr hn))
  exact if_pos hst

/-- The order of the operands of a union does not matter. -/
theorem union_comm {s t : RangeSet} (hs : s.Canonical) (ht : t.Canonical) :
    s.union t = t.union s := by
  unfold union
  rw [exactUnion_comm t s, Nat.max_comm t.size s.size]
  -- Where both contain each other they are equal, otherwise both unions take the same way.
  by_cases hst : s.containsAll t = true <;> by_cases hts : t.containsAll s = true <;>
    simp only [hst, hts, if_true, if_false, Bool.false_eq_true]
  exact containsAll_antisymm hs ht hst hts

theorem intersect_eq_self {s t : RangeSet} (hs : s.Canonical) (h : ∀ n ∈ s, n ∈ t) :
    s.intersect t = s :=
  (canonical_intersect s t).ext hs fun n => mem_intersect.trans ⟨And.left, fun hn => ⟨hn, h n hn⟩⟩

theorem intersect_comm (s t : RangeSet) : s.intersect t = t.intersect s :=
  (canonical_intersect s t).ext (canonical_intersect t s) fun n => by
    rw [mem_intersect, mem_intersect, and_comm]

/-! ## Texts -/

/-- The text of a set determines it. -/
theorem text_inj {s t : RangeSet} (h : s.text = t.text) : s = t := by
  have hcomma (i : Interval) : ',' ∉ i.text.toList := by
    intro hc
    rcases Interval.mem_text hc with hc | hc | hc <;> exact absurd hc (by decide)
  have hwritten : ", ".intercalate (s.intervals.map (·.text)) =
      ", ".intercalate (t.intervals.map (·.text)) := by
    have hlist := congrArg String.toList h
    simp only [text, String.toList_append] at hlist
    have hbody := List.append_cancel_left (List.append_cancel_right hlist)
    exact String.toList_inj.1 hbody
  have hempty (i : Interval) : i.text ≠ "" := by
    intro hi
    unfold Interval.text at hi
    split at hi
    · exact Text.integer_ne_empty _ hi
    · exact Text.integer_ne_empty _ (String.append_eq_empty_iff.1 hi).2
  have hlists : s.intervals.map (·.text) = t.intervals.map (·.text) :=
    Text.intercalate_inj_of_ne_empty (c := ',') rfl (by simpa using fun i _ => hempty i)
      (by simpa using fun i _ => hempty i) (by simpa using fun i _ => hcomma i)
      (by simpa using fun i _ => hcomma i) hwritten
  have hintervals : s.intervals = t.intervals :=
    List.map_injective_iff.2 (fun _ _ => Interval.text_inj) hlists
  cases s
  cases t
  exact congrArg RangeSet.mk hintervals

/-! ## What the operations make -/

/-- The sets that the operations make. -/
inductive Built : RangeSet → Prop where
  | empty : Built empty
  | point (n : Int) : Built (point n)
  | range (low high : Int) : Built (range low high)
  | domain (t : IntegerType) : Built t.domain
  | ofIntervals (l : List Interval) : Built (ofIntervals l)
  | union {s t : RangeSet} : Built s → Built t → Built (s.union t)
  | intersect {s t : RangeSet} : Built s → Built t → Built (s.intersect t)
  | subtract {s t : RangeSet} : Built s → Built t → Built (s.subtract t)
  | without {s : RangeSet} (n : Int) : Built s → Built (s.without n)

theorem Built.canonical {s : RangeSet} (h : Built s) : s.Canonical := by
  induction h with
  | empty => exact canonical_empty
  | point n => exact canonical_point n
  | range low high => exact canonical_range low high
  | domain t => exact IntegerType.canonical_domain t
  | ofIntervals l => exact canonical_ofIntervals l
  | union _ _ hs ht => exact canonical_union hs ht
  | intersect _ _ _ _ => exact canonical_intersect _ _
  | subtract _ _ _ _ => exact canonical_subtract _ _
  | without n _ _ => exact canonical_without _ n

end RangeSet

end ValueLattice
