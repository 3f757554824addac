import ValueLattice.Proofs.Elements.Histories
import ValueLattice.Proofs.IntegralSets

/-!
# Narrowing

Each condition that an analysis passes narrows a set of integers. However many there are and in
whatever order they come, what the set was before all of them stays recorded.

* `NarrowedTo`: a set with the wide range of another one and some of its members; the members
  determine it;
* `narrow?_cases`: what narrowing once returns, `narrowAll_cases`: what narrowing again and again
  returns, by induction on the conditions;
* `narrowAll_laws`: narrowing can be undone, and its order does not matter.
-/

namespace ValueLattice

/-! ## Intersections -/

namespace RangeSet

/-- The members of a set that belong to all of the given ones. -/
def intersectAll (ranges : List RangeSet) (s : RangeSet) : RangeSet :=
  ranges.foldl intersect s

theorem intersectAll_cons (range : RangeSet) (ranges : List RangeSet) (s : RangeSet) :
    intersectAll (range :: ranges) s = intersectAll ranges (s.intersect range) := rfl

theorem mem_intersectAll {ranges : List RangeSet} {s : RangeSet} {n : Int} :
    n ∈ intersectAll ranges s ↔ n ∈ s ∧ ∀ range ∈ ranges, n ∈ range := by
  induction ranges generalizing s with
  | nil => simp [intersectAll]
  | cons range ranges ih =>
    rw [intersectAll_cons, ih, mem_intersect, List.forall_mem_cons, and_assoc]

theorem canonical_intersectAll {ranges : List RangeSet} {s : RangeSet} (hs : s.Canonical) :
    (intersectAll ranges s).Canonical := by
  induction ranges generalizing s with
  | nil => exact hs
  | cons range ranges ih => exact ih (canonical_intersect s range)

theorem intersectAll_perm {ranges ranges' : List RangeSet} {s : RangeSet} (hs : s.Canonical)
    (h : ranges'.Perm ranges) : intersectAll ranges' s = intersectAll ranges s := by
  refine (canonical_intersectAll hs).ext (canonical_intersectAll hs) fun n => ?_
  simp only [mem_intersectAll, h.mem_iff]

end RangeSet

/-! ## Sets of integers -/

namespace IntegralSet

/-- Whether a set has the given members and otherwise is what another one is. -/
structure NarrowedTo (s : IntegralSet) (range : RangeSet) (u : IntegralSet) : Prop where
  valid : u.Valid
  width : u.width = s.width
  range : u.range = range
  effectiveWide : u.effectiveWide = s.effectiveWide

theorem Valid.narrowedTo {s : IntegralSet} (hs : s.Valid) : s.NarrowedTo s.range s :=
  ⟨hs, rfl, rfl, rfl⟩

theorem NarrowedTo.trans {s t u : IntegralSet} {range range' : RangeSet}
    (ht : s.NarrowedTo range t) (hu : t.NarrowedTo range' u) : s.NarrowedTo range' u :=
  ⟨hu.valid, hu.width.trans ht.width, hu.range, hu.effectiveWide.trans ht.effectiveWide⟩

/-- A wide range is recorded exactly if it has more members than the range beside it. -/
theorem Valid.wide_eq {s : IntegralSet} (hs : s.Valid) :
    s.wide = if s.effectiveWide = s.range then none else some s.effectiveWide := by
  unfold effectiveWide
  cases hwide : s.wide with
  | none => exact (if_pos rfl).symm
  | some wide =>
    obtain ⟨n, hn, hout⟩ := hs.wide_proper wide hwide
    refine (if_neg fun heq => ?_).symm
    rw [Option.getD_some] at heq
    exact hout (heq ▸ hn)

/-- The members determine a narrowed set. -/
theorem NarrowedTo.unique {s t u : IntegralSet} {range : RangeSet} (ht : s.NarrowedTo range t)
    (hu : s.NarrowedTo range u) : t = u := by
  have hwidth : t.width = u.width := ht.width.trans hu.width.symm
  have hrange : t.range = u.range := ht.range.trans hu.range.symm
  have hwide : t.wide = u.wide := by
    rw [ht.valid.wide_eq, hu.valid.wide_eq, ht.effectiveWide, hu.effectiveWide, hrange]
  cases t
  cases u
  simp_all

/-- Whatever is taken from a set, its wide range is recorded unless nothing is missing. -/
theorem getD_recordedWide_effectiveWide {s : IntegralSet} (hs : s.Valid) {range : RangeSet}
    (hrange : range.Canonical) (hsub : ∀ n ∈ range, n ∈ s.effectiveWide) :
    (recordedWide s.width range s.effectiveWide).getD range = s.effectiveWide := by
  have hcanonical := canonical_effectiveWide hs
  have hdomain := effectiveWide_in_domain hs
  -- Nothing is recorded exactly if nothing is missing, and then the range itself is the wide range.
  by_cases hall : ∀ n ∈ s.effectiveWide, n ∈ range
  · have heq : s.effectiveWide = range := hcanonical.ext hrange fun n => ⟨hall n, hsub n⟩
    rw [heq] at hdomain ⊢
    rw [recordedWide_self hrange hdomain, Option.getD_none]
  · obtain ⟨n, hn, hout⟩ : ∃ n ∈ s.effectiveWide, n ∉ range := by
      simpa only [not_forall, exists_prop] using hall
    rw [recordedWide_of_proper hcanonical hdomain hsub ⟨n, hn, hout⟩, Option.getD_some]

/-- A set is narrowed to its members in a range, if there are any. -/
theorem narrow?_cases {s : IntegralSet} (hs : s.Valid) (range : RangeSet) :
    ((∀ n, n ∉ s.range.intersect range) ∧ s.narrow? range = none) ∨
      ∃ u, s.narrow? range = some u ∧ s.NarrowedTo (s.range.intersect range) u := by
  by_cases hempty : ∀ n, n ∉ s.range.intersect range
  · exact .inl ⟨hempty, normal?_eq_none_iff.2 hempty⟩
  · have hne := mt RangeSet.intervals_eq_nil_iff.1 hempty
    have hsome := normal?_eq_some s.width (some s.effectiveWide) hne
    have hwide := getD_recordedWide_effectiveWide hs (RangeSet.canonical_intersect s.range range)
      fun n hn => mem_effectiveWide hs (RangeSet.mem_intersect.1 hn).1
    exact .inr ⟨_, hsome, valid_narrow? hs hsome, rfl, rfl, hwide⟩

end IntegralSet

namespace Element

variable {id : HierarchyId} {v : Vocabulary}

/-! ## Elements -/

/-- Removes the integers outside several ranges, one range after the other. -/
def narrowAll (ranges : List RangeSet) (e : Element) : Except Fault Element :=
  ranges.foldlM (fun e range => narrow range e) e

theorem narrowAll_cons (range : RangeSet) (ranges : List RangeSet) (e : Element) :
    narrowAll (range :: ranges) e = narrow range e >>= narrowAll ranges := rfl

theorem narrowAll_bottom (ranges : List RangeSet) : narrowAll ranges bottom = .ok bottom := by
  induction ranges with
  | nil => rfl
  | cons range ranges ih => exact ih

/-- A set of integers is narrowed to its members in all ranges, if there are any. -/
theorem narrowAll_cases {s : IntegralSet} (hs : s.Valid) (ranges : List RangeSet) :
    ((∀ n, n ∉ RangeSet.intersectAll ranges s.range) ∧
        narrowAll ranges (integral s) = .ok bottom) ∨
      ∃ u, narrowAll ranges (integral s) = .ok (integral u) ∧
        s.NarrowedTo (RangeSet.intersectAll ranges s.range) u := by
  -- Each set on the way is valid and has the wide range of the first one, which carries the induction.
  induction ranges generalizing s with
  | nil => exact .inr ⟨s, rfl, hs.narrowedTo⟩
  | cons range ranges ih =>
    rw [narrowAll_cons, RangeSet.intersectAll_cons]
    rcases IntegralSet.narrow?_cases hs range with ⟨hempty, hnone⟩ | ⟨t, hsome, ht⟩
    · refine .inl ⟨fun n hn => hempty n (RangeSet.mem_intersectAll.1 hn).1, ?_⟩
      rw [narrow, hnone]
      exact narrowAll_bottom ranges
    · rw [narrow, hsome]
      rcases ih ht.valid with ⟨hempty, hbottom⟩ | ⟨u, hu, hnarrowed⟩
      · rw [ht.range] at hempty
        exact .inl ⟨hempty, hbottom⟩
      · rw [ht.range] at hnarrowed
        exact .inr ⟨u, hu, ht.trans hnarrowed⟩

theorem toWide_eq {s u : IntegralSet} {range : RangeSet} (hu : s.NarrowedTo range u) :
    toWide (integral u) = integral ⟨s.width, s.effectiveWide, none⟩ := by
  rw [toWide, IntegralSet.toWide?_eq hu.valid, hu.width, hu.effectiveWide]
  rfl

/-- Narrowing in another order has the same result. -/
theorem narrowAll_perm {s : IntegralSet} (hs : s.Valid) {ranges ranges' : List RangeSet}
    (h : ranges'.Perm ranges) : narrowAll ranges' (integral s) = narrowAll ranges (integral s) := by
  have hcommon := RangeSet.intersectAll_perm hs.range_canonical h
  rcases narrowAll_cases hs ranges' with ⟨hempty', hbottom'⟩ | ⟨u', hu', hnarrowed'⟩
  · rcases narrowAll_cases hs ranges with ⟨_, hbottom⟩ | ⟨u, _, hnarrowed⟩
    · rw [hbottom', hbottom]
    · obtain ⟨n, hn⟩ := RangeSet.exists_mem hnarrowed.valid.range_ne_empty
      rw [hnarrowed.range, ← hcommon] at hn
      exact absurd hn (hempty' n)
  · rw [hcommon] at hnarrowed'
    rcases narrowAll_cases hs ranges with ⟨hempty, _⟩ | ⟨u, hu, hnarrowed⟩
    · obtain ⟨n, hn⟩ := RangeSet.exists_mem hnarrowed'.valid.range_ne_empty
      exact absurd (hnarrowed'.range ▸ hn) (hempty n)
    · rw [hu', hu, hnarrowed'.unique hnarrowed]

/-- Narrowing a set of integers by any ranges returns an element: `bottom` exactly if no member
belongs to all ranges. Otherwise the members that do are left, the effective wide range is what it
was, and returning to it gives the set with that range. Any order of the ranges has the same
result. -/
theorem narrowAll_laws {es : List Element} (h : History id v es) {s : IntegralSet}
    (hs : integral s ∈ es) (ranges : List RangeSet) :
    ∃ e, narrowAll ranges (integral s) = .ok e ∧
      (e = bottom ↔ ¬∃ n ∈ s.range, ∀ range ∈ ranges, n ∈ range) ∧
      (e ≠ bottom → ∃ u, e = integral u ∧ u.width = s.width ∧
        u.range = RangeSet.intersectAll ranges s.range ∧
        (∀ n, n ∈ u.range ↔ n ∈ s.range ∧ ∀ range ∈ ranges, n ∈ range) ∧
        u.effectiveWide = s.effectiveWide ∧
        toWide e = integral ⟨s.width, s.effectiveWide, none⟩) ∧
      ∀ ranges' : List RangeSet, ranges'.Perm ranges → narrowAll ranges' (integral s) = .ok e := by
  have hvalid : s.Valid := h.regular _ hs
  have hperm (ranges' : List RangeSet) (h : ranges'.Perm ranges) := narrowAll_perm hvalid h
  rcases narrowAll_cases hvalid ranges with ⟨hempty, hbottom⟩ | ⟨u, hu, hnarrowed⟩
  · have hnone : ¬∃ n ∈ s.range, ∀ range ∈ ranges, n ∈ range :=
      fun ⟨n, hn⟩ => hempty n (RangeSet.mem_intersectAll.2 hn)
    exact ⟨bottom, hbottom, iff_of_true rfl hnone, fun hne => absurd rfl hne,
      fun ranges' h => (hperm ranges' h).trans hbottom⟩
  · have hmem (n : Int) : n ∈ u.range ↔ n ∈ s.range ∧ ∀ range ∈ ranges, n ∈ range :=
      hnarrowed.range ▸ RangeSet.mem_intersectAll
    obtain ⟨n, hn⟩ := RangeSet.exists_mem hnarrowed.valid.range_ne_empty
    have hsome : ∃ n ∈ s.range, ∀ range ∈ ranges, n ∈ range := ⟨n, (hmem n).1 hn⟩
    exact ⟨integral u, hu, iff_of_false Element.noConfusion (not_not_intro hsome),
      fun _ => ⟨u, rfl, hnarrowed.width, hnarrowed.range, hmem, hnarrowed.effectiveWide,
        toWide_eq hnarrowed⟩, fun ranges' h => (hperm ranges' h).trans hu⟩

/-- An index between 0 and 100 that was found to be at most 50. -/
def foundIndex : IntegralSet := ⟨.int, .range 0 50, some (.range 0 100)⟩

theorem history_foundIndex : History id v [integral foundIndex] := by
  have hindex : ofRangeWithWide .int (.range 0 50) (some (.range 0 100)) = integral foundIndex := rfl
  refine .make .start (hindex ▸ .ofRangeWithWide _ (.range 0 50) fun n hn => ?_)
  obtain ⟨hlow, hhigh⟩ := RangeSet.mem_range.1 hn
  exact IntegerType.mem_domain.2 ⟨Int.le_trans (by decide) hlow, Int.le_trans hhigh (by decide)⟩

/-- Conditions on an index, the last of which says nothing new. -/
def conditions : List RangeSet := [.range 5 60, .point 7, .range (-9) 70]

theorem mem_conditions {n : Int} :
    (n ∈ foundIndex.range ∧ ∀ range ∈ conditions, n ∈ range) ↔ n = 7 := by
  simp only [foundIndex, conditions, List.forall_mem_cons, List.not_mem_nil, false_implies,
    implies_true, and_true, RangeSet.mem_range, RangeSet.mem_singleton_point]
  omega

theorem narrowAll_laws_foundIndex :
    History 0 .any [integral foundIndex] ∧ conditions.reverse.Perm conditions ∧
      ∃ u, narrowAll conditions (integral foundIndex) = .ok (integral u) ∧
        u.width = .int ∧ (∀ n, n ∈ u.range ↔ n = 7) ∧ u.effectiveWide = .range 0 100 ∧
        toWide (integral u) = integral ⟨.int, .range 0 100, none⟩ ∧
        narrowAll conditions.reverse (integral foundIndex) = .ok (integral u) := by
  have hhistory : History 0 .any [integral foundIndex] := history_foundIndex
  have hperm : conditions.reverse.Perm conditions := List.reverse_perm conditions
  obtain ⟨e, he, hbottom, hrest, hperms⟩ :=
    narrowAll_laws hhistory List.mem_cons_self conditions
  obtain ⟨u, rfl, hwidth, _, hrange, hwide, htoWide⟩ :=
    hrest fun h => hbottom.1 h ⟨7, mem_conditions.2 rfl⟩
  exact ⟨hhistory, hperm, u, he, hwidth, fun n => (hrange n).trans mem_conditions, hwide, htoWide,
    hperms _ hperm⟩

end Element

end ValueLattice
