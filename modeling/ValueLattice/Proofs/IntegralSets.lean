import ValueLattice.Element.Integral
import ValueLattice.Proofs.RangeSets

/-!
# The lattice of sets of integers

Ranges of sets of integers are canonical and not empty, and so are the wide ranges that widening
returns to.

* `covers_iff`: the order is inclusion within one width, `key_inj`: keys tell sets apart;
* `exists_join?`, `exists_meet?`: joins always exist, meets wherever there is a common member;
* `normal?_eq_some`, `normal?_eq_none_iff`: what a set is made of;
* `normal_normal?`: whatever is made of canonical ranges is normal;
* `valid_normal?`: whatever is made of canonical ranges inside the domain of a width is valid, and so
  are joins, meets, complements, narrowed and widened sets;
* `toWide?_eq`: what widening returns to;
* `mem_effectiveWide_join?`, `wide_join?_eq_none`: what a join records as its wide range.
-/

namespace ValueLattice.IntegralSet

/-- A set of integers with members, all ranges of which are canonical. -/
structure Normal (s : IntegralSet) : Prop where
  range_ne_nil : s.range.intervals ≠ []
  canonical : s.range.Canonical
  wide_canonical : ∀ wide ∈ s.wide, wide.Canonical

theorem normal_all (w : IntegralWidth) : (all w).Normal where
  range_ne_nil := by
    cases w <;> exact RangeSet.intervals_ne_nil (n := 0) (by decide)
  canonical := IntegerType.canonical_domain _
  wide_canonical _ h := nomatch h

theorem normal_point (w : IntegralWidth) (n : Int) : (point w n).Normal where
  range_ne_nil := List.cons_ne_nil _ _
  canonical := RangeSet.canonical_point n
  wide_canonical _ h := nomatch h

/-! ## Making sets -/

theorem canonical_recordedWide {w : IntegralWidth} {range wide recorded : RangeSet}
    (hrange : range.Canonical) (h : recordedWide w range wide = some recorded) :
    recorded.Canonical := by
  have hinside := RangeSet.canonical_intersect wide w.domain
  have hextended := RangeSet.canonical_union hinside hrange
  unfold recordedWide at h
  generalize wide.intersect w.domain = inside at hinside hextended h
  by_cases hall : inside.containsAll range = true
  · simp only [if_pos hall] at h
    split at h
    · exact nomatch h
    · exact Option.some.inj h ▸ hinside
  · simp only [if_neg hall] at h
    split at h
    · exact nomatch h
    · exact Option.some.inj h ▸ hextended

theorem normal?_eq_some (w : IntegralWidth) {range : RangeSet} (wide : Option RangeSet)
    (h : range.intervals ≠ []) :
    normal? w range wide = some ⟨w, range, wide.bind (recordedWide w range)⟩ := by
  rw [normal?, if_neg (by simpa [RangeSet.isEmpty] using h)]

theorem normal?_eq_none_iff {w : IntegralWidth} {range : RangeSet} {wide : Option RangeSet} :
    normal? w range wide = none ↔ ∀ n, n ∉ range := by
  rw [← RangeSet.intervals_eq_nil_iff, normal?]
  split
  · next hempty => exact iff_of_true rfl (List.isEmpty_iff.1 hempty)
  · next hempty =>
    exact iff_of_false (Option.some_ne_none _) fun hnil => hempty (List.isEmpty_iff.2 hnil)

theorem normal_normal? {w : IntegralWidth} {range : RangeSet} {wide : Option RangeSet}
    {s : IntegralSet} (hrange : range.Canonical) (h : normal? w range wide = some s) :
    s.Normal ∧ s.width = w ∧ s.range = range := by
  unfold normal? at h
  split at h
  · exact nomatch h
  · next hempty =>
    obtain rfl := Option.some.inj h
    refine ⟨⟨by simpa [RangeSet.isEmpty] using hempty, hrange, ?_⟩, rfl, rfl⟩
    intro recorded hrecorded
    obtain ⟨v, _, hv⟩ := Option.bind_eq_some_iff.1 hrecorded
    exact canonical_recordedWide hrange hv

theorem eq_of_normal?_eq_some {w : IntegralWidth} {range : RangeSet} {wide : Option RangeSet}
    {s : IntegralSet} (h : normal? w range wide = some s) :
    s = ⟨w, range, wide.bind (recordedWide w range)⟩ := by
  unfold normal? at h
  split at h
  · exact nomatch h
  · exact (Option.some.inj h).symm

/-! ## The order -/

theorem covers_iff {s t : IntegralSet} (hs : s.Normal) :
    s.covers t = true ↔ s.width = t.width ∧ ∀ n ∈ t.range, n ∈ s.range := by
  rw [covers, Bool.and_eq_true, beq_iff_eq, RangeSet.containsAll_iff hs.canonical]

theorem covers_trans {s t u : IntegralSet} (hs : s.Normal) (ht : t.Normal)
    (hst : s.covers t = true) (htu : t.covers u = true) : s.covers u = true := by
  rw [covers_iff hs] at hst ⊢
  rw [covers_iff ht] at htu
  exact ⟨hst.1.trans htu.1, fun n hn => hst.2 n (htu.2 n hn)⟩

theorem covers_antisymm {s t : IntegralSet} (hs : s.Normal) (ht : t.Normal)
    (hst : s.covers t = true) (hts : t.covers s = true) : s.key = t.key := by
  rw [covers_iff hs] at hst
  rw [covers_iff ht] at hts
  have hrange := hs.canonical.ext ht.canonical fun n => ⟨hts.2 n, hst.2 n⟩
  rw [key, key, hst.1, hrange]

theorem key_inj {s t : IntegralSet} (h : s.key = t.key) :
    s.width = t.width ∧ s.range = t.range := by
  have hlist := congrArg String.toList h
  simp only [key, String.toList_append] at hlist
  have hwidth : s.width = t.width := by
    generalize hs : s.width = w at hlist
    generalize ht : t.width = v at hlist
    cases w <;> cases v <;>
      simp [IntegralWidth.name, IntegralWidth.integerType, IntegerType.name] at hlist ⊢
  rw [hwidth] at hlist
  exact ⟨hwidth, RangeSet.text_inj (String.toList_inj.1 (List.append_cancel_left hlist))⟩

theorem covers_of_key_eq {s t : IntegralSet} (h : s.key = t.key) : s.covers t = true := by
  obtain ⟨hwidth, hrange⟩ := key_inj h
  rw [covers, hwidth, hrange, beq_self_eq_true, Bool.true_and, RangeSet.containsAll_self]

/-! ## Joins, meets and complements -/

theorem exists_join? {s t : IntegralSet} (hs : s.Normal) (ht : t.Normal) :
    ∃ u, s.join? t = some u ∧ u.Normal ∧ u.width = s.width ∧ u.range = s.range.union t.range := by
  have hne : (s.range.union t.range).intervals ≠ [] := by
    obtain ⟨n, hn⟩ := RangeSet.exists_mem hs.range_ne_nil
    exact RangeSet.intervals_ne_nil (RangeSet.mem_union_of_mem (.inl hn))
  have hcanonical := RangeSet.canonical_union hs.canonical ht.canonical
  have hsome := normal?_eq_some s.width (combinedWide RangeSet.union s t) hne
  exact ⟨_, hsome, normal_normal? hcanonical hsome⟩

theorem meet?_eq_some {s t u : IntegralSet} (h : s.meet? t = some u) :
    u.Normal ∧ u.width = s.width ∧ u.range = s.range.intersect t.range :=
  normal_normal? (RangeSet.canonical_intersect _ _) h

theorem exists_meet? {s t : IntegralSet} {n : Int} (hs : n ∈ s.range) (ht : n ∈ t.range) :
    ∃ u, s.meet? t = some u :=
  ⟨_, normal?_eq_some _ _ (RangeSet.intervals_ne_nil (RangeSet.mem_intersect.2 ⟨hs, ht⟩))⟩

theorem join?_covers {s t u : IntegralSet} (hs : s.Normal) (ht : t.Normal)
    (hwidth : s.width = t.width) (h : s.join? t = some u) :
    u.covers s = true ∧ u.covers t = true := by
  obtain ⟨v, hv, hnormal, hw, hrange⟩ := exists_join? hs ht
  obtain rfl : u = v := Option.some.inj (h.symm.trans hv)
  rw [covers_iff hnormal, covers_iff hnormal, hw, hrange]
  exact ⟨⟨rfl, fun n hn => RangeSet.mem_union_of_mem (.inl hn)⟩,
    hwidth, fun n hn => RangeSet.mem_union_of_mem (.inr hn)⟩

theorem join?_comm {s t : IntegralSet} (hs : s.Normal) (ht : t.Normal)
    (hwidth : s.width = t.width) : ∃ u v, s.join? t = some u ∧ t.join? s = some v ∧
      u.key = v.key := by
  obtain ⟨u, hu, _, huw, hur⟩ := exists_join? hs ht
  obtain ⟨v, hv, _, hvw, hvr⟩ := exists_join? ht hs
  refine ⟨u, v, hu, hv, ?_⟩
  rw [key, key, huw, hvw, hur, hvr, hwidth, RangeSet.union_comm hs.canonical ht.canonical]

theorem join?_self {s : IntegralSet} (hs : s.Normal) : ∃ u, s.join? s = some u ∧ u.key = s.key := by
  obtain ⟨u, hu, _, huw, hur⟩ := exists_join? hs hs
  exact ⟨u, hu, by rw [key, key, huw, hur, RangeSet.union_self]⟩

theorem covers_meet? {s t u : IntegralSet} (hs : s.Normal) (ht : t.Normal)
    (hwidth : s.width = t.width) (h : s.meet? t = some u) :
    s.covers u = true ∧ t.covers u = true := by
  obtain ⟨_, hw, hrange⟩ := meet?_eq_some h
  rw [covers_iff hs, covers_iff ht, hw, hrange]
  exact ⟨⟨rfl, fun n hn => (RangeSet.mem_intersect.1 hn).1⟩,
    hwidth.symm, fun n hn => (RangeSet.mem_intersect.1 hn).2⟩

/-- The meet is the greatest set that both cover. -/
theorem exists_meet?_covers {s t z : IntegralSet} (hs : s.Normal) (ht : t.Normal) (hz : z.Normal)
    (hsz : s.covers z = true) (htz : t.covers z = true) :
    ∃ u, s.meet? t = some u ∧ u.covers z = true := by
  rw [covers_iff hs] at hsz
  rw [covers_iff ht] at htz
  obtain ⟨n, hn⟩ := RangeSet.exists_mem hz.range_ne_nil
  obtain ⟨u, hu⟩ := exists_meet? (hsz.2 n hn) (htz.2 n hn)
  obtain ⟨hnormal, hw, hrange⟩ := meet?_eq_some hu
  refine ⟨u, hu, (covers_iff hnormal).2 ⟨hw.trans hsz.1, ?_⟩⟩
  intro m hm
  rw [hrange]
  exact RangeSet.mem_intersect.2 ⟨hsz.2 m hm, htz.2 m hm⟩

theorem map_key_normal? (w : IntegralWidth) (range : RangeSet) (wide : Option RangeSet) :
    (normal? w range wide).map key =
      if range.isEmpty then none else some (w.name ++ "|" ++ range.text) := by
  unfold normal?
  split <;> rfl

theorem key_meet?_comm {s t : IntegralSet} (hwidth : s.width = t.width) :
    (s.meet? t).map key = (t.meet? s).map key := by
  rw [meet?, meet?, combine?, combine?, map_key_normal?, map_key_normal?, hwidth,
    RangeSet.intersect_comm]

theorem meet?_of_covers {s t : IntegralSet} (hs : s.Normal) (ht : t.Normal)
    (hst : s.covers t = true) : ∃ u, s.meet? t = some u ∧ u.key = t.key := by
  obtain ⟨hwidth, hsub⟩ := (covers_iff hs).1 hst
  obtain ⟨u, hu, hcovers⟩ := exists_meet?_covers hs ht ht hst (covers_self t)
  obtain ⟨hnormal, hw, hrange⟩ := meet?_eq_some hu
  exact ⟨u, hu, covers_antisymm hnormal ht hcovers (covers_meet? hs ht hwidth hu).2⟩

theorem normal_negate? {s u : IntegralSet} (h : s.negate? = some u) : u.Normal :=
  (normal_normal? (RangeSet.canonical_subtract _ _) h).1

theorem normal_narrow? {s u : IntegralSet} {range : RangeSet} (h : s.narrow? range = some u) :
    u.Normal :=
  (normal_normal? (RangeSet.canonical_intersect _ _) h).1

theorem normal_toWide? {s u : IntegralSet} (hs : s.Normal) (h : s.toWide? = some u) :
    u.Normal := by
  unfold toWide? at h
  split at h
  · exact Option.some.inj h ▸ hs
  · next wide hwide => exact (normal_normal? (hs.wide_canonical wide hwide) h).1

/-! ## Valid sets -/

theorem Valid.normal {s : IntegralSet} (hs : s.Valid) : s.Normal :=
  ⟨hs.range_ne_empty, hs.range_canonical, hs.wide_canonical⟩

theorem mem_domain_of_between {w : IntegralWidth} {low high n : Int} (hlow : low ∈ w.domain)
    (hhigh : high ∈ w.domain) (h : low ≤ n ∧ n ≤ high) : n ∈ w.domain := by
  have hlow := IntegerType.mem_domain.1 hlow
  have hhigh := IntegerType.mem_domain.1 hhigh
  exact IntegerType.mem_domain.2 ⟨Int.le_trans hlow.1 h.1, Int.le_trans h.2 hhigh.2⟩

theorem union_in_domain {w : IntegralWidth} {s t : RangeSet} (hs : ∀ n ∈ s, n ∈ w.domain)
    (ht : ∀ n ∈ t, n ∈ w.domain) : ∀ n ∈ s.union t, n ∈ w.domain := by
  intro n hn
  obtain ⟨low, high, hlow, hhigh, h⟩ := RangeSet.between_of_mem_union hn
  exact mem_domain_of_between (hlow.elim (hs low) (ht low)) (hhigh.elim (hs high) (ht high)) h

/-- A recorded wide range lies inside the domain and has more members than the range. -/
theorem recordedWide_eq_some {w : IntegralWidth} {range wide recorded : RangeSet}
    (hrange : range.Canonical) (hdomain : ∀ n ∈ range, n ∈ w.domain)
    (h : recordedWide w range wide = some recorded) :
    (∀ n ∈ recorded, n ∈ w.domain) ∧ (∀ n ∈ range, n ∈ recorded) ∧
      ∃ n ∈ recorded, n ∉ range := by
  have hcanonical := canonical_recordedWide hrange h
  have hproper {extended : RangeSet} (hsub : ∀ n ∈ range, n ∈ extended)
      (hinside : ∀ n ∈ extended, n ∈ w.domain)
      (h : (if extended.isEmpty || extended == range then none else some extended) =
        some recorded) :
      (∀ n ∈ recorded, n ∈ w.domain) ∧ (∀ n ∈ range, n ∈ recorded) ∧
        ∃ n ∈ recorded, n ∉ range := by
    split at h
    · exact nomatch h
    · next hne =>
      obtain rfl := Option.some.inj h
      refine ⟨hinside, hsub, ?_⟩
      by_contra hnone
      have hall : ∀ n ∈ extended, n ∈ range := by
        intro n hn
        by_contra hout
        exact hnone ⟨n, hn, hout⟩
      have heq := hcanonical.ext hrange fun n => ⟨hall n, hsub n⟩
      exact hne (Bool.or_eq_true_iff.2 (.inr (beq_iff_eq.2 heq)))
  have hinside : ∀ n ∈ wide.intersect w.domain, n ∈ w.domain :=
    fun n hn => (RangeSet.mem_intersect.1 hn).2
  unfold recordedWide at h
  by_cases hall : (wide.intersect w.domain).containsAll range = true
  · simp only [if_pos hall] at h
    exact hproper (fun n hn => RangeSet.subset_of_containsAll hall hn) hinside h
  · simp only [if_neg hall] at h
    exact hproper (fun n hn => RangeSet.mem_union_of_mem (.inr hn))
      (union_in_domain hinside hdomain) h

theorem valid_normal? {w : IntegralWidth} {range : RangeSet} {wide : Option RangeSet}
    {s : IntegralSet} (hrange : range.Canonical) (hdomain : ∀ n ∈ range, n ∈ w.domain)
    (h : normal? w range wide = some s) : s.Valid := by
  obtain ⟨hnormal, rfl, rfl⟩ := normal_normal? hrange h
  have hwide : ∀ recorded ∈ s.wide, ∃ wide, recordedWide s.width s.range wide = some recorded := by
    intro recorded hrecorded
    unfold normal? at h
    split at h
    · exact nomatch h
    · rw [← Option.some.inj h] at hrecorded
      obtain ⟨wide, _, hwide⟩ := Option.bind_eq_some_iff.1 hrecorded
      exact ⟨wide, hwide⟩
  have hfacts : ∀ recorded ∈ s.wide, (∀ n ∈ recorded, n ∈ s.width.domain) ∧
      (∀ n ∈ s.range, n ∈ recorded) ∧ ∃ n ∈ recorded, n ∉ s.range := by
    intro recorded hrecorded
    obtain ⟨wide, hwide⟩ := hwide recorded hrecorded
    exact recordedWide_eq_some hrange hdomain hwide
  exact ⟨hnormal.range_ne_nil, hrange, hdomain, hnormal.wide_canonical,
    fun u hu => (hfacts u hu).1, fun u hu => (hfacts u hu).2.1, fun u hu => (hfacts u hu).2.2⟩

theorem valid_point {w : IntegralWidth} {n : Int} (hn : n ∈ w.domain) : (point w n).Valid := by
  have hsome : normal? w (.point n) none = some (point w n) := rfl
  exact valid_normal? (RangeSet.canonical_point n)
    (fun _ hm => RangeSet.mem_singleton_point.1 hm ▸ hn) hsome

theorem valid_all (w : IntegralWidth) : (all w).Valid := by
  have hsome : normal? w w.domain none = some (all w) :=
    normal?_eq_some w none (normal_all w).range_ne_nil
  exact valid_normal? (IntegerType.canonical_domain _) (fun _ hn => hn) hsome

theorem valid_join? {s t u : IntegralSet} (hs : s.Valid) (ht : t.Valid)
    (hwidth : s.width = t.width) (h : s.join? t = some u) : u.Valid :=
  valid_normal? (RangeSet.canonical_union hs.range_canonical ht.range_canonical)
    (union_in_domain hs.range_in_domain (hwidth ▸ ht.range_in_domain)) h

theorem valid_meet? {s t u : IntegralSet} (hs : s.Valid) (h : s.meet? t = some u) : u.Valid :=
  valid_normal? (RangeSet.canonical_intersect _ _)
    (fun n hn => hs.range_in_domain n (RangeSet.mem_intersect.1 hn).1) h

theorem valid_negate? {s u : IntegralSet} (h : s.negate? = some u) : u.Valid :=
  valid_normal? (RangeSet.canonical_subtract _ _)
    (fun _ hn => (RangeSet.mem_subtract.1 hn).1) h

theorem valid_narrow? {s u : IntegralSet} {range : RangeSet} (hs : s.Valid)
    (h : s.narrow? range = some u) : u.Valid :=
  valid_normal? (RangeSet.canonical_intersect _ _)
    (fun n hn => hs.range_in_domain n (RangeSet.mem_intersect.1 hn).1) h

theorem valid_toWide? {s u : IntegralSet} (hs : s.Valid) (h : s.toWide? = some u) : u.Valid := by
  unfold toWide? at h
  split at h
  · exact Option.some.inj h ▸ hs
  · next wide hwide =>
    exact valid_normal? (hs.wide_canonical wide hwide) (hs.wide_in_domain wide hwide) h

/-! ## Wide ranges -/

theorem canonical_effectiveWide {s : IntegralSet} (hs : s.Valid) : s.effectiveWide.Canonical := by
  rw [effectiveWide]
  cases hwide : s.wide with
  | none => exact hs.range_canonical
  | some wide => exact hs.wide_canonical wide hwide

theorem effectiveWide_in_domain {s : IntegralSet} (hs : s.Valid) :
    ∀ n ∈ s.effectiveWide, n ∈ s.width.domain := by
  rw [effectiveWide]
  cases hwide : s.wide with
  | none => exact hs.range_in_domain
  | some wide => exact hs.wide_in_domain wide hwide

theorem mem_effectiveWide {s : IntegralSet} (hs : s.Valid) {n : Int} (hn : n ∈ s.range) :
    n ∈ s.effectiveWide := by
  unfold effectiveWide
  cases hwide : s.wide with
  | none => exact hn
  | some wide => exact hs.range_in_wide wide hwide n hn

/-- Widening returns to the effective wide range. -/
theorem toWide?_eq {s : IntegralSet} (hs : s.Valid) :
    s.toWide? = some ⟨s.width, s.effectiveWide, none⟩ := by
  obtain ⟨n, hn⟩ := RangeSet.exists_mem hs.range_ne_empty
  have hne := RangeSet.intervals_ne_nil (mem_effectiveWide hs hn)
  rcases s with ⟨w, range, _ | wide⟩
  · rfl
  · exact normal?_eq_some w none hne

/-- What a wide range has in the domain is recorded, unless the range beside it has it all. -/
theorem mem_getD_recordedWide {w : IntegralWidth} {range wide : RangeSet} {n : Int}
    (hwide : n ∈ wide) (hdomain : n ∈ w.domain) : n ∈ (recordedWide w range wide).getD range := by
  have hrecorded {extended : RangeSet} (h : n ∈ extended) :
      n ∈ (if extended.isEmpty || extended == range then none else some extended).getD range := by
    split
    · next hnone =>
      rcases Bool.or_eq_true_iff.1 hnone with hempty | heq
      · exact absurd (List.isEmpty_iff.1 hempty) (RangeSet.intervals_ne_nil h)
      · exact eq_of_beq heq ▸ h
    · exact h
  have hinside : n ∈ wide.intersect w.domain := RangeSet.mem_intersect.2 ⟨hwide, hdomain⟩
  unfold recordedWide
  by_cases hall : (wide.intersect w.domain).containsAll range = true
  · simp only [if_pos hall]
    exact hrecorded hinside
  · simp only [if_neg hall]
    exact hrecorded (RangeSet.mem_union_of_mem (.inl hinside))

/-- The range of a set of integers is not recorded as its own wide range. -/
theorem recordedWide_self {w : IntegralWidth} {range : RangeSet} (hrange : range.Canonical)
    (hdomain : ∀ n ∈ range, n ∈ w.domain) : recordedWide w range range = none := by
  rw [recordedWide, RangeSet.intersect_eq_self hrange hdomain]
  simp

/-- A wide range around a range is recorded as it is. -/
theorem recordedWide_of_proper {w : IntegralWidth} {range wide : RangeSet}
    (hwide : wide.Canonical) (hdomain : ∀ n ∈ wide, n ∈ w.domain) (hsub : ∀ n ∈ range, n ∈ wide)
    (hproper : ∃ n ∈ wide, n ∉ range) : recordedWide w range wide = some wide := by
  obtain ⟨n, hn, hout⟩ := hproper
  rw [recordedWide, RangeSet.intersect_eq_self hwide hdomain]
  simp only [if_pos ((RangeSet.containsAll_iff hwide).2 hsub)]
  rw [if_neg]
  intro h
  rcases Bool.or_eq_true_iff.1 h with hempty | heq
  · exact RangeSet.intervals_ne_nil hn (List.isEmpty_iff.1 hempty)
  · exact hout (eq_of_beq heq ▸ hn)

/-- Widening a join may return to whatever widening its operands may return to. -/
theorem mem_effectiveWide_join? {s t u : IntegralSet} (hs : s.Valid) (ht : t.Valid)
    (hwidth : s.width = t.width) (h : s.join? t = some u) {n : Int}
    (hn : n ∈ s.effectiveWide ∨ n ∈ t.effectiveWide) : n ∈ u.effectiveWide := by
  have hdomain : n ∈ s.width.domain := by
    rcases hn with hn | hn
    · exact effectiveWide_in_domain hs n hn
    · exact hwidth ▸ effectiveWide_in_domain ht n hn
  rw [eq_of_normal?_eq_some h]
  show n ∈ ((combinedWide RangeSet.union s t).bind _).getD _
  unfold combinedWide
  split
  · next hnone =>
    obtain ⟨hsnone, htnone⟩ := Bool.and_eq_true_iff.1 hnone
    rw [effectiveWide, effectiveWide, Option.isNone_iff_eq_none.1 hsnone,
      Option.isNone_iff_eq_none.1 htnone] at hn
    exact RangeSet.mem_union_of_mem hn
  · exact mem_getD_recordedWide (RangeSet.mem_union_of_mem hn) hdomain

/-- A join records a wide range only if its operands have more to return to than the first of
them contains. -/
theorem wide_join?_eq_none {s t u : IntegralSet} (hs : s.Valid) (ht : t.Valid)
    (hnone : s.wide = none) (hwide : ∀ wide ∈ t.wide, s.range.containsAll wide = true)
    (h : s.join? t = some u) : u.wide = none := by
  rw [eq_of_normal?_eq_some h]
  show (combinedWide RangeSet.union s t).bind _ = none
  cases htwide : t.wide with
  | none => simp [combinedWide, hnone, htwide]
  | some wide =>
    have hcontains := hwide wide htwide
    have hranges : s.range.union t.range = s.range :=
      if_pos ((RangeSet.containsAll_iff hs.range_canonical).2 fun n hn =>
        RangeSet.subset_of_containsAll hcontains (ht.range_in_wide wide htwide n hn))
    have hwides : s.range.union wide = s.range := if_pos hcontains
    simp only [combinedWide, effectiveWide, hnone, htwide, hranges, hwides, Option.getD_none,
      Option.getD_some, Option.isNone_none, Option.isNone_some, Bool.and_false]
    exact recordedWide_self hs.range_canonical hs.range_in_domain

end ValueLattice.IntegralSet
