import ValueLattice.Proofs.RangeSets

/-!
# The laws of range sets

What holds of all range sets, however they were made:

* `canonical_laws`: their intervals are canonical, so equality, texts, inclusion, bounds and
  constants can be read off the list of intervals;
* `ofIntervals_eq_merged`: adding intervals one by one makes the same set as sorting them first and
  merging them in one pass;
* `exact_laws`: conversion from intervals, intersection, difference and removal of a member are
  exact, for all integers.
-/

namespace ValueLattice.RangeSet

/-! ## Canonical form -/

/-- The intervals of sets that the operations make are not empty, ascend and lie apart. Two such
sets are equal exactly if their texts are equal, and exactly if they have the same members; interval
by interval comparison decides inclusion; the bounds are the least and the greatest member, and the
constant is the only member. -/
theorem canonical_laws {s t : RangeSet} (hs : s.Built) (ht : t.Built) :
    (∀ i ∈ s.intervals, i.low ≤ i.high) ∧ s.intervals.Pairwise (fun i j => i.high + 1 < j.low) ∧
      ((s == t) = true ↔ s.text = t.text) ∧
      ((s == t) = true ↔ ∀ n, s.contains n = t.contains n) ∧
      (s.containsAll t = true ↔ ∀ n, t.contains n = true → s.contains n = true) ∧
      (∀ n, s.min? = some n ↔ n ∈ s ∧ ∀ m ∈ s, n ≤ m) ∧ (s.min? = none ↔ s.isEmpty = true) ∧
      (∀ n, s.max? = some n ↔ n ∈ s ∧ ∀ m ∈ s, m ≤ n) ∧ (s.max? = none ↔ s.isEmpty = true) ∧
      (s.isEmpty = true ↔ ∀ n, n ∉ s) ∧
      (∀ v, s.constant? = some v ↔ ∀ n, n ∈ s ↔ n = v) := by
  have hsc := hs.canonical
  have htc := ht.canonical
  have htext : (s == t) = true ↔ s.text = t.text := by
    rw [beq_iff_eq]
    exact ⟨congrArg text, text_inj⟩
  have hmembers : (s == t) = true ↔ ∀ n, s.contains n = t.contains n := by
    rw [beq_iff_eq]
    constructor
    · rintro rfl n
      rfl
    · intro h
      exact hsc.ext htc fun n => by rw [← contains_eq_true, h n, contains_eq_true]
  have hinclusion : s.containsAll t = true ↔ ∀ n, t.contains n = true → s.contains n = true := by
    simp only [containsAll_iff hsc, contains_eq_true]
  have hempty : s.isEmpty = true ↔ ∀ n, n ∉ s := by
    rw [← intervals_eq_nil_iff, isEmpty, List.isEmpty_iff]
  exact ⟨fun i _ => i.low_le_high, hsc, htext, hmembers, hinclusion,
    fun n => hsc.min?_eq_some_iff, min?_eq_none_iff.trans hempty.symm,
    fun n => hsc.max?_eq_some_iff, max?_eq_none_iff.trans hempty.symm,
    hempty, fun v => hsc.constant?_eq_some_iff⟩

theorem canonical_laws_touching :
    let s := ofIntervals [.mk 5 9, .point 20, .mk 1 4]
    let t := (range 1 20).subtract (range 10 19)
    s.Built ∧ t.Built ∧ (∀ n, s.contains n = t.contains n) ∧ s.containsAll t = true ∧
      (∀ n ∈ s, 1 ≤ n) ∧ (∀ n ∈ s, n ≤ 20) := by
  intro s t
  have hs : s.Built := .ofIntervals _
  have ht : t.Built := .subtract (.range 1 20) (.range 10 19)
  obtain ⟨_, _, htext, hmembers, hinclusion, hmin, _, hmax, _⟩ := canonical_laws hs ht
  have hequal : ∀ n, s.contains n = t.contains n := hmembers.1 (htext.2 (by rfl))
  exact ⟨hs, ht, hequal, hinclusion.2 fun n hn => (hequal n).trans hn,
    ((hmin 1).1 (by rfl)).2, ((hmax 20).1 (by rfl)).2⟩

/-! ## Sorting and merging -/

/-- Merges intervals in the order they come in: each one joins the run before it if it touches it,
and begins a run of its own otherwise. -/
def sweep (run : Interval) : List Interval → List Interval
  | [] => [run]
  | i :: l => if run.touches i then sweep (run.hull i) l else run :: sweep i l

/-- The runs of any intervals: these are sorted by their lower bounds and then merged in one pass. -/
def merged (l : List Interval) : RangeSet :=
  match l.mergeSort (fun i j => decide (i.low ≤ j.low)) with
  | [] => empty
  | i :: rest => ⟨sweep i rest⟩

theorem mem_sweep {run : Interval} {l : List Interval} {n : Int} :
    (∃ j ∈ sweep run l, n ∈ j) ↔ ∃ j ∈ run :: l, n ∈ j := by
  induction l generalizing run with
  | nil => simp only [sweep]
  | cons i l ih =>
    unfold sweep
    split
    · next htouch =>
      rw [ih]
      simp only [List.mem_cons, exists_eq_or_imp, Interval.mem_hull_of_touches htouch, or_assoc]
    · simp only [List.mem_cons, exists_eq_or_imp, ih]

/-- No run of ascending intervals begins below the first interval. -/
theorem low_le_sweep {run : Interval} {l : List Interval}
    (h : (run :: l).Pairwise fun i j => i.low ≤ j.low) : ∀ j ∈ sweep run l, run.low ≤ j.low := by
  induction l generalizing run with
  | nil =>
    intro j hj
    rw [List.mem_singleton.1 hj]
  | cons i l ih =>
    obtain ⟨hrun, hrest⟩ := List.pairwise_cons.1 h
    have hri : run.low ≤ i.low := hrun i List.mem_cons_self
    unfold sweep
    split
    · intro j hj
      have hhull : (run.hull i).low = run.low := Int.min_eq_left hri
      have hsorted : (run.hull i :: l).Pairwise fun i j => i.low ≤ j.low := by
        refine List.pairwise_cons.2 ⟨fun k hk => ?_, (List.pairwise_cons.1 hrest).2⟩
        rw [hhull]
        exact hrun k (List.mem_cons_of_mem i hk)
      exact hhull ▸ ih hsorted j hj
    · intro j hj
      rcases List.mem_cons.1 hj with rfl | hj
      · exact Int.le_refl _
      · exact Int.le_trans hri (ih hrest j hj)

/-- The runs of ascending intervals lie apart: an interval that does not touch the run before it
begins above it, and so does whatever comes later. -/
theorem pairwise_sweep {run : Interval} {l : List Interval}
    (h : (run :: l).Pairwise fun i j => i.low ≤ j.low) : (sweep run l).Pairwise Apart := by
  induction l generalizing run with
  | nil => exact List.pairwise_singleton _ _
  | cons i l ih =>
    obtain ⟨hrun, hrest⟩ := List.pairwise_cons.1 h
    have hri : run.low ≤ i.low := hrun i List.mem_cons_self
    unfold sweep
    split
    · refine ih (List.pairwise_cons.2 ⟨fun k hk => ?_, (List.pairwise_cons.1 hrest).2⟩)
      have hrk : run.low ≤ k.low := hrun k (List.mem_cons_of_mem i hk)
      exact Int.le_trans (Int.min_le_left _ _) hrk
    · next htouch =>
      refine List.pairwise_cons.2 ⟨fun j hj => ?_, ih hrest⟩
      have hij : i.low ≤ j.low := low_le_sweep hrest j hj
      have hi := i.low_le_high
      simp only [Interval.touches, Bool.and_eq_true, decide_eq_true_eq, not_and] at htouch
      have habove := htouch (by omega)
      show run.high + 1 < j.low
      omega

/-- Adding intervals one by one makes the set of their runs. -/
theorem ofIntervals_eq_merged (l : List Interval) : ofIntervals l = merged l := by
  let le (i j : Interval) : Bool := decide (i.low ≤ j.low)
  have hsorted : (l.mergeSort le).Pairwise fun i j => i.low ≤ j.low := by
    have htrans (i j k : Interval) : le i j = true → le j k = true → le i k = true := by
      simp only [le, decide_eq_true_eq]
      exact Int.le_trans
    have htotal (i j : Interval) : (le i j || le j i) = true := by
      simp only [le, Bool.or_eq_true, decide_eq_true_eq]
      exact Int.le_total _ _
    exact (List.pairwise_mergeSort htrans htotal l).imp of_decide_eq_true
  have hperm : (l.mergeSort le).Perm l := List.mergeSort_perm l le
  have hmem {n : Int} : (∃ i ∈ l.mergeSort le, n ∈ i) ↔ ∃ i ∈ l, n ∈ i :=
    exists_congr fun i => and_congr_left' hperm.mem_iff
  show ofIntervals l = match l.mergeSort le with | [] => empty | i :: rest => ⟨sweep i rest⟩
  cases hl : l.mergeSort le with
  | nil =>
    rw [hl] at hmem
    refine (canonical_ofIntervals l).ext canonical_empty fun n => ?_
    rw [mem_ofIntervals, ← hmem]
    simp
  | cons i rest =>
    rw [hl] at hmem hsorted
    refine (canonical_ofIntervals l).ext (pairwise_sweep hsorted) fun n => ?_
    rw [mem_ofIntervals, ← hmem]
    exact mem_sweep.symm

/-! ## Exact operations -/

/-- Lists of intervals with the same members make the same set. -/
theorem ofIntervals_congr {l l' : List Interval} (h : ∀ n, (∃ i ∈ l, n ∈ i) ↔ ∃ i ∈ l', n ∈ i) :
    ofIntervals l = ofIntervals l' :=
  (canonical_ofIntervals l).ext (canonical_ofIntervals l') fun n => by
    rw [mem_ofIntervals, mem_ofIntervals, h n]

theorem intersects_iff {s t : RangeSet} : s.intersects t = true ↔ ∃ n, n ∈ s ∧ n ∈ t := by
  have hnone : (s.intersect t).isEmpty = true ↔ ∀ n, n ∉ s.intersect t := by
    rw [isEmpty, List.isEmpty_iff, intervals_eq_nil_iff]
  rw [intersects, Bool.not_eq_true', ← Bool.not_eq_true, hnone, not_forall_not]
  simp only [mem_intersect]

/-- Making sets from intervals loses and adds nothing, so neither the order of the intervals nor
merging some of them beforehand matters; common members, differences and removals are exact. -/
theorem exact_laws (l : List Interval) (s t : RangeSet) :
    (∀ n, (ofIntervals l).contains n = true ↔ ∃ i ∈ l, i.contains n = true) ∧
      (∀ l', l'.Perm l → ofIntervals l' = ofIntervals l) ∧
      (∀ groups : List (List Interval), groups.flatten.Perm l →
        ofIntervals (groups.flatMap fun g => (ofIntervals g).intervals) = ofIntervals l) ∧
      (∀ n, (s.intersect t).contains n = (s.contains n && t.contains n)) ∧
      (∀ n, (s.subtract t).contains n = (s.contains n && !t.contains n)) ∧
      (∀ v n, (s.without v).contains n = (s.contains n && n != v)) ∧
      (s.intersects t = true ↔ ∃ n, s.contains n = true ∧ t.contains n = true) := by
  refine ⟨?intervals, ?order, ?groups, ?intersect, ?subtract, ?without, ?intersects⟩
  case intervals =>
    intro n
    simp only [contains_eq_true, mem_ofIntervals, Interval.contains_eq_true]
  case order =>
    intro l' hperm
    exact ofIntervals_congr fun n => exists_congr fun i => and_congr_left' hperm.mem_iff
  case groups =>
    intro groups hperm
    apply ofIntervals_congr
    intro n
    have hgroup (g : List Interval) : (∃ i ∈ (ofIntervals g).intervals, n ∈ i) ↔ ∃ i ∈ g, n ∈ i :=
      mem_ofIntervals
    have hmembers (f : List Interval → List Interval) :
        (∃ i ∈ groups.flatMap f, n ∈ i) ↔ ∃ g ∈ groups, ∃ i ∈ f g, n ∈ i := by
      simp only [List.mem_flatMap]
      constructor
      · rintro ⟨i, ⟨g, hg, hi⟩, hn⟩
        exact ⟨g, hg, i, hi, hn⟩
      · rintro ⟨g, hg, i, hi, hn⟩
        exact ⟨i, ⟨g, hg, hi⟩, hn⟩
    calc (∃ i ∈ groups.flatMap fun g => (ofIntervals g).intervals, n ∈ i)
        ↔ ∃ g ∈ groups, ∃ i ∈ (ofIntervals g).intervals, n ∈ i := hmembers _
      _ ↔ ∃ g ∈ groups, ∃ i ∈ g, n ∈ i := by simp only [hgroup]
      _ ↔ ∃ i ∈ groups.flatMap id, n ∈ i := (hmembers id).symm
      _ ↔ ∃ i ∈ l, n ∈ i := by
          rw [List.flatMap_id]
          exact exists_congr fun i => and_congr_left' hperm.mem_iff
  case intersect =>
    intro n
    rw [Bool.eq_iff_iff, Bool.and_eq_true]
    simp only [contains_eq_true, mem_intersect]
  case subtract =>
    intro n
    rw [Bool.eq_iff_iff, Bool.and_eq_true, Bool.not_eq_true', ← Bool.not_eq_true]
    simp only [contains_eq_true, mem_subtract]
  case without =>
    intro v n
    rw [Bool.eq_iff_iff, Bool.and_eq_true, bne_iff_ne]
    simp only [contains_eq_true, mem_without]
  case intersects =>
    simp only [contains_eq_true]
    exact intersects_iff

theorem exact_laws_touching :
    let i : Interval := .mk 1 4
    let j : Interval := .mk 5 9
    [j, i].Perm [i, j] ∧ ofIntervals [j, i] = ofIntervals [i, j] ∧
      ((range 1 9).subtract (range 3 6)).contains 6 = false ∧
      (range 1 9).intersects (range 9 12) = true := by
  intro i j
  have hperm : [j, i].Perm [i, j] := .swap i j []
  obtain ⟨_, horder, _, _, hsubtract, _⟩ := exact_laws [i, j] (range 1 9) (range 3 6)
  obtain ⟨_, _, _, _, _, _, hintersects⟩ := exact_laws [i, j] (range 1 9) (range 9 12)
  exact ⟨hperm, horder [j, i] hperm, hsubtract 6, hintersects.2 ⟨9, by rfl, by rfl⟩⟩

end ValueLattice.RangeSet
