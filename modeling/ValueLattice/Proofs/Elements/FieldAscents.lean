import ValueLattice.Proofs.Elements.Ascents

/-!
# Iterations over special fields

Only sets of integers are widened, and those in special fields are not: a reference widens to its
join, whatever it tracks. So an iteration over references with a special field unites the values of
the field, and ascends whenever a value is not among the united ones.

* `widen_eq_join`: references widen to their join;
* `join_withField`: references of one shape join to the reference with the united values;
* `ascents_withField`: the states and the ascending steps of an iteration over such references;
* `not_bounded_withField`: so a field that grows by one integer at each step is followed one by one.
-/

namespace ValueLattice

namespace Element

variable {r : Registry} {id : HierarchyId} {v : Vocabulary} {strategy : Strategy}

/-- References widen to their join, whatever their special fields hold. -/
theorem widen_eq_join {old new : Element} (hold : old.kind ∈ referenceKinds) :
    widen r strategy old new = join r old new := by
  rcases widen_cases r strategy old new with h | ⟨u, hjoin, _, _⟩
  · exact h
  · rcases integral_of_join_eq hjoin with ⟨rfl, _⟩ | ⟨rfl, _⟩ | ⟨s, t, rfl, _⟩
    · exact absurd hold (by decide)
    · exact absurd hold (by decide : ElementKind.integral ∉ referenceKinds)
    · exact absurd hold (by decide : ElementKind.integral ∉ referenceKinds)

/-- References of a shape that bind a special field to integers of a range. -/
def withField (shape : ObjectShape) (name : String) (w : IntegralWidth) (range : RangeSet) :
    Element :=
  object shape (some (name, integral ⟨w, range, none⟩))

variable {shape : ObjectShape} {name : String} {w : IntegralWidth}

theorem withField_covers_iff {s t : RangeSet} :
    covers r (withField shape name w s) (withField shape name w t) = true ↔
      s.containsAll t = true := by
  simp [withField, covers, IntegralSet.covers]

theorem absorbs_withField (s t : RangeSet) :
    absorbs r shape (some (name, integral ⟨w, s, none⟩)) shape.nullability
      (withField shape name w t) = s.containsAll t := by
  have hcovers : covers r (withField shape name w s) (withField shape name w t) = s.containsAll t :=
    Bool.eq_iff_iff.2 withField_covers_iff
  show (covers r (withField shape name w s) (withField shape name w t) && _) = _
  simp [hcovers, ObjectNullability.join]

theorem join_integral_of_wide_eq_none {s t : RangeSet} (hs : s.intervals ≠ []) :
    join r (integral ⟨w, s, none⟩) (integral ⟨w, t, none⟩) = integral ⟨w, s.union t, none⟩ := by
  have hne : (s.union t).intervals ≠ [] := by
    obtain ⟨n, hn⟩ := RangeSet.exists_mem hs
    exact RangeSet.intervals_ne_nil (RangeSet.mem_union_of_mem (.inl hn))
  rw [integral_join, joinIntegral_integral, if_pos rfl]
  exact congrArg ofIntegral? (IntegralSet.normal?_eq_some w none hne)

/-- References of one shape join to the reference with the united values. -/
theorem join_withField (hw : (r.hierarchy id).WellFormed) (hshape : shape.Normal r id v.type)
    {s t : RangeSet} (hs : s.intervals ≠ []) :
    join r (withField shape name w s) (withField shape name w t) =
      withField shape name w (s.union t) := by
  have hjoin : joinField? r (some (name, integral ⟨w, s, none⟩))
      (some (name, integral ⟨w, t, none⟩)) = some (name, integral ⟨w, s.union t, none⟩) := by
    rw [joinField?, if_pos rfl, join_integral_of_wide_eq_none hs]
    rfl
  rw [withField, withField, join_object_object]
  change (if absorbs r shape (some (name, integral ⟨w, s, none⟩)) shape.nullability
      (withField shape name w t) = true then withField shape name w s
    else if absorbs r shape (some (name, integral ⟨w, t, none⟩)) shape.nullability
      (withField shape name w s) = true then withField shape name w t
    else joinObject r shape _ shape _) = _
  rw [absorbs_withField, absorbs_withField]
  -- The union takes the same way as the join: an operand that contains the other one, or both.
  by_cases hst : s.containsAll t = true
  · rw [if_pos hst, RangeSet.union, if_pos hst]
  · by_cases hts : t.containsAll s = true
    · rw [if_neg hst, if_pos hts, RangeSet.union, if_neg hst, if_pos hts]
    · rw [if_neg hst, if_neg hts, joinObject, ObjectShape.join_self hw hshape, hjoin]
      rfl

/-! ## Runs -/

/-- The union of the first values of a sequence, united one after the other. -/
def unions (values : ℕ → RangeSet) : ℕ → RangeSet
  | 0 => values 0
  | n + 1 => (unions values n).union (values (n + 1))

/-- The iteration over references of one shape, from the first one. -/
def fieldRun (r : Registry) (strategy : Strategy) (shape : ObjectShape) (name : String)
    (w : IntegralWidth) (values : ℕ → RangeSet) : ℕ → Element :=
  widenRun r strategy (withField shape name w (values 0))
    fun n => withField shape name w (values (n + 1))

variable {values : ℕ → RangeSet}

theorem canonical_unions (hvalues : ∀ n, (values n).Canonical) (n : ℕ) :
    (unions values n).Canonical := by
  induction n with
  | zero => exact hvalues 0
  | succ n ih => exact RangeSet.canonical_union ih (hvalues (n + 1))

theorem unions_ne_nil (hvalues : (values 0).intervals ≠ []) (n : ℕ) :
    (unions values n).intervals ≠ [] := by
  induction n with
  | zero => exact hvalues
  | succ n ih =>
    obtain ⟨m, hm⟩ := RangeSet.exists_mem ih
    exact RangeSet.intervals_ne_nil (RangeSet.mem_union_of_mem (.inl hm))

/-- The states bind the field to the united values. -/
theorem fieldRun_eq (hw : (r.hierarchy id).WellFormed) (hshape : shape.Normal r id v.type)
    (hvalues : (values 0).intervals ≠ []) (n : ℕ) :
    fieldRun r strategy shape name w values n = withField shape name w (unions values n) := by
  induction n with
  | zero => rfl
  | succ n ih =>
    have hkind : (withField shape name w (unions values n)).kind ∈ referenceKinds :=
      object_kind_mem _ _
    calc fieldRun r strategy shape name w values (n + 1)
        = widen r strategy (fieldRun r strategy shape name w values n)
            (withField shape name w (values (n + 1))) := rfl
      _ = join r (withField shape name w (unions values n))
            (withField shape name w (values (n + 1))) := by rw [ih, widen_eq_join hkind]
      _ = withField shape name w (unions values (n + 1)) :=
          join_withField hw hshape (unions_ne_nil hvalues n)

/-- A union ascends exactly if it adds something. -/
theorem containsAll_union_iff {s t : RangeSet} (hs : s.Canonical) :
    s.containsAll (s.union t) = true ↔ ∀ n ∈ t, n ∈ s := by
  constructor
  · intro h n hn
    exact RangeSet.subset_of_containsAll h (RangeSet.mem_union_of_mem (.inr hn))
  · intro h
    have hst : s.containsAll t = true := (RangeSet.containsAll_iff hs).2 h
    rw [RangeSet.union, if_pos hst, RangeSet.containsAll_self]

theorem mem_ascents_fieldRun_iff (hw : (r.hierarchy id).WellFormed)
    (hshape : shape.Normal r id v.type)
    (hvalues : ∀ n, IntegralSet.Normal ⟨w, values n, none⟩) {n : ℕ} :
    n ∈ ascents r (fieldRun r strategy shape name w values) ↔
      ∃ m ∈ values (n + 1), m ∉ unions values n := by
  show ¬ covers r _ _ = true ↔ _
  have hne := (hvalues 0).range_ne_nil
  have hcanonical := canonical_unions (fun n => (hvalues n).canonical) n
  rw [fieldRun_eq hw hshape hne, fieldRun_eq hw hshape hne, withField_covers_iff, unions,
    containsAll_union_iff hcanonical]
  simp

/-- What is made of references with a special field over one hierarchy is normal. -/
theorem normal_withField
    (hbuilt : ∀ n, Built r id .any (withField shape name w (values n))) :
    shape.Normal r id Vocabulary.any.type ∧
      ∀ n, IntegralSet.Normal ⟨w, values n, none⟩ := by
  have hnormal : ∀ n, (withField shape name w (values n)).Normal r id .any := fun n =>
    (hbuilt n).normal fun _ _ _ => trivial
  exact ⟨(normal_object_iff.1 (hnormal 0)).1, fun n => normal_value (hnormal n) rfl⟩

/-- An iteration over references that differ in the integers of a special field unites these
integers, under every strategy, and a step ascends exactly if its integers are not among the united
ones. -/
theorem ascents_withField (hw : (r.hierarchy id).WellFormed) (strategy : Strategy)
    (hbuilt : ∀ n, Built r id .any (withField shape name w (values n))) :
    (∀ n, fieldRun r strategy shape name w values n = withField shape name w (unions values n)) ∧
      ascents r (fieldRun r strategy shape name w values) =
        {n | ∃ m ∈ values (n + 1), m ∉ unions values n} := by
  obtain ⟨hshape, hvalues⟩ := normal_withField hbuilt
  exact ⟨fieldRun_eq hw hshape (hvalues 0).range_ne_nil,
    Set.ext fun n => mem_ascents_fieldRun_iff hw hshape hvalues⟩

/-! ## A text that grows -/

/-- What is known of a text that is not null: its length is one of a range. -/
def textShape : ObjectShape := ⟨.nominal 0 (.bounds ["CharSequence"]), .notNull, .unknown, false⟩

/-- The lengths of a text that may have grown by a unit at each step, as long as they are `int`
values. -/
def lengths (n : ℕ) : RangeSet := .range 0 (min n (2 ^ 30) : ℕ)

theorem canonical_lengths (n : ℕ) : (lengths n).Canonical := RangeSet.canonical_range _ _

theorem built_lengths (n : ℕ) :
    Built textRegistry 0 .any (withField textShape lengthField .int (lengths n)) := by
  have hdomain : ∀ m ∈ lengths n, m ∈ IntegralWidth.int.domain := by
    intro m hm
    obtain ⟨hlow, hle⟩ := RangeSet.mem_range.1 hm
    exact mem_int_domain hlow (by omega)
  have hne : (lengths n).intervals ≠ [] :=
    RangeSet.intervals_ne_nil (RangeSet.mem_range.2 ⟨Int.le_refl 0, Int.natCast_nonneg _⟩)
  have hcontains : IntegralWidth.int.domain.containsAll (lengths n) = true :=
    (RangeSet.containsAll_iff (IntegerType.canonical_domain _)).2 hdomain
  have hlength : ofRange .int (lengths n) = .ok (integral ⟨.int, lengths n, none⟩) := by
    rw [ofRange, if_pos hcontains, ofRangeWithWide, IntegralSet.normal?_eq_some _ _ hne]
    rfl
  exact built_sized trivial (by decide) hlength

theorem ascents_withField_lengths :
    (textRegistry.hierarchy 0).WellFormed ∧
      (∀ n, Built textRegistry 0 .any (withField textShape lengthField .int (lengths n))) ∧
      (∀ n, fieldRun textRegistry .wideRange textShape lengthField .int lengths n =
        withField textShape lengthField .int (unions lengths n)) ∧
      ascents textRegistry (fieldRun textRegistry .wideRange textShape lengthField .int lengths) =
        {n | ∃ m ∈ lengths (n + 1), m ∉ unions lengths n} :=
  ⟨wellFormed_texts, built_lengths, ascents_withField wellFormed_texts .wideRange built_lengths⟩

theorem unions_lengths (n : ℕ) : unions lengths n = lengths n := by
  induction n with
  | zero => rfl
  | succ n ih =>
    have hcontains : (lengths (n + 1)).containsAll (lengths n) = true := by
      refine (RangeSet.containsAll_iff (canonical_lengths _)).2 fun m hm => ?_
      have hbounds := RangeSet.mem_range.1 hm
      exact RangeSet.mem_range.2 (by omega)
    rw [unions, ih, RangeSet.union_comm (canonical_lengths n) (canonical_lengths (n + 1))]
    exact if_pos hcontains

/-- The steps that ascend are not bounded where a special field grows, whatever the strategy. -/
theorem not_bounded_withField :
    (∀ n, Built textRegistry 0 .any (withField textShape lengthField .int (lengths n))) ∧
      ∀ strategy : Strategy, ¬ (ascents textRegistry
        (fieldRun textRegistry strategy textShape lengthField .int lengths)).encard ≤ 3 := by
  obtain ⟨hshape, hvalues⟩ := normal_withField built_lengths
  refine ⟨built_lengths, fun strategy hle => ?_⟩
  have hgrows : ∀ n < 2 ^ 30, n ∈ ascents textRegistry
      (fieldRun textRegistry strategy textShape lengthField .int lengths) := by
    intro n hn
    refine (mem_ascents_fieldRun_iff wellFormed_texts hshape hvalues).2 ⟨(n + 1 : ℕ), ?_, ?_⟩
    · exact RangeSet.mem_range.2 (by omega)
    · rw [unions_lengths]
      intro h
      have hbounds := RangeSet.mem_range.1 h
      omega
  exact absurd ((le_encard_of_forall_lt hgrows).trans hle) (by decide)

end Element

end ValueLattice
