import ValueLattice.Proofs.Elements.Checked
import ValueLattice.Proofs.Elements.Lattice

/-!
# Widening

A widened set of integers has the members of the joined set, because whatever it may jump to lies
around the joined set: a recorded wide range contains the range beside it, and the domain of a width
contains all sets of that width.

* `integral_of_join_eq`, `integral_of_meet_eq`: which joins and meets are sets of integers;
* `Built.integersValid`: so the sets of integers among the elements of an analysis are valid;
* `widen_cases`: what widening returns, `widenTarget_covers`: and what it may jump to;
* `covers_join_of_covers`: outside the references, what contains an element contains their join;
* `widen_laws`: widening is an upper bound, and leaves an old element alone that contains the new one.
-/

namespace ValueLattice.Element

variable {r : Registry} {id : HierarchyId} {v : Vocabulary}

/-! ## Sets of integers among the elements -/

theorem eq_some_of_ofIntegral?_eq {s : Option IntegralSet} {u : IntegralSet}
    (h : ofIntegral? s = integral u) : s = some u := by
  cases s with
  | none => exact nomatch h
  | some t => exact congrArg some (integral.inj h)

/-- Only sets of integers, or one of them and nothing, join to a set of integers. -/
theorem integral_of_join_eq {a b : Element} {u : IntegralSet} (h : join r a b = integral u) :
    (a = bottom ∧ b = integral u) ∨ (a = integral u ∧ b = bottom) ∨
      ∃ s t, a = integral s ∧ b = integral t ∧ s.width = t.width ∧ s.join? t = some u := by
  cases a using inductionOnFields with
  | bottom => exact .inl ⟨rfl, h⟩
  | integral s =>
    cases b with
    | bottom => exact .inr (.inl ⟨h, rfl⟩)
    | integral t =>
      rw [integral_join, joinIntegral_integral] at h
      split at h
      · next hwidth =>
        exact .inr (.inr ⟨s, t, rfl, rfl, hwidth, eq_some_of_ofIntegral?_eq h⟩)
      · exact Element.noConfusion h
    | _ => exact Element.noConfusion h
  | floating w s =>
    cases b with
    | floating w' t =>
      rw [join_floating_floating] at h
      split at h <;> exact Element.noConfusion h
    | _ => exact Element.noConfusion h
  | object shape field =>
    cases b with
    | object shape' field' =>
      rw [join_object_object] at h
      repeat' split at h
      all_goals exact Element.noConfusion h
    | constant c =>
      rw [join_object_constant] at h
      split at h <;> exact Element.noConfusion h
    | _ => rcases field with _ | ⟨name, value⟩ <;> exact Element.noConfusion h
  | constant c =>
    cases b with
    | object shape field =>
      rw [join_constant_object] at h
      split at h <;> exact Element.noConfusion h
    | constant d =>
      rw [join_constant_constant] at h
      repeat' split at h
      all_goals exact Element.noConfusion h
    | _ => exact Element.noConfusion h
  | _ => cases b <;> exact Element.noConfusion h

/-- Only sets of integers, or one of them and all values, meet in a set of integers. -/
theorem integral_of_meet_eq {a b : Element} {u : IntegralSet} (h : meet r a b = integral u) :
    (a = top ∧ b = integral u) ∨ (a = integral u ∧ b = top) ∨
      ∃ s t, a = integral s ∧ b = integral t ∧ s.meet? t = some u := by
  cases a using inductionOnFields with
  | top => exact .inl ⟨rfl, h⟩
  | boolean s =>
    cases b with
    | boolean t =>
      rw [meet_boolean_boolean] at h
      cases hmeet : s.meet? t <;> rw [hmeet] at h <;> exact Element.noConfusion h
    | _ => exact Element.noConfusion h
  | integral s =>
    cases b with
    | top => exact .inr (.inl ⟨h, rfl⟩)
    | integral t =>
      rw [meet_integral_integral] at h
      split at h
      · exact .inr (.inr ⟨s, t, rfl, rfl, eq_some_of_ofIntegral?_eq h⟩)
      · exact Element.noConfusion h
    | _ => exact Element.noConfusion h
  | floating w s =>
    cases b with
    | floating w' t =>
      rw [meet_floating_floating] at h
      split at h
      · cases hmeet : s.meet? t <;> rw [hmeet] at h <;> exact Element.noConfusion h
      · exact Element.noConfusion h
    | _ => exact Element.noConfusion h
  | null =>
    cases b with
    | object shape field =>
      rw [meet_null_object] at h
      split at h <;> exact Element.noConfusion h
    | _ => exact Element.noConfusion h
  | object shape field =>
    cases b with
    | top => rw [meet_top] at h; exact Element.noConfusion h
    | null =>
      rw [meet_object_null] at h
      split at h <;> exact Element.noConfusion h
    | object shape' field' =>
      rw [meet_object_object] at h
      split at h
      · exact Element.noConfusion h
      split at h
      · exact Element.noConfusion h
      cases hmeet : meetObject? r shape field shape' field' with
      | none =>
        rw [hmeet, Option.getD_none, meetNone] at h
        split at h <;> exact Element.noConfusion h
      | some e =>
        obtain ⟨_, _, _, _, rfl⟩ := meetObject?_eq_some_iff.1 hmeet
        rw [hmeet] at h
        exact Element.noConfusion h
    | constant c =>
      rw [meet_object_constant] at h
      split at h <;> exact Element.noConfusion h
    | _ => rcases field with _ | ⟨name, value⟩ <;> exact Element.noConfusion h
  | constant c =>
    cases b with
    | object shape field =>
      rw [meet_constant_object] at h
      split at h <;> exact Element.noConfusion h
    | constant d =>
      rw [meet_constant_constant] at h
      repeat' split at h
      all_goals exact Element.noConfusion h
    | _ => exact Element.noConfusion h
  | bottom => exact Element.noConfusion h

/-- An element that is a set of integers is valid as such. -/
def IntegersValid : Element → Prop
  | integral s => s.Valid
  | _ => True

theorem Regular.integersValid (id : HierarchyId) (v : Vocabulary) {e : Element}
    (h : e.Regular id v) : e.IntegersValid := by
  cases e with
  | integral s => exact h
  | _ => trivial

theorem integersValid_iff {e : Element} :
    e.IntegersValid ↔ ∀ s, e = integral s → s.Valid := by
  cases e with
  | integral s => exact ⟨fun h t ht => integral.inj ht ▸ h, fun h => h s rfl⟩
  | _ => exact ⟨fun _ _ h => (nomatch h), fun _ => trivial⟩

theorem integersValid_join {a b : Element} (ha : a.IntegersValid) (hb : b.IntegersValid) :
    (join r a b).IntegersValid := by
  refine integersValid_iff.2 fun u hu => ?_
  rcases integral_of_join_eq hu with ⟨_, rfl⟩ | ⟨rfl, _⟩ | ⟨s, t, rfl, rfl, hwidth, hjoin⟩
  · exact hb
  · exact ha
  · exact IntegralSet.valid_join? ha hb hwidth hjoin

theorem integersValid_meet {a b : Element} (ha : a.IntegersValid) (hb : b.IntegersValid) :
    (meet r a b).IntegersValid := by
  refine integersValid_iff.2 fun u hu => ?_
  rcases integral_of_meet_eq hu with ⟨_, rfl⟩ | ⟨rfl, _⟩ | ⟨s, t, rfl, rfl, hmeet⟩
  · exact hb
  · exact ha
  · exact IntegralSet.valid_meet? ha hmeet

theorem integersValid_narrow {a e : Element} {range : RangeSet} (ha : a.IntegersValid)
    (h : narrow range a = .ok e) : e.IntegersValid := by
  cases a with
  | bottom => exact Except.ok.inj h ▸ trivial
  | integral s =>
    obtain rfl := Except.ok.inj h
    exact integersValid_iff.2 fun u hu =>
      IntegralSet.valid_narrow? ha (eq_some_of_ofIntegral?_eq hu)
  | _ => exact nomatch h

theorem integersValid_toWide {a : Element} (ha : a.IntegersValid) :
    (toWide a).IntegersValid := by
  cases a with
  | integral s =>
    exact integersValid_iff.2 fun u hu =>
      IntegralSet.valid_toWide? ha (eq_some_of_ofIntegral?_eq hu)
  | _ => exact ha

theorem integersValid_ofHostValue {h : HostValue} {reference : Except Fault Element} {e : Element}
    (hreference : reference = .ok e → e.IntegersValid) (he : ofHostValue h reference = .ok e) :
    e.IntegersValid := by
  rcases ofHostValue_eq_ok he with rfl | he | he
  · trivial
  · exact Regular.integersValid 0 .any (regular_ofPrimitive he)
  · exact hreference he

theorem integersValid_ofPayload {h : HostValue} {c : Constraint} {synthesized : Bool} {e : Element}
    (he : ofPayload h c synthesized = .ok e) : e.IntegersValid := by
  obtain ⟨_, _, rfl⟩ := ofPayload_eq_ok he
  trivial

/-! ## What widening returns -/

/-- Widening returns the join, or the target of a set of integers that the old element does not
contain. -/
theorem widen_cases (r : Registry) (strategy : Strategy) (old new : Element) :
    widen r strategy old new = join r old new ∨
      ∃ s, join r old new = integral s ∧ ¬ covers r old (integral s) = true ∧
        widen r strategy old new = widenTarget strategy s := by
  unfold widen
  split
  · next s hjoin =>
    split
    · exact .inl hjoin.symm
    · next hcovers => exact .inr ⟨s, hjoin, hcovers, rfl⟩
  · exact .inl rfl

theorem widenTarget_wideRange {s : IntegralSet} {wide : RangeSet} (hs : s.Valid)
    (hwide : s.wide = some wide) :
    widenTarget .wideRange s = integral ⟨s.width, wide, none⟩ := by
  have heffective : s.effectiveWide = wide := by
    rw [IntegralSet.effectiveWide, hwide]
    rfl
  rw [widenTarget, if_pos ⟨rfl, by rw [hwide]; rfl⟩, toWide, IntegralSet.toWide?_eq hs, heffective]
  rfl

/-- What a set of integers is widened to is a recorded wide range, or the domain. -/
theorem widenTarget_cases (strategy : Strategy) {s : IntegralSet} (hs : s.Valid) :
    (∃ wide ∈ s.wide, widenTarget strategy s = integral ⟨s.width, wide, none⟩) ∨
      widenTarget strategy s = integral (.all s.width) := by
  by_cases h : strategy = .wideRange ∧ s.wide.isSome
  · obtain ⟨rfl, hsome⟩ := h
    obtain ⟨wide, hwide⟩ := Option.isSome_iff_exists.1 hsome
    exact .inl ⟨wide, hwide, widenTarget_wideRange hs hwide⟩
  · exact .inr (if_neg h)

/-! ## Valid sets of integers -/

theorem integersValid_widen {strategy : Strategy} {old new : Element} (hold : old.IntegersValid)
    (hnew : new.IntegersValid) : (widen r strategy old new).IntegersValid := by
  have hjoin : (join r old new).IntegersValid := integersValid_join hold hnew
  rcases widen_cases r strategy old new with h | ⟨s, hs, _, h⟩
  · rw [h]
    exact hjoin
  · rw [hs] at hjoin
    rw [h]
    exact Regular.integersValid 0 .any (Checked.regular_widenTarget hjoin)

/-- The sets of integers among the elements of an analysis are valid. -/
theorem Built.integersValid {e : Element} (he : Built r id v e) : e.IntegersValid := by
  induction he with
  | top => trivial
  | bottom => trivial
  | null => trivial
  | boolean s => trivial
  | all w => exact IntegralSet.valid_all w
  | anyFloating w => trivial
  | floatingZeros w => trivial
  | ofRangeWithWide hrange hdomain _ =>
    exact Regular.integersValid id v (regular_ofRangeWithWide hrange.canonical hdomain)
  | ofRange hrange h =>
    obtain ⟨hdomain, rfl⟩ := ofRange_eq_ok h
    exact Regular.integersValid id v (regular_ofRangeWithWide hrange.canonical hdomain)
  | ofRangeClamped w hrange => exact Regular.integersValid id v (regular_ofRangeClamped w _)
  | ofInt h =>
    obtain ⟨n, hn, rfl⟩ := ofInt_eq_ok h
    exact IntegralSet.valid_point hn
  | ofLong h =>
    obtain ⟨hn, rfl⟩ := ofLong_eq_ok h
    exact IntegralSet.valid_point hn
  | ofDouble w x => trivial
  | ofExcluded w xs => trivial
  | ofObject _ _ _ h _ =>
    obtain ⟨shape, _, _, rfl⟩ := ofObject_eq_ok h
    trivial
  | ofPrimitive h => exact Regular.integersValid id v (regular_ofPrimitive h)
  | ofConstant _ _ _ h => exact integersValid_ofHostValue integersValid_ofPayload h
  | ofConstantLike _ _ h _ =>
    refine integersValid_ofHostValue ?_ h
    intro h
    split at h
    · exact integersValid_ofPayload h
    · exact nomatch h
  | ofReferenceConstant _ _ _ h => exact integersValid_ofPayload h
  | ofConcatenation _ _ _ => trivial
  | defaultOf t => exact Regular.integersValid id v (regular_defaultOf t)
  | ofHostType _ _ h =>
    rcases ofHostType_eq_ok h with rfl | rfl | rfl | ⟨type, rfl⟩ | ⟨name, _, h⟩
    · trivial
    · trivial
    · trivial
    · exact Regular.integersValid id v (regular_ofPrimitiveType type)
    · obtain ⟨shape, _, _, rfl⟩ := ofObject_eq_ok h
      trivial
  | join _ _ ha hb => exact integersValid_join ha hb
  | meet _ _ ha hb => exact integersValid_meet ha hb
  | negate _ _ => exact Regular.integersValid id v regular_negate
  | narrow _ _ h ha => exact integersValid_narrow ha h
  | toWide _ ha => exact integersValid_toWide ha
  | asObject _ _ => trivial
  | widen strategy _ _ hold hnew => exact integersValid_widen hold hnew

/-! ## The laws of widening -/

theorem integral_covers_of_subset {s t : IntegralSet} (hs : s.range.Canonical)
    (hwidth : s.width = t.width) (h : ∀ n ∈ t.range, n ∈ s.range) :
    covers r (integral s) (integral t) = true :=
  Bool.and_eq_true_iff.2 ⟨beq_iff_eq.2 hwidth, (RangeSet.containsAll_iff hs).2 h⟩

/-- Whatever a set of integers is widened to contains it. -/
theorem widenTarget_covers (strategy : Strategy) {s : IntegralSet} (hs : s.Valid) :
    covers r (widenTarget strategy s) (integral s) = true := by
  rcases widenTarget_cases strategy hs with ⟨wide, hwide, h⟩ | h
  · rw [h]
    exact integral_covers_of_subset (hs.wide_canonical wide hwide) rfl (hs.range_in_wide wide hwide)
  · rw [h]
    exact integral_covers_of_subset (IntegerType.canonical_domain _) rfl hs.range_in_domain

/-- The kinds of references, null among them. -/
def referenceKinds : List ElementKind := [.null, .reference, .referenceConstant]

theorem object_kind_mem (shape : ObjectShape) (field : Option (String × Element)) :
    (object shape field).kind ∈ referenceKinds :=
  List.mem_cons_of_mem _ List.mem_cons_self

theorem constant_kind_mem (c : ReferenceConstant) : (constant c).kind ∈ referenceKinds :=
  List.mem_cons_of_mem _ (List.mem_cons_of_mem _ List.mem_cons_self)

theorem reference_cases {e : Element} (h : e.kind ∈ referenceKinds) :
    e = null ∨ (∃ shape field, e = object shape field) ∨ ∃ c, e = constant c := by
  cases e using inductionOnFields with
  | null => exact .inl rfl
  | object shape field => exact .inr (.inl ⟨shape, field, rfl⟩)
  | constant c => exact .inr (.inr ⟨c, rfl⟩)
  | boolean s => cases s <;> simp [kind, referenceKinds] at h
  | floating w s => cases s <;> simp [kind, referenceKinds] at h
  | _ => simp [kind, referenceKinds] at h

/-- Outside the references, what contains an element contains the join with it. A reference that
may be null contains one that is not, while nothing is known of the nullability of their join. -/
theorem covers_join_of_covers {a b : Element} (hkind : a.kind ∉ referenceKinds)
    (ha : a.Normal r id v) (hab : covers r a b = true) : covers r a (join r a b) = true := by
  cases covers_iff.1 hab with
  | top => rfl
  | bottom => rw [join_bottom, covers_self]
  | @boolean s t hst =>
    show s.covers (s.join t) = true
    rw [BooleanSet.join, if_pos hst, BooleanSet.covers_self]
  | @integral s t hst =>
    obtain ⟨hwidth, hrange⟩ := Bool.and_eq_true_iff.1 hst
    have hunion : s.range.union t.range = s.range := if_pos hrange
    have hsome := IntegralSet.normal?_eq_some s.width
      (IntegralSet.combinedWide RangeSet.union s t) (hunion.symm ▸ ha.range_ne_nil)
    rw [integral_join, joinIntegral_integral, if_pos (eq_of_beq hwidth), IntegralSet.join?,
      IntegralSet.combine?, hsome]
    refine covers_iff.2 (.integral (Bool.and_eq_true_iff.2 ⟨beq_self_eq_true _, ?_⟩))
    show s.range.containsAll (s.range.union t.range) = true
    rw [hunion, RangeSet.containsAll_self]
  | @floating w s t hst =>
    rw [join_floating_floating, if_pos rfl, FloatingSet.join, if_pos hst, covers_self]
  | null => exact absurd List.mem_cons_self hkind
  | objectNull => exact absurd (object_kind_mem _ _) hkind
  | object => exact absurd (object_kind_mem _ _) hkind
  | objectConstant => exact absurd (object_kind_mem _ _) hkind
  | constant => exact absurd (constant_kind_mem _) hkind

/-- Widening is an upper bound, and leaves an old element alone that contains the new one, unless
it is a reference. -/
theorem widen_laws (hw : (r.hierarchy id).WellFormed) (strategy : Strategy) {old new : Element}
    (hold : Built r id .any old) (hnew : Built r id .any new) :
    covers r (widen r strategy old new) old = true ∧
      covers r (widen r strategy old new) new = true ∧
      (old.kind ∉ referenceKinds → covers r old new = true →
        (widen r strategy old new).same old = true) := by
  have hs : (r.hierarchy id).Spelled Vocabulary.any.type := fun _ _ _ => trivial
  have hno := hold.normal hs
  have hnn := hnew.normal hs
  have hnj := normal_join hs hno hnn
  have hnw := (hold.widen strategy hnew).normal hs
  obtain ⟨hjo, hjn⟩ := join_covers hw hno hnn
  -- The join contains both operands, and what is widened contains the join.
  have hwj : covers r (widen r strategy old new) (join r old new) = true := by
    rcases widen_cases r strategy old new with h | ⟨s, hjoin, _, h⟩
    · rw [h, covers_self]
    · have hvalid := (hold.join hnew).integersValid
      rw [hjoin] at hvalid
      rw [h, hjoin]
      exact widenTarget_covers strategy hvalid
  refine ⟨covers_trans hw hnw hnj hno hwj hjo, covers_trans hw hnw hnj hnn hwj hjn, ?_⟩
  intro hkind hcovers
  have hoj := covers_join_of_covers hkind hno hcovers
  rcases widen_cases r strategy old new with h | ⟨s, hjoin, hnot, _⟩
  · rw [h, same_iff]
    exact key_eq_of_covers hw hnj hno hjo hoj
  · rw [hjoin] at hoj
    exact absurd hoj hnot

theorem mem_int_domain {n : Int} (hlow : 0 ≤ n) (hhigh : n < 0x80000000) :
    n ∈ IntegralWidth.int.domain :=
  IntegerType.mem_domain.2
    ⟨Int.le_trans (by decide) hlow, Int.le_trans (Int.le_sub_one_of_lt hhigh) (by decide)⟩

/-- An index that was between 0 and 100 before it was found to be at most `high`. -/
def indexUpTo (high : Int) : Element :=
  ofRangeWithWide .int (.range 0 high) (some (.range 0 100))

theorem built_indexUpTo {high : Int} (hhigh : high ≤ 100) : Built r id v (indexUpTo high) := by
  refine .ofRangeWithWide (.range 0 high) ?_ ?_
  · intro n hn
    obtain ⟨hlow, hle⟩ := RangeSet.mem_range.1 hn
    exact mem_int_domain hlow (by omega)
  · intro wide hwide
    exact Option.some.inj hwide ▸ .range 0 100

theorem widen_laws_indexUpTo :
    (textRegistry.hierarchy 0).WellFormed ∧ Built textRegistry 0 .any (indexUpTo 5) ∧
      Built textRegistry 0 .any (indexUpTo 3) ∧ (indexUpTo 5).kind ∉ referenceKinds ∧
      covers textRegistry (indexUpTo 5) (indexUpTo 3) = true ∧
      covers textRegistry (widen textRegistry .wideRange (indexUpTo 5) (indexUpTo 3))
        (indexUpTo 5) = true ∧
      covers textRegistry (widen textRegistry .wideRange (indexUpTo 5) (indexUpTo 3))
        (indexUpTo 3) = true ∧
      (widen textRegistry .wideRange (indexUpTo 5) (indexUpTo 3)).same (indexUpTo 5) = true := by
  have hold : Built textRegistry 0 .any (indexUpTo 5) := built_indexUpTo (by decide)
  have hnew : Built textRegistry 0 .any (indexUpTo 3) := built_indexUpTo (by decide)
  have hkind : (indexUpTo 5).kind ∉ referenceKinds := by decide
  have hcovers : covers textRegistry (indexUpTo 5) (indexUpTo 3) = true := by decide
  obtain ⟨hwo, hwn, hsame⟩ := widen_laws wellFormed_texts .wideRange hold hnew
  exact ⟨wellFormed_texts, hold, hnew, hkind, hcovers, hwo, hwn, hsame hkind hcovers⟩

/-- An index that grows jumps to all that it was. -/
example : widen textRegistry .wideRange (indexUpTo 3) (indexUpTo 5) = indexUpTo 100 := rfl

end ValueLattice.Element
