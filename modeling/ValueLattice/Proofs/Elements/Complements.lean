import ValueLattice.Proofs.Elements.FloatingMembers
import ValueLattice.Proofs.Elements.Keys
import ValueLattice.Proofs.Elements.Lattice
import ValueLattice.Proofs.Elements.Narrowing

/-!
# Complements

An element and its complement have nothing in common. Where the complement has a form, its own
complement is the element again, and both together are all values of the family.

* `negate?_eq_some`, `negate?_eq_none_iff`: the complements of sets of integers; `meet?_negate?`,
  `join?_negate?`, `negate?_negate?`: their laws;
* `eq_notNullObject_of_key_eq`: no other element has the key of all objects but null;
* `negate_laws`: the laws of the complements of elements.
-/

namespace ValueLattice

namespace IntegralSet

/-! ## Sets of integers -/

theorem negate?_eq_some {s u : IntegralSet} (h : s.negate? = some u) :
    u = ⟨s.width, s.width.domain.subtract s.range, none⟩ :=
  eq_of_normal?_eq_some h

/-- Only the whole domain has no complement. -/
theorem negate?_eq_none_iff {s : IntegralSet} (hs : s.Valid) :
    s.negate? = none ↔ s.range = s.width.domain := by
  rw [negate?, normal?_eq_none_iff]
  constructor
  · intro h
    refine hs.range_canonical.ext (IntegerType.canonical_domain _) fun n =>
      ⟨hs.range_in_domain n, fun hn => ?_⟩
    by_contra hout
    exact h n (RangeSet.mem_subtract.2 ⟨hn, hout⟩)
  · intro h n hn
    obtain ⟨hdomain, hout⟩ := RangeSet.mem_subtract.1 hn
    exact hout (h.symm ▸ hdomain)

theorem meet?_negate? {s u : IntegralSet} (h : s.negate? = some u) : s.meet? u = none := by
  obtain rfl := negate?_eq_some h
  refine normal?_eq_none_iff.2 fun n hn => ?_
  obtain ⟨hrange, hout⟩ := RangeSet.mem_intersect.1 hn
  exact (RangeSet.mem_subtract.1 hout).2 hrange

/-- What the domain has beside a set, together with all of the set, is the domain. -/
theorem union_subtract_eq {w : IntegralWidth} {range wide : RangeSet} (hwide : wide.Canonical)
    (hdomain : ∀ n ∈ wide, n ∈ w.domain) (hsub : ∀ n ∈ range, n ∈ wide) :
    wide.union (w.domain.subtract range) = w.domain := by
  have hinside : ∀ n ∈ w.domain.subtract range, n ∈ w.domain :=
    fun n hn => (RangeSet.mem_subtract.1 hn).1
  refine (RangeSet.canonical_union hwide (RangeSet.canonical_subtract _ _)).ext
    (IntegerType.canonical_domain _) fun n => ⟨union_in_domain hdomain hinside n, fun hn => ?_⟩
  by_cases hmem : n ∈ range
  · exact RangeSet.mem_union_of_mem (.inl (hsub n hmem))
  · exact RangeSet.mem_union_of_mem (.inr (RangeSet.mem_subtract.2 ⟨hn, hmem⟩))

/-- A set and its complement are the whole domain, and no wide range is left to record. -/
theorem join?_negate? {s u : IntegralSet} (hs : s.Valid) (h : s.negate? = some u) :
    s.join? u = some (.all s.width) := by
  obtain rfl := negate?_eq_some h
  have hrange := union_subtract_eq hs.range_canonical hs.range_in_domain fun n hn => hn
  have hwide : s.effectiveWide.union (s.width.domain.subtract s.range) = s.width.domain :=
    union_subtract_eq (canonical_effectiveWide hs) (effectiveWide_in_domain hs)
      fun n hn => mem_effectiveWide hs hn
  -- The wide ranges join to the domain as well, which is not recorded beside itself.
  have hrecorded : recordedWide s.width s.width.domain s.width.domain = none :=
    recordedWide_self (IntegerType.canonical_domain _) fun _ hn => hn
  have hne : s.width.domain.intervals ≠ [] := (normal_all s.width).range_ne_nil
  rw [join?, combine?, hrange, normal?_eq_some s.width _ hne]
  refine congrArg (fun wide => some (IntegralSet.mk s.width s.width.domain wide)) ?_
  unfold combinedWide
  split
  · rfl
  · exact (congrArg (recordedWide s.width s.width.domain) hwide).trans hrecorded

theorem negate?_negate? {s u : IntegralSet} (hs : s.Valid) (h : s.negate? = some u) :
    u.negate? = some ⟨s.width, s.range, none⟩ := by
  obtain rfl := negate?_eq_some h
  have hrange : s.width.domain.subtract (s.width.domain.subtract s.range) = s.range := by
    refine (RangeSet.canonical_subtract _ _).ext hs.range_canonical fun n => ?_
    rw [RangeSet.mem_subtract, RangeSet.mem_subtract, not_and, Classical.not_not]
    exact ⟨fun hn => hn.2 hn.1, fun hn => ⟨hs.range_in_domain n hn, fun _ => hn⟩⟩
  unfold negate?
  rw [hrange, normal?_eq_some s.width none hs.range_ne_empty]
  rfl

end IntegralSet

namespace Element

variable {r : Registry} {id : HierarchyId} {v : Vocabulary}

/-! ## Forms of complements -/

theorem negate_integral_cases (s : IntegralSet) :
    (s.negate? = none ∧ negate (integral s) = bottom) ∨
      ∃ u, s.negate? = some u ∧ negate (integral s) = integral u := by
  cases hneg : s.negate? with
  | none => exact .inl ⟨rfl, congrArg ofIntegral? hneg⟩
  | some u => exact .inr ⟨u, rfl, congrArg ofIntegral? hneg⟩

theorem negate_floating_cases (w : FloatingWidth) (s : FloatingSet) :
    (s.negate? = none ∧ negate (floating w s) = bottom) ∨
      ∃ u, s.negate? = some u ∧ negate (floating w s) = floating w u := by
  cases hneg : s.negate? with
  | none => exact .inl ⟨rfl, congrArg (ofFloating? w) hneg⟩
  | some u => exact .inr ⟨u, rfl, congrArg (ofFloating? w) hneg⟩

/-- Among the object references only all of them have a complement. -/
theorem negate_object_cases (shape : ObjectShape) (field : Option (String × Element)) :
    (shape = notNullShape ∧ field = none ∧ negate (object shape field) = null) ∨
      negate (object shape field) = bottom := by
  rcases field with _ | ⟨name, value⟩
  · by_cases hshape : shape = notNullShape
    · exact .inl ⟨hshape, rfl, if_pos hshape⟩
    · exact .inr (if_neg hshape)
  · exact .inr rfl

/-! ## All objects but null -/

/-- Only `notNullObject` has its key, whatever the names of types and of special fields are: no
other constraint has a key that begins as that of the constraint `top` does. -/
theorem eq_notNullObject_of_key_eq {e : Element} (h : key e = key notNullObject) :
    e = notNullObject := by
  have hfamily := family_eq_of_key_eq h
  cases e using inductionOnFields with
  | object shape field =>
    rw [notNullObject, key_object, key_object] at h
    have hconstraint : shape.constraint = .top := by
      have hlist := congrArg String.toList h
      simp only [shapeKey, String.intercalate_cons_cons, String.toList_append] at hlist
      cases hc : shape.constraint with
      | top => rfl
      | bottom => simp [hc, Constraint.key, notNullShape] at hlist
      | nominal id requirement =>
        cases requirement <;> simp [hc, Constraint.key, notNullShape] at hlist
    -- With the constraint known, no names are left to be told apart.
    have hover : shape.constraint.Over 0 fun _ => False := by
      rw [hconstraint]
      trivial
    have hover' : notNullShape.constraint.Over 0 fun _ => False := trivial
    obtain ⟨rfl, hfield⟩ := shapeKey_inj (fun _ => False.elim) (fun _ => False.elim) hover hover' h
    rcases field with _ | ⟨name, value⟩
    · rfl
    · have hlist := congrArg String.toList hfield
      simp [fieldKey] at hlist
  | _ => exact Family.noConfusion hfamily

/-- The elements that have the complement null are those with the key of `notNullObject`. -/
theorem negate_eq_null_iff {t : Element} : negate t = null ↔ t.same notNullObject = true := by
  rw [same_iff]
  constructor
  · intro h
    cases t using inductionOnFields with
    | boolean s => cases s <;> exact Element.noConfusion h
    | integral s =>
      rcases negate_integral_cases s with ⟨_, hneg⟩ | ⟨u, _, hneg⟩ <;>
        exact Element.noConfusion (hneg.symm.trans h)
    | floating w s =>
      rcases negate_floating_cases w s with ⟨_, hneg⟩ | ⟨u, _, hneg⟩ <;>
        exact Element.noConfusion (hneg.symm.trans h)
    | object shape field =>
      rcases negate_object_cases shape field with ⟨rfl, rfl, _⟩ | hneg
      · rfl
      · exact Element.noConfusion (hneg.symm.trans h)
    | _ => exact Element.noConfusion h
  · intro h
    rw [eq_notNullObject_of_key_eq h]
    rfl

/-! ## Complements of elements -/

theorem checked_meet_bottom (r : Registry) (a : Element) : Checked.meet r a bottom = .ok bottom := by
  cases a using inductionOnFields with
  | object shape field => rcases field with _ | ⟨name, value⟩ <;> rfl
  | _ => rfl

/-- An element and its complement have no values in common. -/
theorem meet_negate {t : Element} (ht : t.Valid) : Checked.meet r t (negate t) = .ok bottom := by
  cases t using inductionOnFields with
  | boolean s =>
    rcases s with _ | b
    · rfl
    · cases b <;> rfl
  | integral s =>
    rcases negate_integral_cases s with ⟨_, hneg⟩ | ⟨u, hu, hneg⟩
    · rw [hneg, checked_meet_bottom]
    · have hwidth : s.width = u.width := by rw [IntegralSet.negate?_eq_some hu]
      rw [hneg]
      refine congrArg Except.ok ((meet_integral_integral s u).trans ?_)
      rw [if_pos hwidth, IntegralSet.meet?_negate? hu]
      rfl
  | floating w s =>
    rcases negate_floating_cases w s with ⟨_, hneg⟩ | ⟨u, hu, hneg⟩
    · rw [hneg, checked_meet_bottom]
    · rw [hneg]
      refine congrArg Except.ok ((meet_floating_floating w w s u).trans ?_)
      rw [if_pos rfl, FloatingSet.meet?_negate? ht hu]
      rfl
  | object shape field =>
    rcases negate_object_cases shape field with ⟨rfl, rfl, hneg⟩ | hneg
    · rw [hneg]
      rfl
    · rw [hneg, checked_meet_bottom]
  | _ => rfl

/-- The complement of a complement that has a form is the element again. -/
theorem same_negate_negate {t : Element} (ht : t.Valid) (hne : negate t ≠ bottom) :
    (negate (negate t)).same t = true := by
  rw [same_iff]
  cases t using inductionOnFields with
  | top => exact absurd rfl hne
  | bottom => rfl
  | boolean s =>
    rcases s with _ | b
    · exact absurd rfl hne
    · cases b <;> rfl
  | integral s =>
    rcases negate_integral_cases s with ⟨_, hneg⟩ | ⟨u, hu, hneg⟩
    · exact absurd hneg hne
    · rw [hneg, negate, IntegralSet.negate?_negate? ht hu]
      rfl
  | floating w s =>
    rcases negate_floating_cases w s with ⟨_, hneg⟩ | ⟨u, hu, hneg⟩
    · exact absurd hneg hne
    · rw [hneg, negate, FloatingSet.negate?_negate? ht hu]
      rfl
  | null => rfl
  | object shape field =>
    rcases negate_object_cases shape field with ⟨rfl, rfl, hneg⟩ | hneg
    · rw [hneg]
      rfl
    · exact absurd hneg hne
  | constant c => exact absurd rfl hne

/-- All values of the family of an element, among truth values and the numbers of a width. -/
def allOf? : Element → Option Element
  | boolean _ => some (boolean .any)
  | integral s => some (integral (.all s.width))
  | floating w _ => some (floating w .any)
  | _ => none

/-- An element and its complement are all values of the family. -/
theorem join_negate {t g : Element} (ht : t.Valid) (hne : negate t ≠ bottom)
    (hg : t.allOf? = some g) : Checked.join r t (negate t) = .ok g := by
  cases t using inductionOnFields with
  | boolean s =>
    obtain rfl := Option.some.inj hg
    rcases s with _ | b
    · exact absurd rfl hne
    · cases b <;> rfl
  | integral s =>
    obtain rfl := Option.some.inj hg
    rcases negate_integral_cases s with ⟨_, hneg⟩ | ⟨u, hu, hneg⟩
    · exact absurd hneg hne
    · have hwidth : s.width = u.width := by rw [IntegralSet.negate?_eq_some hu]
      rw [hneg]
      refine congrArg Except.ok ((joinIntegral_integral s u).trans ?_)
      rw [if_pos hwidth, IntegralSet.join?_negate? ht hu]
      rfl
  | floating w s =>
    obtain rfl := Option.some.inj hg
    rcases negate_floating_cases w s with ⟨_, hneg⟩ | ⟨u, hu, hneg⟩
    · exact absurd hneg hne
    · rw [hneg]
      refine congrArg Except.ok ((join_floating_floating w w s u).trans ?_)
      rw [if_pos rfl, FloatingSet.join_negate? ht hu]
  | _ => exact nomatch hg

/-- An element of an analysis and its complement have nothing in common. Where the complement has a
form, its complement is the element again, and both of them are all truth values or all numbers of
the width. Among the sets of integers only the whole domain of a width has no complement, and
`notNullObject`, whose complement is null, is recognised by its key. To round the numbers of a
complement again changes nothing. -/
theorem negate_laws {es : List Element} (h : History id v es) {t : Element} (ht : t ∈ es)
    (r : Registry) :
    Checked.meet r t (negate t) = .ok bottom ∧
      (negate t ≠ bottom → (negate (negate t)).same t = true ∧
        ∀ g ∈ t.allOf?, Checked.join r t (negate t) = .ok g) ∧
      (∀ s, t = integral s → (negate t = bottom ↔ s.range = s.width.domain)) ∧
      (negate t = null ↔ t.same notNullObject = true) ∧
      ∀ w s, t = floating w s → FloatingSet.roundedNegate? w s = s.negate? := by
  have hvalid : t.Valid := (h.regular t ht).valid
  have hrounded : t.Rounded := h.rounded t ht
  refine ⟨meet_negate hvalid, fun hne => ⟨same_negate_negate hvalid hne, fun g hg =>
    join_negate hvalid hne hg⟩, ?_, negate_eq_null_iff, ?_⟩
  · rintro s rfl
    rw [← IntegralSet.negate?_eq_none_iff hvalid]
    rcases negate_integral_cases s with ⟨hnone, hneg⟩ | ⟨u, hu, hneg⟩
    · exact iff_of_true hneg hnone
    · rw [hneg, hu]
      exact iff_of_false Element.noConfusion (Option.some_ne_none u)
  · rintro w s rfl
    exact FloatingSet.roundedNegate?_eq hrounded

theorem negate_laws_foundIndex :
    History 0 .any [integral foundIndex] ∧ negate (integral foundIndex) ≠ bottom ∧
      Checked.meet textRegistry (integral foundIndex) (negate (integral foundIndex)) =
        .ok bottom ∧
      (negate (negate (integral foundIndex))).same (integral foundIndex) = true ∧
      Checked.join textRegistry (integral foundIndex) (negate (integral foundIndex)) =
        .ok (integral (.all .int)) := by
  have hhistory : History 0 .any [integral foundIndex] := history_foundIndex
  obtain ⟨hmeet, hlaws, hdomain, _⟩ :=
    negate_laws hhistory List.mem_cons_self textRegistry
  have hne : negate (integral foundIndex) ≠ bottom := by
    rw [Ne, hdomain foundIndex rfl]
    decide
  obtain ⟨hsame, hjoin⟩ := hlaws hne
  exact ⟨hhistory, hne, hmeet, hsame, hjoin _ rfl⟩

/-- The complement of a complement has no wide range to return to. -/
example : negate (negate (integral foundIndex)) = integral ⟨.int, .range 0 50, none⟩ := rfl

end Element

end ValueLattice
