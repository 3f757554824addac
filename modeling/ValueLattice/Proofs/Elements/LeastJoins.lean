import ValueLattice.Proofs.Elements.JoinComponents
import ValueLattice.Proofs.RangeSetUnions

/-!
# Least joins of references

Constants join as the objects they belong to, and null is added to the nullability, so the join of
two references is least wherever the joins of the components are: the nullability may not be
loosened, and the values of the special fields may not be widened. Constants of one payload are an
exception, because what covers both need not be an object.

* `Views`: the shape and the special field of an object or a constant;
* `FieldOfFew`: the references whose special fields are joined without loss;
* `FieldCovers.joinField?`, `covers_joinObject`: the joins of the components are least;
* `join_cases`: a join of references is an operand, or made of the joins of the components;
* `join_references_least`: what covers two references covers their join.
-/

namespace ValueLattice

/-- Sets of few intervals have a join that is least. -/
theorem IntegralSet.exists_join?_covered {s t z : IntegralSet} (hs : s.Normal) (ht : t.Normal)
    (hz : z.Normal) (hsize : s.range.size + t.range.size ≤ RangeSet.maxIntervals)
    (hzs : z.covers s = true) (hzt : z.covers t = true) :
    ∃ u, s.join? t = some u ∧ z.covers u = true := by
  rw [covers_iff hz] at hzs hzt
  obtain ⟨u, hu, _, hwidth, hrange⟩ := exists_join? hs ht
  refine ⟨u, hu, (covers_iff hz).2 ⟨hzs.1.trans hwidth.symm, ?_⟩⟩
  intro n hn
  rw [hrange] at hn
  exact ((RangeSet.mem_union_of_size_le hs.canonical ht.canonical hsize).1 hn).elim (hzs.2 n)
    (hzt.2 n)

namespace Element

variable {r : Registry} {id : HierarchyId} {v : Vocabulary}

/-! ## Objects and constants -/

/-- The shape and the special field of a reference that is not null. -/
inductive Views : Element → ObjectShape → Option (String × Element) → Prop where
  | self (s : ObjectShape) (f : Option (String × Element)) : Views (object s f) s f
  | asObject (c : ReferenceConstant) : Views (constant c) c.shape (fieldOf? c)

variable {a b z : Element} {s t u : ObjectShape} {f g h : Option (String × Element)}

theorem eq_null_or_views (ha : a.kind ∈ referenceKinds) : a = null ∨ ∃ s f, Views a s f := by
  rcases reference_cases ha with rfl | ⟨s, f, rfl⟩ | ⟨c, rfl⟩
  · exact .inl rfl
  · exact .inr ⟨s, f, .self s f⟩
  · exact .inr ⟨c.shape, fieldOf? c, .asObject c⟩

theorem Views.normal (h : Views a s f) (ha : a.Normal r id v) : (object s f).Normal r id v := by
  cases h with
  | self => exact ha
  | asObject c => exact normal_asObject ha

theorem Views.object_covers_iff (hb : Views b t g) :
    covers r (object s f) b = true ↔ s.covers r t = true ∧ FieldCovers r f g := by
  cases hb with
  | self => exact covers_object_object
  | asObject c => exact covers_object_constant

/-- Only objects cover references that are not null, apart from constants with one payload. -/
theorem Views.covers_cases (hb : Views b t g) (hab : covers r a b = true) :
    a = top ∨ (∃ s f, a = object s f) ∨
      ∃ c d, a = constant c ∧ b = constant d ∧ c.payload.key = d.payload.key := by
  cases covers_iff.1 hab with
  | top => exact .inl rfl
  | @object s _ f => exact .inr (.inl ⟨s, f, rfl⟩)
  | @objectConstant s f => exact .inr (.inl ⟨s, f, rfl⟩)
  | @constant c d hcd =>
    exact .inr (.inr ⟨c, d, rfl, rfl, eq_of_beq (Bool.and_eq_true_iff.1 hcd).1⟩)
  | _ => exact nomatch hb

/-- The join of two references is one of them, or made of the joins of their components. -/
theorem join_cases (ha : Views a s f) (hb : Views b t g) :
    join r a b = a ∨ join r a b = b ∨ join r a b = joinObject r s f t g := by
  cases ha with
  | self =>
    cases hb with
    | self =>
      rw [join_object_object]
      split
      · exact .inl rfl
      split
      · exact .inr (.inl rfl)
      · exact .inr (.inr rfl)
    | asObject d =>
      rw [join_object_constant]
      split
      · exact .inl rfl
      · exact .inr (.inr rfl)
  | asObject c =>
    cases hb with
    | self =>
      rw [join_constant_object]
      split
      · exact .inr (.inl rfl)
      · exact .inr (.inr rfl)
    | asObject d =>
      rw [join_constant_constant]
      split
      · exact .inl rfl
      split
      · exact .inr (.inl rfl)
      · exact .inr (.inr rfl)

theorem null_join_eq (hb : Views b t g) : join r null b = object t.orNull g := by
  cases hb <;> rfl

theorem join_null_eq (ha : Views a s f) : join r a null = object s.orNull f := by
  cases ha <;> rfl

theorem loosens_iff (ha : Views a s f) (hb : Views b t g) :
    Loosens a b ↔ s.nullability = .nullable ∧ t.nullability = .notNull := by
  cases ha with
  | self =>
    rw [loosens_object_iff]
    cases hb with
    | self => rw [nullability?_object_eq_notNull_iff]
    | asObject d => exact and_congr_right fun _ => iff_of_true rfl rfl
  | asObject c => exact iff_of_false (fun h => nomatch h.1) fun h => nomatch h.1

/-! ## Joins of special fields -/

/-- A set of integers of at most half as many intervals as a union may have. -/
def FewIntervals (e : Element) : Prop := ∃ s, e = integral s ∧ s.range.size ≤ 8

/-- The special field, if any, holds a set of few intervals. -/
def FieldOfFew : Element → Prop
  | object _ (some (_, value)) => value.FewIntervals
  | _ => True

theorem Views.fewIntervals (h : Views a s f) (ha : a.FieldOfFew) : ∀ x ∈ f, x.2.FewIntervals := by
  intro x hx
  cases h with
  | self =>
    obtain rfl := Option.mem_def.1 hx
    exact ha
  | asObject c =>
    obtain ⟨text, _, rfl⟩ := mem_fieldOf?_iff.1 hx
    exact ⟨_, rfl, (by decide : 1 ≤ 8)⟩

/-- What is known of two sets of few intervals is known of their join. -/
theorem covers_join_integral {s t : IntegralSet} (hz : z.Normal r id v) (hs : s.Normal)
    (ht : t.Normal) (hsize : s.range.size + t.range.size ≤ RangeSet.maxIntervals)
    (htop : z ≠ top) (hzs : covers r z (integral s) = true) (hzt : covers r z (integral t) = true) :
    join r (integral s) (integral t) ≠ top ∧
      covers r z (join r (integral s) (integral t)) = true := by
  cases covers_iff.1 hzs with
  | top => exact absurd rfl htop
  | @integral w _ hws =>
    have hwidth : s.width = t.width :=
      ((IntegralSet.covers_iff hz).1 hws).1.symm.trans ((IntegralSet.covers_iff hz).1 hzt).1
    obtain ⟨u, hu, hwu⟩ := IntegralSet.exists_join?_covered hs ht hz hsize hws hzt
    rw [integral_join, joinIntegral_integral, if_pos hwidth, hu]
    exact ⟨Element.noConfusion, hwu⟩

/-- Fields with few intervals have a join that is least. -/
theorem FieldCovers.joinField? (hh : ∀ x ∈ h, NormalField r id v x)
    (hf : ∀ x ∈ f, NormalField r id v x) (hg : ∀ x ∈ g, NormalField r id v x)
    (hfew : ∀ x ∈ f, x.2.FewIntervals) (hfew' : ∀ x ∈ g, x.2.FewIntervals)
    (hhf : FieldCovers r h f) (hhg : FieldCovers r h g) :
    FieldCovers r h (joinField? r f g) := by
  intro z hz
  obtain ⟨⟨name, x⟩, hx, hname, hzx⟩ := hhf z hz
  obtain ⟨⟨name', y⟩, hy, hname', hzy⟩ := hhg z hz
  obtain ⟨s, rfl, hs⟩ := hfew _ hx
  obtain ⟨t, rfl, ht⟩ := hfew' _ hy
  obtain ⟨htop, hcovers⟩ := covers_join_integral (hh z hz).normal (hf _ hx).normal
    (hg _ hy).normal (Nat.add_le_add hs ht) (hh z hz).2.1 hzx hzy
  exact ⟨_, mem_joinField?_iff.2 ⟨_, hx, _, hy, hname.symm.trans hname', htop, rfl⟩, hname, hcovers⟩

/-! ## Joins of references -/

/-- What is made of the joins of the components is least. -/
theorem covers_joinObject (hw : (r.hierarchy id).WellFormed) (hz : (object u h).Normal r id v)
    (ha : (object s f).Normal r id v) (hb : (object t g).Normal r id v)
    (hfew : ∀ x ∈ f, x.2.FewIntervals) (hfew' : ∀ x ∈ g, x.2.FewIntervals)
    (hst : ¬ (s.nullability = .nullable ∧ t.nullability = .notNull))
    (hts : ¬ (t.nullability = .nullable ∧ s.nullability = .notNull))
    (hza : u.covers r s = true ∧ FieldCovers r h f)
    (hzb : u.covers r t = true ∧ FieldCovers r h g) :
    covers r (object u h) (joinObject r s f t g) = true := by
  obtain ⟨hu, hh⟩ := normal_object_iff.1 hz
  obtain ⟨hs, hf⟩ := normal_object_iff.1 ha
  obtain ⟨ht, hg⟩ := normal_object_iff.1 hb
  have hnull := ObjectNullability.covers_join (ObjectShape.covers_iff.1 hza.1).1
    (ObjectShape.covers_iff.1 hzb.1).1 hst hts
  exact covers_object_object.2 ⟨ObjectShape.covers_join hw hs ht hu hza.1 hzb.1 hnull,
    hza.2.joinField? hh hf hg hfew hfew' hzb.2⟩

/-- What covers null and another reference covers that reference with null added. -/
theorem covers_object_orNull (hz : z.Normal r id v) (hb : Views b t g)
    (hnull : covers r z null = true) (hzb : covers r z b = true) :
    covers r z (object t.orNull g) = true := by
  rcases hb.covers_cases hzb with rfl | ⟨u, h, rfl⟩ | ⟨c, _, rfl, _⟩
  · rfl
  · obtain ⟨hshape, hfield⟩ := hb.object_covers_iff.1 hzb
    exact covers_object_object.2
      ⟨ObjectShape.covers_orNull (normal_object_iff.1 hz).1.valid hshape hnull, hfield⟩
  · exact nomatch hnull

/-- Joins of references whose special fields hold few intervals are least, apart from those of two
constants with one payload and those of a reference that is sometimes null with one that never
is. -/
theorem join_references_least (hw : (r.hierarchy id).WellFormed) (ha : Built r id .any a)
    (hb : Built r id .any b) (hz : Built r id .any z) (hkind : a.kind ∈ referenceKinds)
    (hkind' : b.kind ∈ referenceKinds) (hfew : a.FieldOfFew) (hfew' : b.FieldOfFew)
    (hpayload : ∀ c d, a = constant c → b = constant d → c.payload.key ≠ d.payload.key)
    (hab : ¬ Loosens a b) (hba : ¬ Loosens b a) (hza : covers r z a = true)
    (hzb : covers r z b = true) : covers r z (join r a b) = true := by
  have hs : (r.hierarchy id).Spelled Vocabulary.any.type := fun _ _ _ => trivial
  have hnz := hz.normal hs
  rcases eq_null_or_views hkind with rfl | ⟨s, f, hva⟩
  · rcases eq_null_or_views hkind' with rfl | ⟨t, g, hvb⟩
    · exact hza
    · rw [null_join_eq hvb]
      exact covers_object_orNull hnz hvb hza hzb
  rcases eq_null_or_views hkind' with rfl | ⟨t, g, hvb⟩
  · rw [join_null_eq hva]
    exact covers_object_orNull hnz hva hzb hza
  rcases join_cases (r := r) hva hvb with hjoin | hjoin | hjoin
  · rw [hjoin]
    exact hza
  · rw [hjoin]
    exact hzb
  rw [hjoin]
  rcases hva.covers_cases hza with rfl | ⟨u, h, rfl⟩ | ⟨e, c, rfl, rfl, hec⟩
  · rfl
  · rw [loosens_iff hva hvb] at hab
    rw [loosens_iff hvb hva] at hba
    exact covers_joinObject hw hnz (hva.normal (ha.normal hs)) (hvb.normal (hb.normal hs))
      (hva.fewIntervals hfew) (hvb.fewIntervals hfew') hab hba (hva.object_covers_iff.1 hza)
      (hvb.object_covers_iff.1 hzb)
  · -- A constant that covers both has the payload of both.
    rcases hvb.covers_cases hzb with htop | ⟨_, _, hobject⟩ | ⟨e', d, he, rfl, hed⟩
    · exact nomatch htop
    · exact nomatch hobject
    · obtain rfl := constant.inj he
      exact absurd (hec.symm.trans hed) (hpayload c d rfl rfl)

theorem join_references_least_greeting :
    (textRegistry.hierarchy 0).WellFormed ∧ Built textRegistry 0 .any (constant greeting) ∧
      Built textRegistry 0 .any (sized "CharSequence" .unknown 0 3) ∧
      Built textRegistry 0 .any (sized "CharSequence" .unknown 0 5) ∧
      covers textRegistry (sized "CharSequence" .unknown 0 5)
        (join textRegistry (constant greeting) (sized "CharSequence" .unknown 0 3)) = true := by
  have hconstant : Built textRegistry 0 .any (constant greeting) := built_greeting trivial trivial
  have hshort : Built textRegistry 0 .any (sized "CharSequence" .unknown 0 3) :=
    built_sized trivial (by decide) (by rfl)
  have hbound : Built textRegistry 0 .any (sized "CharSequence" .unknown 0 5) :=
    built_sized trivial (by decide) (by rfl)
  refine ⟨wellFormed_texts, hconstant, hshort, hbound, ?_⟩
  refine join_references_least wellFormed_texts hconstant hshort hbound (constant_kind_mem _)
    (object_kind_mem _ _) trivial ⟨_, rfl, (by decide : 1 ≤ 8)⟩ ?_ ?_ ?_ (by decide) (by decide)
  · exact fun _ _ _ h => nomatch h
  · exact fun h => nomatch h.1
  · exact fun h => nomatch h.1

end Element

end ValueLattice
