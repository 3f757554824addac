import ValueLattice.Proofs.Elements.Widening

/-!
# Joins of references, component by component

A reference that absorbs another one is their join as far as its shape goes, so the join of two
references always has the join of their shapes. Of the special fields, only the nullability of the
references is looked at: a field that is sometimes null stays beside one that never is, although the
join of the two values has unknown nullability.

* `Loosens`: where the nullability of a join is unknown although one operand covers the other one;
* `key_join_of_covers`, `exists_join_of_loosens`: only there, the join with what an element covers is
  more than that element;
* `join_shape_of_absorbs`, `field_of_absorbs`: what absorbs has the shape of the join, and tracks
  what the join tracks;
* `JoinedValue`: the value of the field, which is joined unless its loosening is overlooked;
* `join_components`: the components of the join of two references;
* `not_join_components`: the value of a special field is not always the join of the values.
-/

namespace ValueLattice.Element

variable {r : Registry} {id : HierarchyId} {v : Vocabulary}

/-! ## Joins with what is covered -/

/-- The nullability of the join of both elements is unknown, although that of the first one allows
for that of the second one. -/
def Loosens (a b : Element) : Prop :=
  a.nullability? = some .nullable ∧ b.nullability? = some .notNull

theorem loosens_object_iff {s : ObjectShape} {f : Option (String × Element)} {b : Element} :
    Loosens (object s f) b ↔ s.nullability = .nullable ∧ b.nullability? = some .notNull := by
  cases hs : s.nullability <;> simp [Loosens, nullability?, hs, ObjectNullability.general]

theorem nullability?_object_eq_notNull_iff {s : ObjectShape} {f : Option (String × Element)} :
    (object s f).nullability? = some .notNull ↔ s.nullability = .notNull := by
  cases hs : s.nullability <;> simp [nullability?, hs, ObjectNullability.general]

/-- A reference absorbs what it covers, unless their join loosens the nullability. -/
theorem absorbs_of_covers {s : ObjectShape} {f : Option (String × Element)}
    {n : ObjectNullability} {b : Element} (hab : covers r (object s f) b = true)
    (hn : s.nullability.covers n = true) (h : ¬ (s.nullability = .nullable ∧ n = .notNull)) :
    absorbs r s f n b = true :=
  Bool.and_eq_true_iff.2 ⟨hab, beq_iff_eq.2 (ObjectNullability.join_eq_left hn h)⟩

/-- An element is the join of itself and what it covers, unless the join loosens the
nullability. -/
theorem key_join_of_covers (hw : (r.hierarchy id).WellFormed) (hs : (r.hierarchy id).Spelled v.type)
    {a b : Element} (ha : a.Normal r id v) (hb : b.Normal r id v) (hab : covers r a b = true)
    (hloose : ¬ Loosens a b) : key (join r a b) = key a := by
  by_cases hkind : a.kind ∈ referenceKinds
  · rcases reference_cases hkind with rfl | ⟨s, f, rfl⟩ | ⟨c, rfl⟩
    · cases covers_iff.1 hab <;> rfl
    · rw [loosens_object_iff] at hloose
      cases covers_iff.1 hab with
      | bottom => rw [join_bottom]
      | objectNull hnull =>
        show key (object s.orNull f) = key (object s f)
        rw [ObjectShape.orNull, if_pos hnull]
      | object hshape hf =>
        rw [nullability?_object_eq_notNull_iff] at hloose
        rw [join_object_object,
          if_pos (absorbs_of_covers hab (ObjectShape.covers_iff.1 hshape).1 hloose)]
      | objectConstant hshape hf =>
        have hnull : ¬ (s.nullability = .nullable ∧ ObjectNullability.notNull = .notNull) :=
          fun h => hloose ⟨h.1, rfl⟩
        rw [join_object_constant,
          if_pos (absorbs_of_covers hab (ObjectShape.covers_iff.1 hshape).1 hnull)]
    · cases covers_iff.1 hab with
      | bottom => rw [join_bottom]
      | constant hcd => rw [join_constant_constant, if_pos hcd]
  · have hjoin := covers_join_of_covers hkind ha hab
    exact key_eq_of_covers hw (normal_join hs ha hb) ha (join_covers hw ha hb).1 hjoin

/-- A reference that is sometimes null does not absorb one that never is, nor is it absorbed. -/
theorem exists_join_of_loosens {a b : Element} (hab : covers r a b = true) (h : Loosens a b) :
    ∃ u f, join r a b = object u f ∧ u.nullability = .unknown := by
  obtain ⟨ha, hb⟩ := h
  cases a using inductionOnFields with
  | object s f =>
    have hs : s.nullability = .nullable := (loosens_object_iff.1 ⟨ha, hb⟩).1
    have hnot {n : ObjectNullability} {b : Element} (hn : n = .notNull) :
        ¬ absorbs r s f n b = true := by
      intro habsorbs
      have hjoin := (Bool.and_eq_true_iff.1 habsorbs).2
      rw [hs, hn] at hjoin
      exact absurd hjoin (by decide)
    cases b using inductionOnFields with
    | object t g =>
      have ht := nullability?_object_eq_notNull_iff.1 hb
      have hnot' : ¬ absorbs r t g s.nullability (object s f) = true := by
        intro habsorbs
        have hts := (covers_object_object.1 (covers_of_absorbs habsorbs)).1
        have hnull := (ObjectShape.covers_iff.1 hts).1
        rw [hs, ht] at hnull
        exact absurd hnull (by decide)
      rw [join_object_object, if_neg (hnot ht), if_neg hnot']
      refine ⟨s.join r t, joinField? r f g, rfl, ?_⟩
      show s.nullability.join t.nullability = .unknown
      rw [hs, ht]
      rfl
    | constant c =>
      rw [join_object_constant, if_neg (hnot (show c.shape.nullability = .notNull from rfl))]
      refine ⟨s.join r c.shape, joinField? r f (fieldOf? c), rfl, ?_⟩
      show s.nullability.join .notNull = .unknown
      rw [hs]
      rfl
    | top => exact absurd hb (by decide)
    | null => exact absurd hb (by decide)
    | _ => exact nomatch hb
  | top => exact absurd ha (by decide)
  | null => exact absurd ha (by decide)
  | constant c => exact absurd ha (by simp [nullability?])
  | _ => exact nomatch ha

/-- Nothing but `top` joins to `top` with what it covers. -/
theorem join_ne_top_of_covers (hw : (r.hierarchy id).WellFormed)
    (hs : (r.hierarchy id).Spelled v.type) {a b : Element} (ha : a.Normal r id v)
    (hb : b.Normal r id v) (hab : covers r a b = true) (htop : a ≠ top) : join r a b ≠ top := by
  intro hjoin
  by_cases hloose : Loosens a b
  · obtain ⟨u, f, hobject, _⟩ := exists_join_of_loosens hab hloose
    exact Element.noConfusion (hjoin.symm.trans hobject)
  · have hkey := key_join_of_covers hw hs ha hb hab hloose
    rw [hjoin] at hkey
    exact htop (eq_top_of_key_eq hkey.symm)

/-- What covers an element is not loosened by it: a reference that never is null does not cover one
that sometimes is. -/
theorem not_loosens_of_covers {a b : Element} (hab : covers r a b = true) : ¬ Loosens b a := by
  rintro ⟨hb, ha⟩
  cases covers_iff.1 hab with
  | top => exact absurd ha (by decide)
  | null => exact absurd hb (by decide)
  | objectNull => exact absurd hb (by decide)
  | objectConstant => exact absurd hb (by simp [nullability?])
  | constant => exact absurd hb (by simp [nullability?])
  | @object s t f g hshape _ =>
    have hs := nullability?_object_eq_notNull_iff.1 ha
    have ht : t.nullability = .nullable := (loosens_object_iff.1 ⟨hb, ha⟩).1
    have hnull := (ObjectShape.covers_iff.1 hshape).1
    rw [hs, ht] at hnull
    exact absurd hnull (by decide)
  | _ => exact nomatch hb

/-! ## References that absorb another one -/

theorem join_shape_of_absorbs (hw : (r.hierarchy id).WellFormed) {s t : ObjectShape}
    {f g : Option (String × Element)} (ha : (object s f).Normal r id v)
    (hb : (object t g).Normal r id v) (h : absorbs r s f t.nullability (object t g) = true) :
    s.join r t = s := by
  obtain ⟨hcovers, hnull⟩ := Bool.and_eq_true_iff.1 h
  exact ObjectShape.join_eq_left hw (normal_object_iff.1 ha).1 (normal_object_iff.1 hb).1
    (covers_object_object.1 hcovers).1 (eq_of_beq hnull)

theorem covers_value_of_absorbs {s t : ObjectShape} {f g : Option (String × Element)}
    {name : String} {x y : Element} {n : ObjectNullability} (hx : (name, x) ∈ f)
    (hy : (name, y) ∈ g) (h : absorbs r s f n (object t g) = true) : covers r x y = true := by
  obtain ⟨z, hz, _, hcovers⟩ := (covers_object_object.1 (covers_of_absorbs h)).2 _ hx
  obtain rfl : (name, y) = z := Option.some.inj (hy.symm.trans hz)
  exact hcovers

/-- The field of a reference that absorbs another one is tracked by both, and something is known of
the join of the two values. -/
theorem field_of_absorbs (hw : (r.hierarchy id).WellFormed)
    (hs : (r.hierarchy id).Spelled v.type) {s t : ObjectShape} {f g : Option (String × Element)}
    (ha : (object s f).Normal r id v) (hb : (object t g).Normal r id v) {n : ObjectNullability}
    (h : absorbs r s f n (object t g) = true) (name : String) :
    (∃ e, (name, e) ∈ f) ↔
      ∃ x y, (name, x) ∈ f ∧ (name, y) ∈ g ∧ join r x y ≠ top := by
  constructor
  · rintro ⟨x, hx⟩
    obtain ⟨⟨name', y⟩, hy, rfl, hcovers⟩ :=
      (covers_object_object.1 (covers_of_absorbs h)).2 _ hx
    have htop : x ≠ top := ((normal_object_iff.1 ha).2 _ hx).2.1
    exact ⟨x, y, hx, hy,
      join_ne_top_of_covers hw hs (normal_value ha hx) (normal_value hb hy) hcovers htop⟩
  · rintro ⟨x, _, hx, _⟩
    exact ⟨x, hx⟩

theorem join_eq_top_comm (hw : (r.hierarchy id).WellFormed) {a b : Element}
    (ha : a.Normal r id v) (hb : b.Normal r id v) : join r a b = top ↔ join r b a = top := by
  have hkey := key_join_comm hw ha hb
  constructor
  · intro htop
    rw [htop] at hkey
    exact eq_top_of_key_eq hkey.symm
  · intro htop
    rw [htop] at hkey
    exact eq_top_of_key_eq hkey

/-! ## The components of a join -/

/-- The first reference absorbs the second one, although the join of the values of their special
fields has unknown nullability. -/
def Overlooks (r : Registry) (name : String) (s : ObjectShape) (x : Element) (t : ObjectShape)
    (y : Element) : Prop :=
  absorbs r s (some (name, x)) t.nullability (object t (some (name, y))) = true ∧ Loosens x y

/-- The value of the special field of the join of two references, if both track it. -/
structure JoinedValue (r : Registry) (name : String) (s : ObjectShape) (x : Element)
    (t : ObjectShape) (y e : Element) : Prop where
  /-- It is the join of the two values. -/
  same : ¬ Overlooks r name s x t y → ¬ Overlooks r name t y s x → e.same (join r x y) = true
  /-- It is the value of an operand that absorbs the other one, and sometimes null. -/
  left : Overlooks r name s x t y →
    e = x ∧ ∃ u f, join r x y = object u f ∧ u.nullability = .unknown
  right : Overlooks r name t y s x →
    e = y ∧ ∃ u f, join r y x = object u f ∧ u.nullability = .unknown

theorem joinedValue_of_absorbs (hw : (r.hierarchy id).WellFormed)
    (hs : (r.hierarchy id).Spelled v.type) {name : String} {s t : ObjectShape} {x y : Element}
    (hx : x.Normal r id v) (hy : y.Normal r id v)
    (h : absorbs r s (some (name, x)) t.nullability (object t (some (name, y))) = true) :
    JoinedValue r name s x t y x := by
  have hcovers : covers r x y = true := covers_value_of_absorbs rfl rfl h
  refine ⟨fun hleft _ => ?_, fun hleft => ⟨rfl, exists_join_of_loosens hcovers hleft.2⟩,
    fun hright => absurd hright.2 (not_loosens_of_covers hcovers)⟩
  have hloose : ¬ Loosens x y := fun hloose => hleft ⟨h, hloose⟩
  exact same_iff.2 (key_join_of_covers hw hs hx hy hcovers hloose).symm

theorem JoinedValue.symm (hw : (r.hierarchy id).WellFormed) {name : String} {s t : ObjectShape}
    {x y e : Element} (hx : x.Normal r id v) (hy : y.Normal r id v)
    (h : JoinedValue r name t y s x e) : JoinedValue r name s x t y e := by
  refine ⟨fun hleft hright => ?_, h.right, h.left⟩
  rw [same_iff, key_join_comm hw hx hy]
  exact same_iff.1 (h.same hright hleft)

/-- Where neither of two references absorbs the other one, the field is joined. -/
theorem joinedValue_join {name : String} {s t : ObjectShape} {x y : Element}
    (hleft : ¬ absorbs r s (some (name, x)) t.nullability (object t (some (name, y))) = true)
    (hright : ¬ absorbs r t (some (name, y)) s.nullability (object s (some (name, x))) = true) :
    JoinedValue r name s x t y (join r x y) where
  same _ _ := same_iff.2 rfl
  left h := absurd h.1 hleft
  right h := absurd h.1 hright

/-- The join of two references has the join of their shapes, and tracks a special field exactly if
both track it and something is known of the join of the values. -/
theorem join_object_eq (hw : (r.hierarchy id).WellFormed) (hs : (r.hierarchy id).Spelled v.type)
    {s t : ObjectShape} {f g : Option (String × Element)} (ha : (object s f).Normal r id v)
    (hb : (object t g).Normal r id v) :
    ∃ h, join r (object s f) (object t g) = object (s.join r t) h ∧
      (∀ name, (∃ e, (name, e) ∈ h) ↔
        ∃ x y, (name, x) ∈ f ∧ (name, y) ∈ g ∧ join r x y ≠ top) ∧
      ∀ name x y e, (name, x) ∈ f → (name, y) ∈ g → (name, e) ∈ h →
        JoinedValue r name s x t y e := by
  rw [join_object_object]
  by_cases hab : absorbs r s f t.nullability (object t g) = true
  · refine ⟨f, ?_, field_of_absorbs hw hs ha hb hab, ?_⟩
    · rw [if_pos hab, join_shape_of_absorbs hw ha hb hab]
    · intro name x y e hx hy he
      obtain ⟨_, rfl⟩ := Prod.mk.inj (Option.some.inj (hx.symm.trans he))
      obtain rfl := Option.mem_def.1 hx
      obtain rfl := Option.mem_def.1 hy
      exact joinedValue_of_absorbs hw hs (normal_value ha hx) (normal_value hb hy) hab
  by_cases hba : absorbs r t g s.nullability (object s f) = true
  · refine ⟨g, ?_, ?_, ?_⟩
    · have hshape := join_shape_of_absorbs hw hb ha hba
      have hcomm :=
        ObjectShape.join_comm hw (normal_object_iff.1 ha).1 (normal_object_iff.1 hb).1
      rw [if_neg hab, if_pos hba, hcomm, hshape]
    · intro name
      rw [field_of_absorbs hw hs hb ha hba name]
      constructor
      · rintro ⟨y, x, hy, hx, htop⟩
        have hcomm := join_eq_top_comm hw (normal_value ha hx) (normal_value hb hy)
        exact ⟨x, y, hx, hy, fun h => htop (hcomm.1 h)⟩
      · rintro ⟨x, y, hx, hy, htop⟩
        have hcomm := join_eq_top_comm hw (normal_value ha hx) (normal_value hb hy)
        exact ⟨y, x, hy, hx, fun h => htop (hcomm.2 h)⟩
    · intro name x y e hx hy he
      obtain ⟨_, rfl⟩ := Prod.mk.inj (Option.some.inj (hy.symm.trans he))
      obtain rfl := Option.mem_def.1 hx
      obtain rfl := Option.mem_def.1 hy
      have hnx := normal_value ha hx
      have hny := normal_value hb hy
      exact (joinedValue_of_absorbs hw hs hny hnx hba).symm hw hnx hny
  · refine ⟨joinField? r f g, ?_, ?_, ?_⟩
    · rw [if_neg hab, if_neg hba, joinObject]
    · intro name
      constructor
      · rintro ⟨e, he⟩
        obtain ⟨⟨_, x⟩, hx, ⟨_, y⟩, hy, rfl, htop, heq⟩ := mem_joinField?_iff.1 he
        obtain ⟨rfl, _⟩ := Prod.mk.inj heq
        exact ⟨x, y, hx, hy, htop⟩
      · rintro ⟨x, y, hx, hy, htop⟩
        exact ⟨join r x y, mem_joinField?_iff.2 ⟨_, hx, _, hy, rfl, htop, rfl⟩⟩
    · intro name x y e hx hy he
      obtain rfl := Option.mem_def.1 hx
      obtain rfl := Option.mem_def.1 hy
      obtain ⟨_, hx', _, hy', _, _, heq⟩ := mem_joinField?_iff.1 he
      obtain rfl := Option.some.inj hx'
      obtain rfl := Option.some.inj hy'
      obtain ⟨_, rfl⟩ := Prod.mk.inj heq
      exact joinedValue_join hab hba

/-- The components of the join of two references, whichever way it is computed: what is common of
nullability and mutability, locality and the special field of both. The field holds the join of the
values, unless one reference absorbs the other one and overlooks that the nullability of this join
is unknown. -/
theorem join_components (hw : (r.hierarchy id).WellFormed) {s t : ObjectShape}
    {f g : Option (String × Element)} (ha : Built r id .any (object s f))
    (hb : Built r id .any (object t g)) :
    ∃ u h, join r (object s f) (object t g) = object u h ∧
      u.constraint.key = (s.constraint.join r t.constraint).key ∧
      u.nullability = (if s.nullability = t.nullability then s.nullability else .unknown) ∧
      u.mutability = (if s.mutability = t.mutability then s.mutability else .unknown) ∧
      (u.isLocal = true ↔ s.isLocal = true ∧ t.isLocal = true) ∧
      (∀ name, (∃ e, (name, e) ∈ h) ↔
        ∃ x y, (name, x) ∈ f ∧ (name, y) ∈ g ∧ join r x y ≠ top) ∧
      ∀ name x y e, (name, x) ∈ f → (name, y) ∈ g → (name, e) ∈ h →
        JoinedValue r name s x t y e := by
  have hs : (r.hierarchy id).Spelled Vocabulary.any.type := fun _ _ _ => trivial
  obtain ⟨h, hjoin, hfield, hvalue⟩ := join_object_eq hw hs (ha.normal hs) (hb.normal hs)
  exact ⟨s.join r t, h, hjoin, rfl, rfl, rfl, Bool.and_eq_true_iff, hfield, hvalue⟩

theorem join_components_texts :
    (textRegistry.hierarchy 0).WellFormed ∧ Built textRegistry 0 .any shortText ∧
      Built textRegistry 0 .any longComparable ∧
      ∃ u h e, join textRegistry shortText longComparable = object u h ∧
        u.nullability = .unknown ∧ u.isLocal = false ∧ (lengthField, e) ∈ h ∧
        e.same (join textRegistry (integral ⟨.int, .range 0 10, none⟩)
          (integral ⟨.int, .range 2 20, none⟩)) = true := by
  have hshort : Built textRegistry 0 .any shortText := built_shortText trivial
  have hlong : Built textRegistry 0 .any longComparable := built_longComparable trivial
  obtain ⟨u, h, hjoin, _, hnull, _, hlocal, hfield, hvalue⟩ :=
    join_components wellFormed_texts hshort hlong
  have htop : join textRegistry (integral ⟨.int, .range 0 10, none⟩)
      (integral ⟨.int, .range 2 20, none⟩) ≠ top := Element.noConfusion
  obtain ⟨e, he⟩ := (hfield lengthField).2 ⟨_, _, rfl, rfl, htop⟩
  have hlocal' : u.isLocal = false := by
    rw [← Bool.not_eq_true, hlocal]
    exact fun h => Bool.noConfusion h.1
  have hloose (s t : IntegralSet) : ¬ Loosens (integral s) (integral t) := fun h => nomatch h.1
  have hsame := (hvalue lengthField _ _ e rfl rfl he).same (fun h => hloose _ _ h.2)
    (fun h => hloose _ _ h.2)
  exact ⟨wellFormed_texts, hshort, hlong, u, h, e, hjoin, hnull, hlocal', he, hsame⟩

/-! ## What is overlooked -/

/-- References of any class. -/
def anyClass (n : ObjectNullability) : Element := object ⟨.top, n, .unknown, false⟩ none

/-- Objects that hold a reference. -/
def holder (n : ObjectNullability) : Element :=
  object notNullShape (some ("content", anyClass n))

theorem built_anyClass (n : ObjectNullability) : Built r id v (anyClass n) := by
  have hobject : ofObject .top n.general .unknown none false = .ok (anyClass n) := by
    cases n <;> rfl
  refine .ofObject .top ?_ ?_ hobject
  · exact fun _ hf => nomatch hf
  · exact fun _ hf => nomatch hf

theorem built_holder (n : ObjectNullability) : Built r id .any (holder n) := by
  have hobject : ofObject .top .notNull .unknown (some ("content", anyClass n)) false =
      .ok (holder n) := rfl
  refine .ofObject .top (fun _ _ => trivial) ?_ hobject
  intro f hf
  exact Option.some.inj hf ▸ built_anyClass n

/-- A special field that is sometimes null stays as it is beside one that never is, although the
join of the values is not known to be null at times. -/
theorem not_join_components :
    (textRegistry.hierarchy 0).WellFormed ∧ Built textRegistry 0 .any (holder .nullable) ∧
      Built textRegistry 0 .any (holder .notNull) ∧
      ¬ ∀ u h e, join textRegistry (holder .nullable) (holder .notNull) = object u h →
        ("content", e) ∈ h →
        e.same (join textRegistry (anyClass .nullable) (anyClass .notNull)) = true := by
  refine ⟨wellFormed_texts, built_holder .nullable, built_holder .notNull, fun hall => ?_⟩
  have hjoin : join textRegistry (holder .nullable) (holder .notNull) = holder .nullable := rfl
  have hsame := hall _ _ (anyClass .nullable) hjoin rfl
  exact absurd hsame (by decide +kernel)

end ValueLattice.Element
