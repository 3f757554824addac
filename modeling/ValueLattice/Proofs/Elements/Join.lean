import ValueLattice.Element.Join
import ValueLattice.Proofs.Elements.Keys

/-!
# The join of elements

Constants join as the objects they belong to, so a join of references has one of two forms: an
operand that absorbs the other one, or the join of the shapes with the join of the special fields.

* `join_object_object` and its companions: these forms, for objects and for constants;
* `joinObject`: the second one of these forms;
* `normal_join`: joins of normal elements are normal;
* `join_covers`: the join contains the values of both elements;
* `key_join_comm`, `key_join_self`: the order of the operands does not matter, and an element is its
  join with itself.
-/

namespace ValueLattice.Element

variable {r : Registry} {id : HierarchyId} {v : Vocabulary}

/-! ## Special fields -/

/-- The special field of a join: the join of the values, if both elements track it. -/
def joinField? (r : Registry) (f g : Option (String × Element)) : Option (String × Element) :=
  match f, g with
  | some (name, value), some (name', value') =>
    if name = name' then bind? name (join r value value') else none
  | _, _ => none

theorem mem_bind?_iff {name : String} {e : Element} {f : String × Element} :
    f ∈ bind? name e ↔ e ≠ top ∧ f = (name, e) := by
  cases e <;> simp [bind?, eq_comm]

theorem mem_joinField?_iff {f g : Option (String × Element)} {z : String × Element} :
    z ∈ joinField? r f g ↔ ∃ x ∈ f, ∃ y ∈ g, x.1 = y.1 ∧ join r x.2 y.2 ≠ top ∧
      z = (x.1, join r x.2 y.2) := by
  rcases f with _ | ⟨name, value⟩
  · simp [joinField?]
  rcases g with _ | ⟨name', value'⟩
  · simp [joinField?]
  by_cases hname : name = name'
  · simp only [joinField?, if_pos hname, mem_bind?_iff]
    simp [hname]
  · simp [joinField?, hname]

theorem normal_joinField? {f g : Option (String × Element)} (hf : ∀ x ∈ f, NormalField r id v x)
    (hjoin : ∀ x ∈ f, ∀ y ∈ g, (join r x.2 y.2).Normal r id v) :
    ∀ z ∈ joinField? r f g, NormalField r id v z := by
  intro z hz
  obtain ⟨x, hx, y, hy, _, htop, rfl⟩ := mem_joinField?_iff.1 hz
  exact ⟨(hf x hx).1, htop, hjoin x hx y hy⟩

theorem joinField?_covers {f g : Option (String × Element)}
    (hjoin : ∀ x ∈ f, ∀ y ∈ g,
      covers r (join r x.2 y.2) x.2 = true ∧ covers r (join r x.2 y.2) y.2 = true) :
    FieldCovers r (joinField? r f g) f ∧ FieldCovers r (joinField? r f g) g := by
  constructor
  · intro z hz
    obtain ⟨x, hx, y, hy, _, _, rfl⟩ := mem_joinField?_iff.1 hz
    exact ⟨x, hx, rfl, (hjoin x hx y hy).1⟩
  · intro z hz
    obtain ⟨x, hx, y, hy, hname, _, rfl⟩ := mem_joinField?_iff.1 hz
    exact ⟨y, hy, hname, (hjoin x hx y hy).2⟩

theorem fieldKey_bind?_congr {name : String} {e e' : Element} (h : key e = key e') :
    fieldKey (bind? name e) = fieldKey (bind? name e') := by
  have hkey {e : Element} (htop : e ≠ top) : bind? name e = some (name, e) :=
    mem_bind?_iff.2 ⟨htop, rfl⟩
  by_cases htop : e = top
  · subst htop
    rw [eq_top_of_key_eq h.symm]
  · have htop' : e' ≠ top := fun htop' => htop (eq_top_of_key_eq (htop' ▸ h))
    rw [hkey htop, hkey htop', fieldKey, fieldKey, h]

theorem fieldKey_joinField?_comm {f g : Option (String × Element)}
    (hjoin : ∀ x ∈ f, ∀ y ∈ g, key (join r x.2 y.2) = key (join r y.2 x.2)) :
    fieldKey (joinField? r f g) = fieldKey (joinField? r g f) := by
  rcases f with _ | ⟨name, value⟩ <;> rcases g with _ | ⟨name', value'⟩
  · rfl
  · rfl
  · rfl
  · by_cases hname : name = name'
    · subst hname
      simp only [joinField?, if_true]
      exact fieldKey_bind?_congr (hjoin _ rfl _ rfl)
    · simp only [joinField?, if_neg hname, if_neg (Ne.symm hname)]

/-! ## The forms of a join -/

/-- The objects that belong to either of two shapes, with what their special fields share. -/
def joinObject (r : Registry) (s : ObjectShape) (f : Option (String × Element)) (t : ObjectShape)
    (g : Option (String × Element)) : Element :=
  object (s.join r t) (joinField? r f g)

theorem join_object_object (s t : ObjectShape) (f g : Option (String × Element)) :
    join r (object s f) (object t g) =
      if absorbs r s f t.nullability (object t g) then object s f
      else if absorbs r t g s.nullability (object s f) then object t g
      else joinObject r s f t g := by
  rcases f with _ | ⟨name, value⟩ <;> rcases g with _ | ⟨name', value'⟩ <;> rfl

theorem join_object_constant (s : ObjectShape) (f : Option (String × Element))
    (c : ReferenceConstant) : join r (object s f) (constant c) =
      if absorbs r s f c.shape.nullability (constant c) then object s f
      else joinObject r s f c.shape (fieldOf? c) := by
  rcases c with ⟨_ | _, _, _⟩ <;> rcases f with _ | ⟨name, value⟩ <;> rfl

theorem joinIntegral_integral (s t : IntegralSet) : joinIntegral s (integral t) =
    if s.width = t.width then ofIntegral? (s.join? t) else top := rfl

theorem join_floating_floating (w w' : FloatingWidth) (s t : FloatingSet) :
    join r (floating w s) (floating w' t) =
      if w = w' then floating w (s.join t) else top := rfl

theorem joinLength?_eq (c : ReferenceConstant) (f : Option (String × Element)) :
    joinLength? (length? c.payload) f = joinField? r (fieldOf? c) f := by
  rcases c with ⟨_ | _, _, _⟩ <;> rcases f with _ | ⟨name, value⟩ <;> rfl

theorem join_constant_object (s : ObjectShape) (f : Option (String × Element))
    (c : ReferenceConstant) : join r (constant c) (object s f) =
      if absorbs r s f c.shape.nullability (constant c) then object s f
      else joinObject r c.shape (fieldOf? c) s f := by
  rw [joinObject, ← joinLength?_eq]
  rcases f with _ | ⟨name, value⟩ <;> rfl

theorem join_constant_constant (c d : ReferenceConstant) :
    join r (constant c) (constant d) =
      if c.covers r d then constant c
      else if d.covers r c then constant d
      else joinObject r c.shape (fieldOf? c) d.shape (fieldOf? d) := by
  rw [joinObject, ← joinLength?_eq]
  rfl

/-! ## Sets of integers -/

theorem normal_joinIntegral {s : IntegralSet} {b : Element} (hs : s.Normal)
    (hb : b.Normal r id v) : (joinIntegral s b).Normal r id v := by
  cases b with
  | bottom => exact hs
  | integral t =>
    rw [joinIntegral_integral]
    split
    · obtain ⟨u, hu, hnormal, _⟩ := IntegralSet.exists_join? hs hb
      rw [hu]
      exact hnormal
    · trivial
  | _ => trivial

theorem joinIntegral_covers {s : IntegralSet} {b : Element} (hs : s.Normal)
    (hb : b.Normal r id v) : covers r (joinIntegral s b) (integral s) = true ∧
      covers r (joinIntegral s b) b = true := by
  cases b with
  | bottom => exact ⟨covers_self r _, rfl⟩
  | integral t =>
    rw [joinIntegral_integral]
    split
    · next hwidth =>
      obtain ⟨u, hu, _⟩ := IntegralSet.exists_join? hs hb
      rw [hu]
      exact IntegralSet.join?_covers hs hb hwidth hu
    · exact ⟨rfl, rfl⟩
  | _ => exact ⟨rfl, rfl⟩

theorem key_joinIntegral_comm {s : IntegralSet} {b : Element} (hs : s.Normal)
    (hb : b.Normal r id v) : key (joinIntegral s b) = key (join r b (integral s)) := by
  cases b with
  | integral t =>
    rw [integral_join, joinIntegral_integral, joinIntegral_integral]
    by_cases hwidth : s.width = t.width
    · rw [if_pos hwidth, if_pos hwidth.symm]
      obtain ⟨u, u', hu, hu', hkey⟩ := IntegralSet.join?_comm hs hb hwidth
      rw [hu, hu']
      exact hkey
    · rw [if_neg hwidth, if_neg (Ne.symm hwidth)]
  | _ => rfl

/-! ## Normal forms -/

/-- Fields of constants hold sets of integers, whose joins are normal. -/
theorem normal_join_fieldOf? {c : ReferenceConstant} {g : Option (String × Element)}
    (hg : ∀ y ∈ g, NormalField r id v y) :
    ∀ x ∈ fieldOf? c, ∀ y ∈ g, (join r x.2 y.2).Normal r id v := by
  intro x hx y hy
  obtain ⟨s, _, rfl⟩ := mem_fieldOf?_iff.1 hx
  exact normal_joinIntegral (IntegralSet.normal_point _ _) (hg y hy).normal

theorem normal_object_orNull {shape : ObjectShape} {field : Option (String × Element)}
    (h : (object shape field).Normal r id v) : (object shape.orNull field).Normal r id v :=
  normal_object_iff.2 ((normal_object_iff.1 h).imp_left ObjectShape.normal_orNull)

theorem normal_joinObject (hspelled : (r.hierarchy id).Spelled v.type) {s t : ObjectShape}
    {f g : Option (String × Element)} (ha : (object s f).Normal r id v)
    (hb : (object t g).Normal r id v)
    (hvalues : ∀ x ∈ f, ∀ y ∈ g, (join r x.2 y.2).Normal r id v) :
    (joinObject r s f t g).Normal r id v := by
  obtain ⟨hs, hf⟩ := normal_object_iff.1 ha
  obtain ⟨ht, _⟩ := normal_object_iff.1 hb
  exact normal_object_iff.2
    ⟨ObjectShape.normal_join hspelled hs ht, normal_joinField? hf hvalues⟩

theorem normal_join (hs : (r.hierarchy id).Spelled v.type) {a b : Element}
    (ha : a.Normal r id v) (hb : b.Normal r id v) : (join r a b).Normal r id v := by
  induction a using inductionOnFields generalizing b with
  | top => trivial
  | bottom => exact hb
  | boolean s => cases b <;> trivial
  | integral s => exact normal_joinIntegral ha hb
  | floating w s =>
    cases b with
    | bottom => exact ha
    | floating w' t =>
      rw [join_floating_floating]
      split
      · exact FloatingSet.valid_join ha hb
      · trivial
    | _ => trivial
  | null =>
    cases b with
    | object shape field => exact normal_object_orNull hb
    | constant c => exact normal_object_orNull (normal_asObject hb)
    | _ => trivial
  | object shape field ih =>
    -- The values of the field are nested in `a`, so their joins are normal by induction.
    have hvalues {g : Option (String × Element)} (hg : ∀ y ∈ g, NormalField r id v y) :
        ∀ x ∈ field, ∀ y ∈ g, (join r x.2 y.2).Normal r id v := by
      intro x hx y hy
      exact ih x hx (normal_value ha hx) (hg y hy).normal
    cases b with
    | bottom => exact ha
    | null => exact normal_object_orNull ha
    | object shape' field' =>
      rw [join_object_object]
      split
      · exact ha
      split
      · exact hb
      exact normal_joinObject hs ha hb (hvalues (normal_object_iff.1 hb).2)
    | constant c =>
      rw [join_object_constant]
      split
      · exact ha
      · exact normal_joinObject hs ha (normal_asObject hb) (hvalues normalField_fieldOf?)
    | _ => trivial
  | constant c =>
    cases b with
    | bottom => exact ha
    | null => exact normal_object_orNull (normal_asObject ha)
    | object shape field =>
      rw [join_constant_object]
      split
      · exact hb
      · exact normal_joinObject hs (normal_asObject ha) hb
          (normal_join_fieldOf? (normal_object_iff.1 hb).2)
    | constant d =>
      rw [join_constant_constant]
      split
      · exact ha
      split
      · exact hb
      exact normal_joinObject hs (normal_asObject ha) (normal_asObject hb)
        (normal_join_fieldOf? normalField_fieldOf?)
    | _ => trivial

/-! ## Upper bounds -/

theorem covers_of_absorbs {shape : ObjectShape} {field : Option (String × Element)}
    {n : ObjectNullability} {other : Element} (h : absorbs r shape field n other = true) :
    covers r (object shape field) other = true :=
  (Bool.and_eq_true_iff.1 h).1

theorem orNull_covers {shape : ObjectShape} {field : Option (String × Element)} :
    covers r (object shape.orNull field) (object shape field) = true :=
  covers_object_object.2
    ⟨ObjectShape.orNull_covers shape, fun f hf => ⟨f, hf, rfl, covers_self r f.2⟩⟩

theorem join_fieldOf?_covers {c : ReferenceConstant} {g : Option (String × Element)}
    (hg : ∀ y ∈ g, NormalField r id v y) : ∀ x ∈ fieldOf? c, ∀ y ∈ g,
      covers r (join r x.2 y.2) x.2 = true ∧ covers r (join r x.2 y.2) y.2 = true := by
  intro x hx y hy
  obtain ⟨s, _, rfl⟩ := mem_fieldOf?_iff.1 hx
  exact joinIntegral_covers (IntegralSet.normal_point _ _) (hg y hy).normal

theorem joinObject_covers (hw : (r.hierarchy id).WellFormed) {s t : ObjectShape}
    {f g : Option (String × Element)} (ha : (object s f).Normal r id v)
    (hb : (object t g).Normal r id v)
    (hvalues : ∀ x ∈ f, ∀ y ∈ g,
      covers r (join r x.2 y.2) x.2 = true ∧ covers r (join r x.2 y.2) y.2 = true) :
    covers r (joinObject r s f t g) (object s f) = true ∧
      covers r (joinObject r s f t g) (object t g) = true := by
  obtain ⟨hs, ht⟩ :=
    ObjectShape.join_covers hw (normal_object_iff.1 ha).1 (normal_object_iff.1 hb).1
  obtain ⟨hf, hg⟩ := joinField?_covers hvalues
  exact ⟨covers_object_object.2 ⟨hs, hf⟩, covers_object_object.2 ⟨ht, hg⟩⟩

/-- An object covers a constant as soon as it covers the object the constant belongs to. -/
theorem joinObject_covers_constant {s t : ObjectShape} {f g : Option (String × Element)}
    {c : ReferenceConstant} (h : covers r (joinObject r s f t g) (asObject c) = true) :
    covers r (joinObject r s f t g) (constant c) = true := by
  rw [joinObject, object_covers_constant]
  exact h

theorem join_covers (hw : (r.hierarchy id).WellFormed) {a b : Element}
    (ha : a.Normal r id v) (hb : b.Normal r id v) :
    covers r (join r a b) a = true ∧ covers r (join r a b) b = true := by
  induction a using inductionOnFields generalizing b with
  | top => exact ⟨rfl, rfl⟩
  | bottom => exact ⟨covers_bottom r _, covers_self r _⟩
  | boolean s =>
    cases b with
    | bottom => exact ⟨covers_self r _, rfl⟩
    | boolean t =>
      show (s.join t).covers s = true ∧ (s.join t).covers t = true
      exact BooleanSet.join_covers s t
    | _ => exact ⟨rfl, rfl⟩
  | integral s => exact joinIntegral_covers ha hb
  | floating w s =>
    cases b with
    | bottom => exact ⟨covers_self r _, rfl⟩
    | floating w' t =>
      rw [join_floating_floating]
      split
      · next hwidth =>
        subst hwidth
        obtain ⟨hs, ht⟩ := FloatingSet.join_covers ha hb
        exact ⟨covers_iff.2 (.floating hs), covers_iff.2 (.floating ht)⟩
      · exact ⟨rfl, rfl⟩
    | _ => exact ⟨rfl, rfl⟩
  | null =>
    cases b with
    | object shape field =>
      refine ⟨?_, orNull_covers⟩
      show shape.orNull.nullability.mayBeNull = true
      exact ObjectShape.mayBeNull_orNull shape
    | constant c =>
      refine ⟨ObjectShape.mayBeNull_orNull c.shape, ?_⟩
      show covers r (object c.shape.orNull (fieldOf? c)) (constant c) = true
      rw [object_covers_constant]
      exact orNull_covers
    | _ => exact ⟨rfl, rfl⟩
  | object shape field ih =>
    -- By induction, the joins of the values of the field are upper bounds.
    have hvalues {g : Option (String × Element)} (hg : ∀ y ∈ g, NormalField r id v y) :
        ∀ x ∈ field, ∀ y ∈ g,
          covers r (join r x.2 y.2) x.2 = true ∧ covers r (join r x.2 y.2) y.2 = true := by
      intro x hx y hy
      exact ih x hx (normal_value ha hx) (hg y hy).normal
    cases b with
    | bottom => exact ⟨covers_self r _, rfl⟩
    | null => exact ⟨orNull_covers, ObjectShape.mayBeNull_orNull shape⟩
    | object shape' field' =>
      rw [join_object_object]
      split
      · next h => exact ⟨covers_self r _, covers_of_absorbs h⟩
      split
      · next h => exact ⟨covers_of_absorbs h, covers_self r _⟩
      exact joinObject_covers hw ha hb (hvalues (normal_object_iff.1 hb).2)
    | constant c =>
      rw [join_object_constant]
      split
      · next h => exact ⟨covers_self r _, covers_of_absorbs h⟩
      · obtain ⟨hobject, hconstant⟩ :=
          joinObject_covers hw ha (normal_asObject hb) (hvalues normalField_fieldOf?)
        exact ⟨hobject, joinObject_covers_constant hconstant⟩
    | _ => exact ⟨rfl, rfl⟩
  | constant c =>
    cases b with
    | bottom => exact ⟨covers_self r _, rfl⟩
    | null =>
      refine ⟨?_, ObjectShape.mayBeNull_orNull c.shape⟩
      show covers r (object c.shape.orNull (fieldOf? c)) (constant c) = true
      rw [object_covers_constant]
      exact orNull_covers
    | object shape field =>
      rw [join_constant_object]
      split
      · next h => exact ⟨covers_of_absorbs h, covers_self r _⟩
      · obtain ⟨hconstant, hobject⟩ := joinObject_covers hw (normal_asObject ha) hb
          (join_fieldOf?_covers (normal_object_iff.1 hb).2)
        exact ⟨joinObject_covers_constant hconstant, hobject⟩
    | constant d =>
      rw [join_constant_constant]
      split
      · next h => exact ⟨covers_self r _, h⟩
      split
      · next h => exact ⟨h, covers_self r _⟩
      obtain ⟨hc, hd⟩ := joinObject_covers hw (normal_asObject ha) (normal_asObject hb)
        (join_fieldOf?_covers (@normalField_fieldOf? r id v d))
      exact ⟨joinObject_covers_constant hc, joinObject_covers_constant hd⟩
    | _ => exact ⟨rfl, rfl⟩

/-! ## The order of the operands -/

theorem key_join_fieldOf?_comm {c : ReferenceConstant} {g : Option (String × Element)}
    (hg : ∀ y ∈ g, NormalField r id v y) : ∀ x ∈ fieldOf? c, ∀ y ∈ g,
      key (join r x.2 y.2) = key (join r y.2 x.2) := by
  intro x hx y hy
  obtain ⟨s, _, rfl⟩ := mem_fieldOf?_iff.1 hx
  exact key_joinIntegral_comm (IntegralSet.normal_point _ _) (hg y hy).normal

theorem key_joinObject_comm (hw : (r.hierarchy id).WellFormed) {s t : ObjectShape}
    {f g : Option (String × Element)} (ha : (object s f).Normal r id v)
    (hb : (object t g).Normal r id v)
    (hvalues : ∀ x ∈ f, ∀ y ∈ g, key (join r x.2 y.2) = key (join r y.2 x.2)) :
    key (joinObject r s f t g) = key (joinObject r t g s f) := by
  obtain ⟨hs, _⟩ := normal_object_iff.1 ha
  obtain ⟨ht, _⟩ := normal_object_iff.1 hb
  rw [joinObject, joinObject, key_object, key_object, ObjectShape.join_comm hw hs ht,
    fieldKey_joinField?_comm hvalues]

theorem key_join_comm (hw : (r.hierarchy id).WellFormed) {a b : Element}
    (ha : a.Normal r id v) (hb : b.Normal r id v) : key (join r a b) = key (join r b a) := by
  induction a using inductionOnFields generalizing b with
  | top => rw [top_join, join_top]
  | bottom => rw [bottom_join, join_bottom]
  | boolean s =>
    cases b with
    | boolean t =>
      show key (boolean (s.join t)) = key (boolean (t.join s))
      rw [BooleanSet.join_comm]
    | _ => rfl
  | integral s => exact key_joinIntegral_comm ha hb
  | floating w s =>
    cases b with
    | floating w' t =>
      rw [join_floating_floating, join_floating_floating]
      by_cases hwidth : w = w'
      · rw [if_pos hwidth, if_pos hwidth.symm, ← hwidth]
        exact FloatingSet.key_join_comm ha hb w
      · rw [if_neg hwidth, if_neg (Ne.symm hwidth)]
    | _ => rfl
  | null => cases b <;> rfl
  | object shape field ih =>
    have hvalues {g : Option (String × Element)} (hg : ∀ y ∈ g, NormalField r id v y) :
        ∀ x ∈ field, ∀ y ∈ g, key (join r x.2 y.2) = key (join r y.2 x.2) := by
      intro x hx y hy
      exact ih x hx (normal_value ha hx) (hg y hy).normal
    cases b with
    | object shape' field' =>
      rw [join_object_object, join_object_object]
      apply apply_choice_comm
      · intro hab hba
        exact key_eq_of_covers hw ha hb (covers_of_absorbs hab) (covers_of_absorbs hba)
      · intro _ _
        exact key_joinObject_comm hw ha hb (hvalues (normal_object_iff.1 hb).2)
    | constant c =>
      rw [join_object_constant, join_constant_object]
      split
      · rfl
      · exact key_joinObject_comm hw ha (normal_asObject hb) (hvalues normalField_fieldOf?)
    | _ => rfl
  | constant c =>
    cases b with
    | object shape field =>
      rw [join_object_constant, join_constant_object]
      split
      · rfl
      · exact key_joinObject_comm hw (normal_asObject ha) hb
          (key_join_fieldOf?_comm (normal_object_iff.1 hb).2)
    | constant d =>
      rw [join_constant_constant, join_constant_constant]
      apply apply_choice_comm
      · exact key_eq_of_covers hw ha hb
      · intro _ _
        exact key_joinObject_comm hw (normal_asObject ha) (normal_asObject hb)
          (key_join_fieldOf?_comm (@normalField_fieldOf? r id v d))
    | _ => rfl

theorem key_join_self {a : Element} (ha : a.Normal r id v) : key (join r a a) = key a := by
  cases a with
  | top => rfl
  | bottom => rfl
  | boolean s =>
    show key (boolean (s.join s)) = key (boolean s)
    rw [BooleanSet.join, if_pos (BooleanSet.covers_self s)]
  | integral s =>
    obtain ⟨u, hu, hkey⟩ := IntegralSet.join?_self ha
    rw [integral_join, joinIntegral_integral, if_pos rfl, hu]
    exact hkey
  | floating w s =>
    rw [join_floating_floating, if_pos rfl, FloatingSet.join, if_pos (FloatingSet.covers_self s)]
  | null => rfl
  | object shape field =>
    have hself : absorbs r shape field shape.nullability (object shape field) = true := by
      simp [absorbs, ObjectNullability.join]
    rw [join_object_object, if_pos hself]
  | constant c => rw [join_constant_constant, if_pos (ReferenceConstant.covers_self r c)]

end ValueLattice.Element
