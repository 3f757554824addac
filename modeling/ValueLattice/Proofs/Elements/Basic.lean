import ValueLattice.Element.Order
import ValueLattice.Proofs.FloatingSets
import ValueLattice.Proofs.IntegralSets
import ValueLattice.Proofs.Shapes

/-!
# Elements in normal form, and the order as a relation

* `Vocabulary`: which names and texts the elements of an analysis are made of;
* `Normal`: the invariant of the elements of one hierarchy, at every depth of special fields;
* `Covers`: the order by the cases in which one element covers another one, `covers_iff` says that
  it is what `covers` decides;
* `inductionOnFields`: induction over the nesting of special fields, tracked or not.
-/

namespace ValueLattice

/-- The names of types, the names of special fields and the texts of string constants in use. -/
structure Vocabulary where
  type : String → Prop
  field : String → Prop
  text : String → Prop
  lengthField_allowed : field Element.lengthField

namespace Vocabulary

/-- No restriction. -/
def any : Vocabulary := ⟨fun _ => True, fun _ => True, fun _ => True, trivial⟩

/-- Names without the marks that separate the parts of a key: `&` and `|` in the names of types,
`=` in the names of special fields. -/
def plain : Vocabulary :=
  ⟨fun name => '&' ∉ name.toList ∧ '|' ∉ name.toList, fun name => '=' ∉ name.toList,
    fun _ => True, by decide⟩

instance (name : String) : Decidable (plain.type name) :=
  inferInstanceAs (Decidable ('&' ∉ name.toList ∧ '|' ∉ name.toList))

end Vocabulary

/-! ## Sets of truth values -/

namespace BooleanSet

theorem covers_trans {s t u : BooleanSet} (hst : s.covers t = true) (htu : t.covers u = true) :
    s.covers u = true := by
  simp only [covers, Bool.or_eq_true, beq_iff_eq] at hst htu ⊢
  rcases hst with hst | rfl
  · exact .inl hst
  · exact htu

theorem covers_antisymm {s t : BooleanSet} (hst : s.covers t = true) (hts : t.covers s = true) :
    s = t := by
  simp only [covers, Bool.or_eq_true, beq_iff_eq] at hst hts
  rcases hst with rfl | rfl
  · rcases hts with rfl | rfl <;> rfl
  · rfl

theorem join_covers (s t : BooleanSet) :
    (s.join t).covers s = true ∧ (s.join t).covers t = true := by
  rcases s with _ | _ | _ <;> rcases t with _ | _ | _ <;> decide

theorem join_comm (s t : BooleanSet) : s.join t = t.join s := by
  rcases s with _ | _ | _ <;> rcases t with _ | _ | _ <;> rfl

theorem meet?_comm (s t : BooleanSet) : s.meet? t = t.meet? s := by
  rcases s with _ | _ | _ <;> rcases t with _ | _ | _ <;> rfl

theorem covers_meet? {s t u : BooleanSet} (h : s.meet? t = some u) :
    s.covers u = true ∧ t.covers u = true := by
  unfold meet? at h
  split at h
  · next hst => exact Option.some.inj h ▸ ⟨hst, covers_self t⟩
  split at h
  · next hts => exact Option.some.inj h ▸ ⟨covers_self s, hts⟩
  · exact nomatch h

theorem exists_meet?_covers {s t z : BooleanSet} (hsz : s.covers z = true)
    (htz : t.covers z = true) : ∃ u, s.meet? t = some u ∧ u.covers z = true := by
  unfold meet?
  by_cases hst : s.covers t = true
  · exact ⟨t, if_pos hst, htz⟩
  rw [if_neg hst]
  by_cases hts : t.covers s = true
  · exact ⟨s, if_pos hts, hsz⟩
  -- Two sets that are not comparable are single values, of which one is covered by both.
  revert hsz htz hst hts
  rcases s with _ | _ | _ <;> rcases t with _ | _ | _ <;> rcases z with _ | _ | _ <;> decide

end BooleanSet

namespace Element

variable {r : Registry} {id : HierarchyId} {v : Vocabulary}

/-- Induction over the nesting of special fields. -/
theorem inductionOnFields {motive : Element → Prop} (top : motive top) (bottom : motive bottom)
    (boolean : ∀ s, motive (boolean s)) (integral : ∀ s, motive (integral s))
    (floating : ∀ w s, motive (floating w s)) (null : motive null)
    (object : ∀ shape field, (∀ f ∈ field, motive f.2) → motive (object shape field))
    (constant : ∀ c, motive (constant c)) (e : Element) : motive e := by
  induction e with
  | top => exact top
  | bottom => exact bottom
  | boolean s => exact boolean s
  | integral s => exact integral s
  | floating w s => exact floating w s
  | null => exact null
  | plain shape => exact object shape none fun f hf => nomatch hf
  | tracked shape name value ih => exact object shape _ fun f hf => Option.some.inj hf ▸ ih
  | constant c => exact constant c

/-! ## Normal forms -/

/-- The invariant of the elements of one hierarchy. -/
def Normal (r : Registry) (id : HierarchyId) (v : Vocabulary) : Element → Prop
  | integral s => s.Normal
  | floating _ s => s.Valid
  | object shape none => shape.Normal r id v.type
  | object shape (some (name, value)) =>
    shape.Normal r id v.type ∧ v.field name ∧ value ≠ top ∧ Normal r id v value
  | constant c => c.constraint.Normal r id v.type
  | _ => True

/-- The invariant of a special field. -/
def NormalField (r : Registry) (id : HierarchyId) (v : Vocabulary) (f : String × Element) : Prop :=
  v.field f.1 ∧ f.2 ≠ top ∧ f.2.Normal r id v

theorem normal_object_iff {shape : ObjectShape} {field : Option (String × Element)} :
    (object shape field).Normal r id v ↔
      shape.Normal r id v.type ∧ ∀ f ∈ field, NormalField r id v f := by
  rcases field with _ | ⟨name, value⟩
  · simp [Normal]
  · simp [Normal, NormalField]

theorem NormalField.normal {f : String × Element} (h : NormalField r id v f) :
    f.2.Normal r id v := h.2.2

/-- What is nested in an element in normal form is in normal form. -/
theorem normal_value {shape : ObjectShape} {field : Option (String × Element)}
    (h : (object shape field).Normal r id v) {f : String × Element} (hf : f ∈ field) :
    f.2.Normal r id v :=
  ((normal_object_iff.1 h).2 f hf).normal

/-- The element of a set that may not exist: `ofBoolean?`, `ofIntegral?` and `ofFloating?` have this
form. -/
theorem normal_elim {α : Type} {f : α → Element} {s : Option α}
    (h : ∀ t ∈ s, (f t).Normal r id v) : (s.elim bottom f).Normal r id v := by
  cases s with
  | none => trivial
  | some t => exact h t rfl

/-! ## Constants as objects -/

theorem normal_shape {c : ReferenceConstant} (hc : (constant c).Normal r id v) :
    c.shape.Normal r id v.type :=
  ⟨fun h => Bool.noConfusion h, hc⟩

/-- The special field of a constant is the length of a string. -/
theorem mem_fieldOf?_iff {c : ReferenceConstant} {f : String × Element} :
    f ∈ fieldOf? c ↔ ∃ s, c.payload = .string s ∧
      f = (lengthField, integral (.point .int (Text.unitLength s))) := by
  unfold fieldOf?
  cases c.payload with
  | string s => simp [length?, eq_comm]
  | enumMember type name => simp [length?]
  | declaredField owner name type => simp [length?]
  | typeLiteral name => simp [length?]
  | boxed literal => simp [length?]

theorem normalField_fieldOf? {c : ReferenceConstant} :
    ∀ f ∈ fieldOf? c, NormalField r id v f := by
  intro f hf
  obtain ⟨s, _, rfl⟩ := mem_fieldOf?_iff.1 hf
  exact ⟨v.lengthField_allowed, Element.noConfusion, IntegralSet.normal_point _ _⟩

theorem normal_asObject {c : ReferenceConstant} (hc : (constant c).Normal r id v) :
    (asObject c).Normal r id v :=
  normal_object_iff.2 ⟨normal_shape hc, normalField_fieldOf?⟩

/-! ## The order -/

/-- Whether a special field is tracked wherever the first one is, with a value that it covers. -/
def FieldCovers (r : Registry) (field field' : Option (String × Element)) : Prop :=
  ∀ f ∈ field, ∃ f' ∈ field', f.1 = f'.1 ∧ covers r f.2 f'.2 = true

/-- The cases in which every value of the second element is a value of the first one. -/
inductive Covers (r : Registry) : Element → Element → Prop where
  | top (b : Element) : Covers r top b
  | bottom (a : Element) : Covers r a bottom
  | boolean {s t : BooleanSet} : s.covers t = true → Covers r (boolean s) (boolean t)
  | integral {s t : IntegralSet} : s.covers t = true → Covers r (integral s) (integral t)
  | floating {w : FloatingWidth} {s t : FloatingSet} : s.covers t = true →
      Covers r (floating w s) (floating w t)
  | null : Covers r null null
  | objectNull {shape : ObjectShape} {field : Option (String × Element)} :
      shape.nullability.mayBeNull = true → Covers r (object shape field) null
  | object {shape shape' : ObjectShape} {field field' : Option (String × Element)} :
      shape.covers r shape' = true → FieldCovers r field field' →
      Covers r (object shape field) (object shape' field')
  | objectConstant {shape : ObjectShape} {field : Option (String × Element)}
      {c : ReferenceConstant} : shape.covers r c.shape = true → FieldCovers r field (fieldOf? c) →
      Covers r (object shape field) (constant c)
  | constant {c d : ReferenceConstant} : c.covers r d = true →
      Covers r (constant c) (constant d)

theorem covers_object_object {shape shape' : ObjectShape}
    {field field' : Option (String × Element)} :
    covers r (object shape field) (object shape' field') = true ↔
      shape.covers r shape' = true ∧ FieldCovers r field field' := by
  rcases field with _ | ⟨name, value⟩ <;> rcases field' with _ | ⟨name', value'⟩ <;>
    simp [covers, FieldCovers]

theorem covers_object_constant {shape : ObjectShape} {field : Option (String × Element)}
    {c : ReferenceConstant} : covers r (object shape field) (constant c) = true ↔
      shape.covers r c.shape = true ∧ FieldCovers r field (fieldOf? c) := by
  rw [object_covers_constant, asObject, covers_object_object]

/-- The relation is what `covers` decides. -/
theorem covers_iff {a b : Element} : covers r a b = true ↔ Covers r a b := by
  constructor
  · intro h
    cases a with
    | top => exact .top b
    | bottom =>
      cases b with
      | bottom => exact .bottom _
      | _ => exact Bool.noConfusion h
    | boolean s =>
      cases b with
      | bottom => exact .bottom _
      | boolean t => exact .boolean h
      | _ => exact Bool.noConfusion h
    | integral s =>
      cases b with
      | bottom => exact .bottom _
      | integral t => exact .integral h
      | _ => exact Bool.noConfusion h
    | floating w s =>
      cases b with
      | bottom => exact .bottom _
      | floating v t =>
        obtain ⟨hwv, h⟩ := Bool.and_eq_true_iff.1 h
        rw [← eq_of_beq hwv]
        exact .floating h
      | _ => exact Bool.noConfusion h
    | null =>
      cases b with
      | bottom => exact .bottom _
      | null => exact .null
      | _ => exact Bool.noConfusion h
    | object shape field =>
      cases b with
      | bottom => exact .bottom _
      | null => exact .objectNull h
      | object shape' field' =>
        obtain ⟨hs, hf⟩ := covers_object_object.1 h
        exact .object hs hf
      | constant c =>
        obtain ⟨hs, hf⟩ := covers_object_constant.1 h
        exact .objectConstant hs hf
      | _ => exact Bool.noConfusion h
    | constant c =>
      cases b with
      | bottom => exact .bottom _
      | constant d => exact .constant h
      | _ => exact Bool.noConfusion h
  · intro h
    cases h with
    | top b => rfl
    | bottom a => exact covers_bottom r a
    | boolean h => exact h
    | integral h => exact h
    | floating h => exact Bool.and_eq_true_iff.2 ⟨beq_self_eq_true _, h⟩
    | null => rfl
    | objectNull h => exact h
    | object hs hf => exact covers_object_object.2 ⟨hs, hf⟩
    | objectConstant hs hf => exact covers_object_constant.2 ⟨hs, hf⟩
    | constant h => exact h

end Element

end ValueLattice
