import ValueLattice.Element.Text
import ValueLattice.Proofs.Elements.Basic

/-!
# The order of elements and the texts that identify them

* `covers_trans`: the order of normal elements is transitive;
* `key_eq_of_covers`: elements that cover each other have one key.
-/

namespace ValueLattice

namespace Payload

/-- The kind of a payload begins its key, and the text of a string can be read from it. -/
theorem eq_string_of_key_eq {s : String} {y : Payload} (h : (string s).key = y.key) :
    y = string s := by
  cases y with
  | string t =>
    have hst : Text.quoted Text.isControl s = Text.quoted Text.isControl t :=
      (String.append_right_inj _).1 h
    rw [Text.quoted_inj hst]
  | _ =>
    have hlist := congrArg String.toList h
    simp [key] at hlist

/-- Payloads with one key have one length. -/
theorem length?_eq_of_key_eq {x y : Payload} (h : x.key = y.key) :
    Element.length? x = Element.length? y := by
  cases x with
  | string s => rw [eq_string_of_key_eq h]
  | _ =>
    cases y with
    | string t => exact nomatch eq_string_of_key_eq h.symm
    | _ => rfl

end Payload

namespace Element

variable {r : Registry} {id : HierarchyId} {v : Vocabulary}

/-! ## Transitivity -/

theorem eq_bottom_of_bottom_covers {b : Element} (h : covers r bottom b = true) : b = bottom := by
  cases covers_iff.1 h
  rfl

theorem covers_of_bottom_covers {a b : Element} (h : covers r bottom b = true) :
    covers r a b = true := by
  rw [eq_bottom_of_bottom_covers h]
  exact covers_bottom r a

theorem eq_top_of_covers_top {a : Element} (h : covers r a top = true) : a = top := by
  cases covers_iff.1 h
  rfl

theorem fieldOf?_eq_of_covers {c d : ReferenceConstant} (h : c.covers r d = true) :
    fieldOf? c = fieldOf? d := by
  rw [fieldOf?, fieldOf?, Payload.length?_eq_of_key_eq (eq_of_beq (Bool.and_eq_true_iff.1 h).1)]

theorem shape_covers_of_covers {c d : ReferenceConstant} (h : c.covers r d = true) :
    c.shape.covers r d.shape = true :=
  ObjectShape.covers_iff.2
    ⟨rfl, rfl, fun h => Bool.noConfusion h, (Bool.and_eq_true_iff.1 h).2⟩

/-- Special fields are ordered transitively where the values of the first one are. -/
theorem FieldCovers.trans {f g h : Option (String × Element)} (hfg : FieldCovers r f g)
    (hgh : FieldCovers r g h)
    (htrans : ∀ x ∈ f, ∀ y ∈ g, ∀ z ∈ h, covers r x.2 y.2 = true → covers r y.2 z.2 = true →
      covers r x.2 z.2 = true) : FieldCovers r f h := by
  intro x hx
  obtain ⟨y, hy, hxy, hcxy⟩ := hfg x hx
  obtain ⟨z, hz, hyz, hcyz⟩ := hgh y hy
  exact ⟨z, hz, hxy.trans hyz, htrans x hx y hy z hz hcxy hcyz⟩

theorem covers_trans (hw : (r.hierarchy id).WellFormed) {a b c : Element}
    (ha : a.Normal r id v) (hb : b.Normal r id v) (hc : c.Normal r id v)
    (hab : covers r a b = true) (hbc : covers r b c = true) : covers r a c = true := by
  -- The cases of `covers` at `a` say what `b` is, and those at `b` what `c` is.
  induction a using inductionOnFields generalizing b c with
  | top => rfl
  | bottom =>
    obtain rfl := eq_bottom_of_bottom_covers hab
    exact hbc
  | boolean s =>
    cases covers_iff.1 hab with
    | bottom => exact covers_of_bottom_covers hbc
    | boolean hst =>
      cases covers_iff.1 hbc with
      | bottom => exact covers_bottom r _
      | boolean htu => exact covers_iff.2 (.boolean (BooleanSet.covers_trans hst htu))
  | integral s =>
    cases covers_iff.1 hab with
    | bottom => exact covers_of_bottom_covers hbc
    | integral hst =>
      cases covers_iff.1 hbc with
      | bottom => exact covers_bottom r _
      | integral htu => exact covers_iff.2 (.integral (IntegralSet.covers_trans ha hb hst htu))
  | floating w s =>
    cases covers_iff.1 hab with
    | bottom => exact covers_of_bottom_covers hbc
    | floating hst =>
      cases covers_iff.1 hbc with
      | bottom => exact covers_bottom r _
      | floating htu => exact covers_iff.2 (.floating (FloatingSet.covers_trans hst htu))
  | null =>
    cases covers_iff.1 hab with
    | bottom => exact covers_of_bottom_covers hbc
    | null => exact hbc
  | object shape field ih =>
    have hshape := (normal_object_iff.1 ha).1
    -- The values of the fields are ordered transitively: those of `field` are nested in `a`.
    have htrans {g h : Option (String × Element)} (hg : ∀ y ∈ g, NormalField r id v y)
        (hh : ∀ z ∈ h, NormalField r id v z) (hfg : FieldCovers r field g)
        (hgh : FieldCovers r g h) : FieldCovers r field h := by
      apply hfg.trans hgh
      intro x hx y hy z hz
      exact ih x hx (normal_value ha hx) (hg y hy).normal (hh z hz).normal
    cases covers_iff.1 hab with
    | bottom => exact covers_of_bottom_covers hbc
    | objectNull hnull =>
      cases covers_iff.1 hbc with
      | bottom => exact covers_bottom r _
      | null => exact hab
    | @object _ shape' _ field' hs hf =>
      obtain ⟨hshape', hfield'⟩ := normal_object_iff.1 hb
      cases covers_iff.1 hbc with
      | bottom => exact covers_bottom r _
      | objectNull hnull =>
        exact covers_iff.2 (.objectNull
          (ObjectNullability.mayBeNull_of_covers (ObjectShape.covers_iff.1 hs).1 hnull))
      | object hs' hf' =>
        obtain ⟨hshape'', hfield''⟩ := normal_object_iff.1 hc
        have hshapes := ObjectShape.covers_trans hw hshape hshape' hshape'' hs hs'
        exact covers_object_object.2 ⟨hshapes, htrans hfield' hfield'' hf hf'⟩
      | objectConstant hs' hf' =>
        have hshapes := ObjectShape.covers_trans hw hshape hshape' (normal_shape hc) hs hs'
        exact covers_object_constant.2 ⟨hshapes, htrans hfield' normalField_fieldOf? hf hf'⟩
    | objectConstant hs hf =>
      cases covers_iff.1 hbc with
      | bottom => exact covers_bottom r _
      | constant hcd =>
        refine covers_object_constant.2 ⟨?_, fieldOf?_eq_of_covers hcd ▸ hf⟩
        exact ObjectShape.covers_trans hw hshape (normal_shape hb) (normal_shape hc) hs
          (shape_covers_of_covers hcd)
  | constant c =>
    cases covers_iff.1 hab with
    | bottom => exact covers_of_bottom_covers hbc
    | constant hcd =>
      cases covers_iff.1 hbc with
      | bottom => exact covers_bottom r _
      | constant hde =>
        obtain ⟨hkey, hconstraint⟩ := Bool.and_eq_true_iff.1 hcd
        obtain ⟨hkey', hconstraint'⟩ := Bool.and_eq_true_iff.1 hde
        refine covers_iff.2 (.constant (Bool.and_eq_true_iff.2 ⟨?_, ?_⟩))
        · exact beq_iff_eq.2 ((eq_of_beq hkey).trans (eq_of_beq hkey'))
        · exact Constraint.covers_trans hw ha hb hc hconstraint hconstraint'

/-! ## Keys of elements that cover each other -/

/-- The text of a special field in a key. -/
def fieldKey : Option (String × Element) → String
  | none => ""
  | some (name, value) => name ++ "=" ++ key value

theorem key_object (shape : ObjectShape) (field : Option (String × Element)) :
    key (object shape field) = shapeKey shape (fieldKey field) := by
  rcases field with _ | ⟨name, value⟩ <;> rfl

theorem fieldKey_eq {f g : Option (String × Element)} (hfg : FieldCovers r f g)
    (hgf : FieldCovers r g f)
    (hkey : ∀ x ∈ f, ∀ y ∈ g, covers r x.2 y.2 = true → covers r y.2 x.2 = true →
      key x.2 = key y.2) : fieldKey f = fieldKey g := by
  rcases f with _ | ⟨name, value⟩
  · rcases g with _ | ⟨name', value'⟩
    · rfl
    · obtain ⟨x, hx, _⟩ := hgf _ rfl
      exact nomatch hx
  · obtain ⟨⟨name', value'⟩, rfl, hname, hcovers⟩ := hfg _ rfl
    obtain ⟨x, hx, _, hcovers'⟩ := hgf _ rfl
    obtain rfl := Option.some.inj hx
    rw [fieldKey, fieldKey, hkey _ rfl _ rfl hcovers hcovers', show name = name' from hname]

theorem key_eq_of_covers (hw : (r.hierarchy id).WellFormed) {a b : Element}
    (ha : a.Normal r id v) (hb : b.Normal r id v) (hab : covers r a b = true)
    (hba : covers r b a = true) : key a = key b := by
  induction a using inductionOnFields generalizing b with
  | top => rw [eq_top_of_covers_top hba]
  | bottom => rw [eq_bottom_of_bottom_covers hab]
  | boolean s =>
    cases covers_iff.1 hba with
    | top => exact absurd (eq_top_of_covers_top hab) Element.noConfusion
    | boolean hts => rw [BooleanSet.covers_antisymm hab hts]
  | integral s =>
    cases covers_iff.1 hba with
    | top => exact absurd (eq_top_of_covers_top hab) Element.noConfusion
    | @integral t _ hts =>
      show s.key = t.key
      exact IntegralSet.covers_antisymm ha hb hab hts
  | floating w s =>
    cases covers_iff.1 hba with
    | top => exact absurd (eq_top_of_covers_top hab) Element.noConfusion
    | @floating _ t _ hts =>
      have hst := (Bool.and_eq_true_iff.1 hab).2
      show s.key w = t.key w
      exact FloatingSet.covers_antisymm ha hb hst hts w
  | null =>
    cases covers_iff.1 hba with
    | top => exact absurd (eq_top_of_covers_top hab) Element.noConfusion
    | null => rfl
    | objectNull => exact Bool.noConfusion hab
  | object shape field ih =>
    cases covers_iff.1 hba with
    | top => exact absurd (eq_top_of_covers_top hab) Element.noConfusion
    | @object shape' _ field' _ hs hf =>
      obtain ⟨hs', hf'⟩ := covers_object_object.1 hab
      have hshape : shape = shape' :=
        ObjectShape.covers_antisymm hw (normal_object_iff.1 ha).1 (normal_object_iff.1 hb).1 hs' hs
      have hfield : fieldKey field = fieldKey field' := by
        apply fieldKey_eq hf' hf
        intro x hx y hy
        exact ih x hx (normal_value ha hx) (normal_value hb hy)
      rw [key_object, key_object, hshape, hfield]
  | constant c =>
    cases covers_iff.1 hba with
    | top => exact absurd (eq_top_of_covers_top hab) Element.noConfusion
    | objectConstant => exact Bool.noConfusion hab
    | @constant d _ hdc =>
      obtain ⟨hkey, hconstraint⟩ := Bool.and_eq_true_iff.1 (show c.covers r d = true from hab)
      obtain ⟨_, hconstraint'⟩ := Bool.and_eq_true_iff.1 hdc
      show c.key = d.key
      rw [ReferenceConstant.key, ReferenceConstant.key, eq_of_beq hkey,
        Constraint.covers_antisymm hw ha hb hconstraint hconstraint']

end Element

end ValueLattice
