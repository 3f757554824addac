import ValueLattice.Proofs.FloatingSetKeys
import ValueLattice.Proofs.Elements.Regular

/-!
# Elements up to what keys leave out

The key of an element leaves out wide ranges and the origin of constants, and it gives numbers and
known objects by their own keys.

* `Alike`: elements of one form up to that, at every depth of special fields;
* `Alike.key_eq`, `alike_of_key_eq`: regular elements over plain names are alike exactly if they have
  one key.
-/

namespace ValueLattice.Element

variable {id : HierarchyId}

/-- Elements of one form, up to the keys of numbers and of objects, wide ranges and the origin of
constants. -/
inductive Alike : Element → Element → Prop where
  | top : Alike top top
  | bottom : Alike bottom bottom
  | boolean (s : BooleanSet) : Alike (boolean s) (boolean s)
  | integral {s t : IntegralSet} : s.width = t.width → s.range = t.range →
      Alike (integral s) (integral t)
  | floating (w : FloatingWidth) {s t : FloatingSet} : s.Alike t →
      Alike (floating w s) (floating w t)
  | null : Alike null null
  | plain (shape : ObjectShape) : Alike (object shape none) (object shape none)
  | tracked (shape : ObjectShape) (name : String) {a b : Element} : Alike a b →
      Alike (object shape (some (name, a))) (object shape (some (name, b)))
  | constant {c d : ReferenceConstant} : c.payload.key = d.payload.key →
      c.constraint = d.constraint → Alike (constant c) (constant d)

/-- Special fields of one name with values that are alike. -/
inductive AlikeField : Option (String × Element) → Option (String × Element) → Prop where
  | none : AlikeField none none
  | some (name : String) {a b : Element} : Alike a b → AlikeField (some (name, a)) (some (name, b))

theorem alike_object {s : ObjectShape} {f g : Option (String × Element)} (h : AlikeField f g) :
    Alike (object s f) (object s g) := by
  cases h with
  | none => exact .plain s
  | some name hvalue => exact .tracked s name hvalue

theorem eq_object_of_alike {s : ObjectShape} {f : Option (String × Element)} {b : Element}
    (h : Alike (object s f) b) : ∃ g, b = object s g ∧ AlikeField f g := by
  cases h with
  | plain => exact ⟨none, rfl, .none⟩
  | tracked _ name hvalue => exact ⟨_, rfl, .some name hvalue⟩

theorem alike_refl (e : Element) : Alike e e := by
  induction e with
  | top => exact .top
  | bottom => exact .bottom
  | boolean s => exact .boolean s
  | integral s => exact .integral rfl rfl
  | floating w s => exact .floating w (FloatingSet.alike_refl s)
  | null => exact .null
  | plain shape => exact .plain shape
  | tracked shape name value ih => exact .tracked shape name ih
  | constant c => exact .constant rfl rfl

theorem alikeField_refl (f : Option (String × Element)) : AlikeField f f := by
  cases f with
  | none => exact .none
  | some x => exact .some x.1 (alike_refl x.2)

theorem Alike.key_eq {a b : Element} (h : Alike a b) : key a = key b := by
  induction h with
  | integral hwidth hrange =>
    show IntegralSet.key _ = IntegralSet.key _
    rw [IntegralSet.key, IntegralSet.key, hwidth, hrange]
  | floating w h =>
    show FloatingSet.key w _ = FloatingSet.key w _
    rw [FloatingSet.key_eq, FloatingSet.key_eq, h.keyTail_eq]
  | tracked shape name _ ih => rw [key, key, ih]
  | constant hpayload hconstraint =>
    show ReferenceConstant.key _ = ReferenceConstant.key _
    rw [ReferenceConstant.key, ReferenceConstant.key, hpayload, hconstraint]
  | _ => rfl

/-- The form of a regular element over plain names shows in its key. -/
theorem alike_of_key_eq {a b : Element} (ha : a.Regular id .plain) (hb : b.Regular id .plain)
    (h : key a = key b) : Alike a b := by
  have hamp (name : String) (hname : Vocabulary.plain.type name) : '&' ∉ name.toList := hname.1
  have hbar (name : String) (hname : Vocabulary.plain.type name) : '|' ∉ name.toList := hname.2
  induction a using inductionOnFields generalizing b with
  | top => exact eq_top_of_key_eq h.symm ▸ .top
  | bottom => exact eq_bottom_of_key_eq h.symm ▸ .bottom
  | boolean s =>
    have hfamily := family_eq_of_key_eq h
    cases b with
    | boolean t =>
      have hst : s = t := by
        revert h
        rcases s with _ | _ | _ <;> rcases t with _ | _ | _ <;> decide
      exact hst ▸ .boolean s
    | _ => exact Family.noConfusion hfamily
  | integral s =>
    have hfamily := family_eq_of_key_eq h
    cases b with
    | integral t =>
      obtain ⟨hwidth, hrange⟩ := IntegralSet.key_inj h
      exact .integral hwidth hrange
    | _ => exact Family.noConfusion hfamily
  | floating w s =>
    have hfamily := family_eq_of_key_eq h
    cases b with
    | floating w' t =>
      obtain ⟨rfl, hst⟩ := FloatingSet.key_inj ha hb h
      exact .floating w hst
    | _ => exact Family.noConfusion hfamily
  | null =>
    have hfamily := family_eq_of_key_eq h
    cases b with
    | null => exact .null
    | _ => exact Family.noConfusion hfamily
  | object shape field ih =>
    have hfamily := family_eq_of_key_eq h
    cases b using inductionOnFields with
    | object shape' field' =>
      obtain ⟨hshape, hfield⟩ := regular_object_iff.1 ha
      obtain ⟨hshape', hfield'⟩ := regular_object_iff.1 hb
      rw [key_object, key_object] at h
      obtain ⟨rfl, hkey⟩ := shapeKey_inj hamp hbar hshape.2 hshape'.2 h
      have hnames := fun x hx => (hfield x hx).1
      have hnames' := fun y hy => (hfield' y hy).1
      apply alike_object
      match field, field' with
      | none, none => exact .none
      | none, some y =>
        obtain ⟨x, hx, _⟩ := fieldKey_cases hnames' hnames hkey.symm y rfl
        exact nomatch hx
      | some (name, value), field' =>
        obtain ⟨⟨name', value'⟩, rfl, hname, hvalue⟩ := fieldKey_cases hnames hnames' hkey _ rfl
        obtain rfl : name = name' := hname
        exact .some name (ih _ rfl (regular_value ha rfl) (regular_value hb rfl) hvalue)
    | _ => exact Family.noConfusion hfamily
  | constant c =>
    have hfamily := family_eq_of_key_eq h
    cases b with
    | constant d =>
      obtain ⟨hpayload, hconstraint⟩ := constantKey_inj hamp hbar ha.1 hb.1 h
      exact .constant hpayload hconstraint
    | _ => exact Family.noConfusion hfamily

end ValueLattice.Element
