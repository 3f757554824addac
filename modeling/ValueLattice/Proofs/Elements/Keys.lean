import ValueLattice.Proofs.ConstraintKeys
import ValueLattice.Proofs.Elements.Order

/-!
# Elements told apart by their keys

A key begins with the name of a family of elements, which ends at the first bar.

* `family_eq_of_key_eq`: elements with one key belong to one family;
* `covers_of_key_eq`: where the names of types are free of `&` and of bars, and the names of special
  fields of `=`, elements with one key cover each other.
-/

namespace ValueLattice.Element

/-- The families of elements that have values in common. -/
inductive Family where
  | top
  | bottom
  | boolean
  | integral (width : IntegralWidth)
  | floating (width : FloatingWidth)
  | null
  | object
  | constant
deriving DecidableEq

namespace Family

/-- The name of a family in the keys of its elements. -/
def name : Family → String
  | top => "top"
  | bottom => "bottom"
  | boolean => "boolean"
  | integral w => w.name
  | floating w => w.name
  | null => "null"
  | object => "ref"
  | constant => "const"

def all : List Family :=
  [top, bottom, boolean, integral .int, integral .long, floating .float, floating .double, null,
    object, constant]

theorem mem_all (f : Family) : f ∈ all := by
  cases f with
  | integral w => cases w <;> decide
  | floating w => cases w <;> decide
  | _ => decide

theorem name_inj {f g : Family} (h : f.name = g.name) : f = g := by
  have hall : ∀ f ∈ all, ∀ g ∈ all, f.name = g.name → f = g := by decide
  exact hall f (mem_all f) g (mem_all g) h

theorem bar_notMem_name (f : Family) : '|' ∉ f.name.toList := by
  have hall : ∀ f ∈ all, '|' ∉ f.name.toList := by decide
  exact hall f (mem_all f)

end Family

/-- The family of an element. -/
def family : Element → Family
  | top => .top
  | bottom => .bottom
  | boolean _ => .boolean
  | integral s => .integral s.width
  | floating w _ => .floating w
  | null => .null
  | object _ _ => .object
  | constant _ => .constant

/-- A key is the name of the family, or goes on with a bar. -/
theorem key_eq_family_name (e : Element) :
    key e = e.family.name ∨ ∃ rest, (key e).toList = e.family.name.toList ++ '|' :: rest := by
  cases e using inductionOnFields with
  | top => exact .inl rfl
  | bottom => exact .inl rfl
  | boolean s =>
    cases s with
    | any => exact .inl rfl
    | only b => exact .inr ⟨(Text.boolean b).toList, by simp [key, family, Family.name]⟩
  | integral s =>
    exact .inr ⟨s.range.text.toList, by simp [key, IntegralSet.key, family, Family.name]⟩
  | floating w s =>
    cases s with
    | any => exact .inl rfl
    | zeros => exact .inr ⟨"zero".toList, by simp [key, FloatingSet.key, family, Family.name]⟩
    | only x => exact .inr ⟨x.key.toList, by simp [key, FloatingSet.key, family, Family.name]⟩
    | allBut xs =>
      exact .inr ⟨"not|".toList ++ (",".intercalate (xs.map Double.key)).toList,
        by simp [key, FloatingSet.key, family, Family.name]⟩
  | null => exact .inl rfl
  | object shape field =>
    refine .inr ⟨("|".intercalate [shape.constraint.key, shape.nullability.general.name,
      shape.mutability.name, if shape.isLocal then "local" else "", fieldKey field]).toList, ?_⟩
    rw [key_object, shapeKey, String.intercalate_cons_cons]
    simp [family, Family.name]
  | constant c =>
    exact .inr ⟨(c.payload.key ++ "|" ++ c.constraint.key).toList,
      by simp [key, ReferenceConstant.key, family, Family.name]⟩

theorem family_eq_of_key_eq {a b : Element} (h : key a = key b) : a.family = b.family := by
  have ha := a.family.bar_notMem_name
  have hb := b.family.bar_notMem_name
  apply Family.name_inj
  rcases key_eq_family_name a with hka | ⟨x, hka⟩
  · rcases key_eq_family_name b with hkb | ⟨y, hkb⟩
    · exact hka.symm.trans (h.trans hkb)
    · rw [← h, hka] at hkb
      exact absurd (by rw [hkb]; simp) ha
  · rcases key_eq_family_name b with hkb | ⟨y, hkb⟩
    · rw [h, hkb] at hka
      exact absurd (by rw [hka]; simp) hb
    · rw [h, hkb] at hka
      exact String.toList_inj.1 (Text.append_cons_inj hb ha hka).1.symm

theorem eq_bottom_of_key_eq {e : Element} (h : key e = key bottom) : e = bottom := by
  have hfamily := family_eq_of_key_eq h
  cases e with
  | bottom => rfl
  | _ => exact Family.noConfusion hfamily

theorem eq_top_of_key_eq {e : Element} (h : key e = key top) : e = top := by
  have hfamily := family_eq_of_key_eq h
  cases e with
  | top => rfl
  | _ => exact Family.noConfusion hfamily

/-! ## The parts of a key -/

theorem shapeKey_inj {id : HierarchyId} {p : String → Prop}
    (hamp : ∀ name, p name → '&' ∉ name.toList) (hbar : ∀ name, p name → '|' ∉ name.toList)
    {s t : ObjectShape} (hs : s.constraint.Over id p) (ht : t.constraint.Over id p)
    {x y : String} (h : shapeKey s x = shapeKey t y) : s = t ∧ x = y := by
  have hn (s : ObjectShape) : '|' ∉ s.nullability.general.name.toList := by
    cases s.nullability <;> decide
  have hm (s : ObjectShape) : '|' ∉ s.mutability.name.toList := by
    cases s.mutability <;> decide
  have hl (s : ObjectShape) : '|' ∉ (if s.isLocal then "local" else "").toList := by
    cases s.isLocal <;> decide
  have hlist := congrArg String.toList h
  simp only [shapeKey, String.intercalate_cons_cons, String.intercalate_singleton,
    String.toList_append, List.append_assoc] at hlist
  have hbarList : "|".toList = ['|'] := rfl
  rw [hbarList] at hlist
  simp only [List.singleton_append] at hlist
  -- The parts before the special field have no bars, so they are split off one by one.
  obtain ⟨_, hlist⟩ := Text.append_cons_inj (by decide) (by decide) hlist
  obtain ⟨hc, hlist⟩ := Text.append_cons_inj (Constraint.bar_notMem_key hbar hs)
    (Constraint.bar_notMem_key hbar ht) hlist
  obtain ⟨hnull, hlist⟩ := Text.append_cons_inj (hn s) (hn t) hlist
  obtain ⟨hmut, hlist⟩ := Text.append_cons_inj (hm s) (hm t) hlist
  obtain ⟨hlocal, hlist⟩ := Text.append_cons_inj (hl s) (hl t) hlist
  refine ⟨?_, String.toList_inj.1 hlist⟩
  have hconstraint : s.constraint = t.constraint :=
    Constraint.key_inj hamp hs ht (String.toList_inj.1 hc)
  have hnullability : s.nullability = t.nullability := by
    revert hnull
    cases s.nullability <;> cases t.nullability <;> decide
  have hmutability : s.mutability = t.mutability := by
    revert hmut
    cases s.mutability <;> cases t.mutability <;> decide
  have hisLocal : s.isLocal = t.isLocal := by
    revert hlocal
    cases s.isLocal <;> cases t.isLocal <;> decide
  cases s
  cases t
  simp_all

/-- The parts of the key of a constant: the last bar stands before the constraint. -/
theorem constantKey_inj {id : HierarchyId} {p : String → Prop}
    (hamp : ∀ name, p name → '&' ∉ name.toList) (hbar : ∀ name, p name → '|' ∉ name.toList)
    {c d : ReferenceConstant} (hc : c.constraint.Over id p) (hd : d.constraint.Over id p)
    (h : c.key = d.key) : c.payload.key = d.payload.key ∧ c.constraint = d.constraint := by
  have hlist := congrArg String.toList h
  simp only [ReferenceConstant.key, String.toList_append, List.append_assoc] at hlist
  have hbarList : "|".toList = ['|'] := rfl
  rw [hbarList] at hlist
  obtain ⟨hpayload, hconstraint⟩ := Text.append_cons_inj_last (Constraint.bar_notMem_key hbar hc)
    (Constraint.bar_notMem_key hbar hd) (List.append_cancel_left hlist)
  exact ⟨String.toList_inj.1 hpayload,
    Constraint.key_inj hamp hc hd (String.toList_inj.1 hconstraint)⟩

theorem fieldKey_cases {f g : Option (String × Element)} (hf : ∀ x ∈ f, '=' ∉ x.1.toList)
    (hg : ∀ y ∈ g, '=' ∉ y.1.toList) (h : fieldKey f = fieldKey g) :
    ∀ x ∈ f, ∃ y ∈ g, x.1 = y.1 ∧ key x.2 = key y.2 := by
  rintro ⟨name, value⟩ rfl
  have hlist := congrArg String.toList h
  rcases g with _ | ⟨name', value'⟩
  · simp [fieldKey] at hlist
  · refine ⟨_, rfl, ?_⟩
    simp only [fieldKey, String.toList_append, List.append_assoc] at hlist
    have hmark : "=".toList = ['='] := rfl
    rw [hmark] at hlist
    obtain ⟨hname, hvalue⟩ := Text.append_cons_inj (hf _ rfl) (hg _ rfl) hlist
    exact ⟨String.toList_inj.1 hname, String.toList_inj.1 hvalue⟩

/-! ## Elements with one key -/

theorem covers_of_key_eq {r : Registry} {id : HierarchyId} {a b : Element}
    (ha : a.Normal r id .plain) (hb : b.Normal r id .plain) (h : key a = key b) :
    covers r a b = true := by
  -- The family of an element shows in its key, so both elements are of one kind.
  have hamp (name : String) (hname : Vocabulary.plain.type name) : '&' ∉ name.toList := hname.1
  have hbar (name : String) (hname : Vocabulary.plain.type name) : '|' ∉ name.toList := hname.2
  induction a using inductionOnFields generalizing b with
  | top => rfl
  | bottom =>
    rw [eq_bottom_of_key_eq h.symm]
    rfl
  | boolean s =>
    have hfamily := family_eq_of_key_eq h
    cases b with
    | boolean t =>
      have hst : s = t := by
        revert h
        rcases s with _ | _ | _ <;> rcases t with _ | _ | _ <;> decide
      rw [hst]
      exact covers_self r _
    | _ => exact Family.noConfusion hfamily
  | integral s =>
    have hfamily := family_eq_of_key_eq h
    cases b with
    | integral t =>
      show s.covers t = true
      exact IntegralSet.covers_of_key_eq h
    | _ => exact Family.noConfusion hfamily
  | floating w s =>
    have hfamily := family_eq_of_key_eq h
    cases b with
    | floating w' t =>
      obtain ⟨rfl, hst⟩ := FloatingSet.key_inj ha hb h
      exact covers_iff.2 (.floating hst.covers)
    | _ => exact Family.noConfusion hfamily
  | null =>
    have hfamily := family_eq_of_key_eq h
    cases b with
    | null => rfl
    | _ => exact Family.noConfusion hfamily
  | object shape field ih =>
    have hfamily := family_eq_of_key_eq h
    cases b using inductionOnFields with
    | object shape' field' =>
      obtain ⟨hshape, hfield⟩ := normal_object_iff.1 ha
      obtain ⟨hshape', hfield'⟩ := normal_object_iff.1 hb
      rw [key_object, key_object] at h
      obtain ⟨rfl, hkey⟩ := shapeKey_inj hamp hbar hshape.constraint.over
        hshape'.constraint.over h
      refine covers_object_object.2 ⟨ObjectShape.covers_self r _, ?_⟩
      intro x hx
      obtain ⟨y, hy, hname, hvalue⟩ := fieldKey_cases (fun x hx => (hfield x hx).1)
        (fun y hy => (hfield' y hy).1) hkey x hx
      exact ⟨y, hy, hname, ih x hx (normal_value ha hx) (normal_value hb hy) hvalue⟩
    | _ => exact Family.noConfusion hfamily
  | constant c =>
    have hfamily := family_eq_of_key_eq h
    cases b with
    | constant d =>
      obtain ⟨hpayload, hconstraint⟩ := constantKey_inj hamp hbar (Constraint.Normal.over ha)
        (Constraint.Normal.over hb) h
      refine covers_iff.2 (.constant (Bool.and_eq_true_iff.2 ⟨beq_iff_eq.2 hpayload, ?_⟩))
      rw [hconstraint]
      exact Constraint.covers_self r _
    | _ => exact Family.noConfusion hfamily

end ValueLattice.Element
