import ValueLattice.Proofs.Elements.Alike
import ValueLattice.Proofs.Elements.Histories

/-!
# Elements that count as the same

The operations read wide ranges and the origin of constants and hand them on, but nothing else that
they return depends on them: elements that count as the same can stand for each other.

* `Agree`: two operations return values that are related, or end with one fault;
* `covers_congr`, `join_congr`, `meet_congr`, `negate_congr`, `narrow_congr`: on elements that are
  alike, the operations agree;
* `same_laws`: so they do on elements of a history with plain names that count as the same.
-/

namespace ValueLattice.Element

variable {r : Registry}

/-! ## Results -/

/-- Two operations return values that are related, or end with one fault. -/
inductive Agree {α : Type} (R : α → α → Prop) : Except Fault α → Except Fault α → Prop where
  | ok {a b : α} : R a b → Agree R (.ok a) (.ok b)
  | error (fault : Fault) : Agree R (.error fault) (.error fault)

namespace Agree

variable {α β : Type} {R : α → α → Prop} {S : β → β → Prop}

theorem bind {x y : Except Fault α} {f g : α → Except Fault β} (hxy : Agree R x y)
    (hfg : ∀ a b, R a b → Agree S (f a) (g b)) : Agree S (x >>= f) (y >>= g) := by
  cases hxy with
  | ok hab => exact hfg _ _ hab
  | error fault => exact .error fault

/-- Operations that begin with one step agree if they agree after it. -/
theorem after (x : Except Fault α) {f g : α → Except Fault β}
    (hfg : ∀ a, x = .ok a → Agree S (f a) (g a)) : Agree S (x >>= f) (x >>= g) := by
  cases x with
  | ok a => exact hfg a rfl
  | error fault => exact .error fault

theorem map {f g : α → β} {x y : Except Fault α} (hxy : Agree R x y)
    (hfg : ∀ a b, R a b → S (f a) (g b)) : Agree S (x.map f) (y.map g) := by
  cases hxy with
  | ok hab => exact .ok (hfg _ _ hab)
  | error fault => exact .error fault

theorem error_of_eq {fault fault' : Fault} (h : fault = fault') :
    Agree R (.error fault) (.error fault') :=
  h ▸ .error fault

/-- Elements that are alike count as the same. -/
theorem same {x y : Except Fault Element} (h : Agree Alike x y) :
    Agree (fun e e' => e.same e' = true) x y := by
  cases h with
  | ok hab => exact .ok (same_iff.2 hab.key_eq)
  | error fault => exact .error fault

theorem exists_ok {x y : Except Fault α} (h : Agree R x y) {a : α} (hx : x = .ok a) :
    ∃ b, y = .ok b ∧ R a b := by
  subst hx
  cases h with
  | ok hab => exact ⟨_, rfl, hab⟩

end Agree

/-! ## Sets of integers -/

theorem alike_elim {α : Type} {R : α → α → Prop} {f : α → Element} {s t : Option α}
    (hf : ∀ a b, R a b → Alike (f a) (f b)) (h : Option.Rel R s t) :
    Alike (s.elim bottom f) (t.elim bottom f) := by
  cases h with
  | some hab => exact hf _ _ hab
  | none => exact .bottom

/-- Wide ranges are recorded beside what is made of a range. -/
theorem alike_normal? (w : IntegralWidth) (range : RangeSet) (wide wide' : Option RangeSet) :
    Alike (ofIntegral? (IntegralSet.normal? w range wide))
      (ofIntegral? (IntegralSet.normal? w range wide')) := by
  unfold IntegralSet.normal?
  split
  · exact .bottom
  · exact .integral rfl rfl

theorem alike_combine? (op : RangeSet → RangeSet → RangeSet) {s s' t t' : IntegralSet}
    (hwidth : s.width = s'.width) (hs : s.range = s'.range) (ht : t.range = t'.range) :
    Alike (ofIntegral? (s.combine? op t)) (ofIntegral? (s'.combine? op t')) := by
  unfold IntegralSet.combine?
  rw [hwidth, hs, ht]
  exact alike_normal? _ _ _ _

/-! ## Constants -/

theorem Checked.fieldOf?_congr {c d : ReferenceConstant} (h : c.payload.key = d.payload.key) :
    fieldOf? c = fieldOf? d := by
  unfold fieldOf?
  cases hc : c.payload with
  | string s =>
    have hd : d.payload = .string s := Payload.eq_string_of_key_eq (hc ▸ h)
    simp only [hd]
  | _ =>
    cases hd : d.payload with
    | string t =>
      have hc' : c.payload = .string t := Payload.eq_string_of_key_eq (hd ▸ h.symm)
      exact nomatch hc.symm.trans hc'
    | _ => rfl

theorem shape_congr {c d : ReferenceConstant} (h : c.constraint = d.constraint) :
    c.shape = d.shape := by
  rw [ReferenceConstant.shape, ReferenceConstant.shape, h]

theorem constant_covers_congr {c c' d d' : ReferenceConstant}
    (hc : c.payload.key = c'.payload.key ∧ c.constraint = c'.constraint)
    (hd : d.payload.key = d'.payload.key ∧ d.constraint = d'.constraint) :
    c.covers r d = c'.covers r d' := by
  rw [ReferenceConstant.covers, ReferenceConstant.covers, hc.1, hc.2, hd.1, hd.2]

/-! ## The order -/

theorem fieldCovers_congr {f f' g g' : Option (String × Element)} (hf : AlikeField f f')
    (hg : AlikeField g g')
    (hvalues : ∀ x ∈ f, ∀ x' y y', Alike x.2 x' → Alike y y' →
      Checked.covers r x.2 y = Checked.covers r x' y') :
    Checked.fieldCovers r f g = Checked.fieldCovers r f' g' := by
  cases hf with
  | none => rfl
  | some name hvalue =>
    cases hg with
    | none => rfl
    | some name' hvalue' =>
      simp only [Checked.fieldCovers]
      rw [hvalues _ rfl _ _ _ hvalue hvalue']

theorem covers_congr {a a' b b' : Element} (ha : Alike a a') (hb : Alike b b') :
    Checked.covers r a b = Checked.covers r a' b' := by
  induction a using inductionOnFields generalizing a' b b' with
  | top =>
    cases ha
    rfl
  | bottom =>
    cases ha
    cases hb <;> rfl
  | boolean s =>
    cases ha
    cases hb <;> rfl
  | integral s =>
    cases ha with
    | integral hwidth hrange =>
      cases hb with
      | integral hwidth' hrange' =>
        refine congrArg Except.ok ?_
        show IntegralSet.covers _ _ = IntegralSet.covers _ _
        rw [IntegralSet.covers, IntegralSet.covers, hwidth, hrange, hwidth', hrange']
      | _ => rfl
  | floating w s =>
    cases ha with
    | floating _ hs =>
      cases hb with
      | floating w' ht =>
        refine congrArg Except.ok ?_
        show (w == w' && FloatingSet.covers _ _) = (w == w' && FloatingSet.covers _ _)
        rw [hs.covers_eq ht]
      | _ => rfl
  | null =>
    cases ha
    cases hb <;> rfl
  | object s f ih =>
    obtain ⟨f', rfl, hf⟩ := eq_object_of_alike ha
    -- The values of `f` are nested in `a`, so the order does not tell them from those of `f'`.
    have hfields {g g' : Option (String × Element)} (hg : AlikeField g g') :
        Checked.fieldCovers r f g = Checked.fieldCovers r f' g' :=
      fieldCovers_congr hf hg fun x hx _ _ _ hx' hy => ih x hx hx' hy
    rw [Checked.covers_object, Checked.covers_object]
    cases hb with
    | plain t => simp only [Checked.reference?, pure_bind, hfields .none]
    | tracked t name hvalue =>
      simp only [Checked.reference?, pure_bind, hfields (.some name hvalue)]
    | constant hpayload hconstraint =>
      simp only [Checked.reference?, bind_assoc, pure_bind, shape_congr hconstraint,
        Checked.fieldOf?_congr hpayload]
      refine bind_congr fun g => ?_
      rw [hfields (alikeField_refl g)]
    | _ => rfl
  | constant c =>
    cases ha with
    | constant hpayload hconstraint =>
      cases hb with
      | constant hpayload' hconstraint' =>
        exact congrArg Except.ok
          (constant_covers_congr ⟨hpayload, hconstraint⟩ ⟨hpayload', hconstraint'⟩)
      | _ => rfl

/-! ## The join -/

theorem alike_joinIntegral {s s' : IntegralSet} {b b' : Element} (hwidth : s.width = s'.width)
    (hrange : s.range = s'.range) (hb : Alike b b') :
    Alike (joinIntegral s b) (joinIntegral s' b') := by
  cases hb with
  | bottom => exact .integral hwidth hrange
  | integral hwidth' hrange' =>
    rw [joinIntegral_integral, joinIntegral_integral, hwidth, hwidth']
    split
    · exact alike_combine? RangeSet.union hwidth hrange hrange'
    · exact .top
  | _ => exact .top

theorem alike_bind? {f g : Option (String × Element)} (h : AlikeField f g) :
    AlikeField (f.bind fun x => bind? x.1 x.2) (g.bind fun x => bind? x.1 x.2) := by
  cases h with
  | none => exact .none
  | some name hvalue =>
    have halike := hvalue
    cases hvalue with
    | top => exact .none
    | _ => exact .some name halike

theorem ofShape_congr (s : ObjectShape) {f g : Option (String × Element)} (h : AlikeField f g) :
    Agree Alike (Checked.ofShape s f) (Checked.ofShape s g) := by
  unfold Checked.ofShape ofObject
  split
  · exact .error _
  split
  · exact .error _
  · exact .ok (alike_object (alike_bind? h))

theorem orNull_congr (s : ObjectShape) {f g : Option (String × Element)} (h : AlikeField f g) :
    Agree Alike (Checked.orNull s f) (Checked.orNull s g) := by
  unfold Checked.orNull
  split
  · exact .ok (alike_object h)
  · exact ofShape_congr _ h

theorem absorbs_congr {s : ObjectShape} {f f' : Option (String × Element)}
    {n : ObjectNullability} {b b' : Element} (hf : AlikeField f f') (hb : Alike b b') :
    Checked.absorbs r s f n b = Checked.absorbs r s f' n b' := by
  unfold Checked.absorbs
  rw [covers_congr (alike_object hf) hb]

theorem absorbedBy_congr {s : ObjectShape} {f f' : Option (String × Element)} {b b' : Element}
    (hf : AlikeField f f') (hb : Alike b b') :
    Checked.absorbedBy r s f b = Checked.absorbedBy r s f' b' := by
  cases hb with
  | plain t => exact absorbs_congr .none (alike_object hf)
  | tracked t name hvalue => exact absorbs_congr (.some name hvalue) (alike_object hf)
  | _ => rfl

theorem joinReferences_congr {s t : ObjectShape} {f f' : Option (String × Element)}
    {b b' : Element} {joined joined' : Except Fault (Option (String × Element))}
    (hf : AlikeField f f') (hb : Alike b b') (hjoined : Agree AlikeField joined joined') :
    Agree Alike (Checked.joinReferences r s f b t joined)
      (Checked.joinReferences r s f' b' t joined') := by
  unfold Checked.joinReferences
  rw [absorbs_congr hf hb, absorbedBy_congr hf hb]
  refine .after _ fun absorbs _ => ?_
  cases absorbs with
  | true => exact .ok (alike_object hf)
  | false =>
    refine .after _ fun absorbed _ => ?_
    cases absorbed with
    | true => exact .ok hb
    | false => exact hjoined.bind fun g g' hg => ofShape_congr _ hg

theorem joinField?_congr {f f' g g' : Option (String × Element)} (hf : AlikeField f f')
    (hg : AlikeField g g')
    (hvalues : ∀ x ∈ f, ∀ x' y y', Alike x.2 x' → Alike y y' →
      Agree Alike (Checked.join r x.2 y) (Checked.join r x' y')) :
    Agree AlikeField (Checked.joinField? r f g) (Checked.joinField? r f' g') := by
  cases hf with
  | none => exact .ok .none
  | some name hvalue =>
    cases hg with
    | none => exact .ok .none
    | some name' hvalue' =>
      unfold Checked.joinField?
      by_cases hname : name = name'
      · simp only [if_pos hname]
        exact (hvalues _ rfl _ _ _ hvalue hvalue').map fun _ _ h => .some name h
      · simp only [if_neg hname]
        exact .ok .none

/-- Lengths of strings are integers, whose joins are not checked. -/
theorem joinLength?_congr {c : ReferenceConstant} {own g g' : Option (String × Element)}
    (hown : Checked.fieldOf? c = .ok own) (hg : AlikeField g g') :
    AlikeField (Checked.joinLength? r own g) (Checked.joinLength? r own g') := by
  cases hg with
  | none => cases own <;> exact .none
  | some name hvalue =>
    rcases own with _ | ⟨name', value'⟩
    · exact .none
    · obtain ⟨n, _, heq⟩ := Checked.mem_fieldOf? hown rfl
      obtain ⟨rfl, rfl⟩ := Prod.mk.inj heq
      unfold Checked.joinLength?
      by_cases hname : lengthField = name
      · simp only [if_pos hname]
        exact .some lengthField (alike_joinIntegral rfl rfl hvalue)
      · simp only [if_neg hname]
        exact .none

theorem join_congr {a a' b b' : Element} (ha : Alike a a') (hb : Alike b b') :
    Agree Alike (Checked.join r a b) (Checked.join r a' b') := by
  induction a using inductionOnFields generalizing a' b b' with
  | top =>
    cases ha
    exact .ok .top
  | bottom =>
    cases ha
    exact .ok hb
  | boolean s =>
    cases ha
    cases hb with
    | bottom => exact .ok (.boolean s)
    | boolean t => exact .ok (.boolean (s.join t))
    | _ => exact .ok .top
  | integral s =>
    cases ha with
    | integral hwidth hrange => exact .ok (alike_joinIntegral hwidth hrange hb)
  | floating w s =>
    cases ha with
    | floating _ hs =>
      cases hb with
      | bottom => exact .ok (.floating w hs)
      | floating w' ht =>
        refine .ok ?_
        rw [join_floating_floating, join_floating_floating]
        split
        · exact .floating w (hs.join ht)
        · exact .top
      | _ => exact .ok .top
  | null =>
    cases ha
    cases hb with
    | bottom => exact .ok .null
    | null => exact .ok .null
    | plain t => exact orNull_congr t .none
    | tracked t name hvalue => exact orNull_congr t (.some name hvalue)
    | constant hpayload hconstraint =>
      simp only [Checked.join, shape_congr hconstraint, Checked.fieldOf?_congr hpayload]
      exact .after _ fun g _ => orNull_congr _ (alikeField_refl g)
    | _ => exact .ok .top
  | object s f ih =>
    obtain ⟨f', rfl, hf⟩ := eq_object_of_alike ha
    -- By induction the joins of the values agree, and so do those of the fields.
    have hfields {g g' : Option (String × Element)} (hg : AlikeField g g') :
        Agree AlikeField (Checked.joinField? r f g) (Checked.joinField? r f' g') :=
      joinField?_congr hf hg fun x hx _ _ _ hx' hy => ih x hx hx' hy
    cases hb with
    | bottom => cases hf <;> exact .ok ha
    | null =>
      rw [Checked.join_object_null, Checked.join_object_null]
      exact orNull_congr s hf
    | plain t =>
      rw [Checked.join_object_object, Checked.join_object_object]
      exact joinReferences_congr hf (.plain t) (hfields .none)
    | tracked t name hvalue =>
      rw [Checked.join_object_object, Checked.join_object_object]
      exact joinReferences_congr hf (.tracked t name hvalue) (hfields (.some name hvalue))
    | constant hpayload hconstraint =>
      rw [Checked.join_object_constant, Checked.join_object_constant, shape_congr hconstraint,
        Checked.fieldOf?_congr hpayload]
      refine .after _ fun g _ => ?_
      exact joinReferences_congr hf (.constant hpayload hconstraint) (hfields (alikeField_refl g))
    | _ => cases hf <;> exact .ok .top
  | constant c =>
    have halike := ha
    cases ha with
    | @constant _ c' hpayload hconstraint =>
      -- Both constants are viewed as one object reference.
      have hown := Checked.fieldOf?_congr hpayload
      have hshape := shape_congr hconstraint
      have hobject {t : ObjectShape} {g g' : Option (String × Element)} (hg : AlikeField g g') :
          Agree Alike (Checked.join r (constant c) (object t g))
            (Checked.join r (constant c') (object t g')) := by
        simp only [Checked.join, ← hown, ← hshape, ← absorbs_congr hg halike]
        refine .after _ fun absorbs _ => ?_
        cases absorbs with
        | true => exact .ok (alike_object hg)
        | false =>
          exact .after _ fun own hfield => ofShape_congr _ (joinLength?_congr hfield hg)
      cases hb with
      | bottom => exact .ok halike
      | null =>
        simp only [Checked.join, ← hown, ← hshape]
        exact .after _ fun g _ => orNull_congr _ (alikeField_refl g)
      | plain t => exact hobject .none
      | tracked t name hvalue => exact hobject (.some name hvalue)
      | constant hpayload' hconstraint' =>
        simp only [Checked.join, ← hown, ← hshape, Checked.fieldOf?_congr hpayload',
          shape_congr hconstraint',
          constant_covers_congr ⟨hpayload, hconstraint⟩ ⟨hpayload', hconstraint'⟩,
          constant_covers_congr ⟨hpayload', hconstraint'⟩ ⟨hpayload, hconstraint⟩]
        split
        · exact .ok halike
        split
        · exact .ok (.constant hpayload' hconstraint')
        refine .after _ fun own _ => .after _ fun g _ => ?_
        exact ofShape_congr _ (alikeField_refl _)
      | _ => exact .ok .top

/-! ## The meet -/

theorem tracked?_congr (name : String) {a b : Element} (h : Alike a b) :
    Option.Rel AlikeField (Checked.tracked? name a) (Checked.tracked? name b) := by
  have halike := h
  cases h with
  | bottom => exact .none
  | _ => exact .some (.some name halike)

theorem meetField?_congr {f f' g g' : Option (String × Element)} (hf : AlikeField f f')
    (hg : AlikeField g g')
    (hvalues : ∀ x ∈ f, ∀ x' y y', Alike x.2 x' → Alike y y' →
      Agree Alike (Checked.meet r x.2 y) (Checked.meet r x' y')) :
    Agree (Option.Rel AlikeField) (Checked.meetField? r f g) (Checked.meetField? r f' g') := by
  cases hf with
  | none => exact .ok (.some hg)
  | some name hvalue =>
    cases hg with
    | none => exact .ok (.some (.some name hvalue))
    | some name' hvalue' =>
      unfold Checked.meetField?
      by_cases hname : name = name'
      · simp only [if_pos hname]
        exact (hvalues _ rfl _ _ _ hvalue hvalue').map fun _ _ h => tracked?_congr name h
      · simp only [if_neg hname]
        exact .ok .none

theorem meetReferences_congr {s t : ObjectShape} {f f' g g' : Option (String × Element)}
    {met met' : Except Fault (Option (Option (String × Element)))} (hf : AlikeField f f')
    (hg : AlikeField g g') (hmet : Agree (Option.Rel AlikeField) met met') :
    Agree Alike (Checked.meetReferences r s f t g met)
      (Checked.meetReferences r s f' t g' met') := by
  have ha : Alike (object s f) (object s f') := alike_object hf
  have hb : Alike (object t g) (object t g') := alike_object hg
  unfold Checked.meetReferences
  rw [covers_congr ha hb, covers_congr hb ha]
  refine .after _ fun covered _ => ?_
  cases covered with
  | true => exact .ok hb
  | false =>
    refine .after _ fun covered' _ => ?_
    cases covered' with
    | true => exact .ok ha
    | false =>
      cases s.meet? r t with
      | none => exact .ok (alike_refl _)
      | some common =>
        refine hmet.bind fun field field' hfield => ?_
        cases hfield with
        | none => exact .ok (alike_refl _)
        | some hfield => exact ofShape_congr common hfield

theorem meet_congr {a a' b b' : Element} (ha : Alike a a') (hb : Alike b b') :
    Agree Alike (Checked.meet r a b) (Checked.meet r a' b') := by
  induction a using inductionOnFields generalizing a' b b' with
  | top =>
    cases ha
    exact .ok hb
  | bottom =>
    cases ha
    exact .ok .bottom
  | boolean s =>
    cases ha
    cases hb with
    | top => exact .ok (.boolean s)
    | boolean t => exact .ok (alike_refl _)
    | _ => exact .ok .bottom
  | integral s =>
    cases ha with
    | integral hwidth hrange =>
      cases hb with
      | top => exact .ok (.integral hwidth hrange)
      | integral hwidth' hrange' =>
        refine .ok ?_
        rw [meet_integral_integral, meet_integral_integral, hwidth, hwidth']
        split
        · exact alike_combine? RangeSet.intersect hwidth hrange hrange'
        · exact .bottom
      | _ => exact .ok .bottom
  | floating w s =>
    cases ha with
    | floating _ hs =>
      cases hb with
      | top => exact .ok (.floating w hs)
      | floating w' ht =>
        refine .ok ?_
        rw [meet_floating_floating, meet_floating_floating]
        split
        · exact alike_elim (fun _ _ h => .floating w h) (hs.meet? ht)
        · exact .bottom
      | _ => exact .ok .bottom
  | null =>
    cases ha
    cases hb with
    | top => exact .ok .null
    | null => exact .ok .null
    | plain t => exact .ok (alike_refl _)
    | tracked t name hvalue =>
      refine .ok ?_
      rw [meet_null_object, meet_null_object]
      exact alike_refl _
    | _ => exact .ok .bottom
  | object s f ih =>
    obtain ⟨f', rfl, hf⟩ := eq_object_of_alike ha
    have hobject {t : ObjectShape} {g g' : Option (String × Element)} (hg : AlikeField g g') :
        Agree Alike (Checked.meet r (object s f) (object t g))
          (Checked.meet r (object s f') (object t g')) := by
      rw [Checked.meet_object_object, Checked.meet_object_object]
      have hfields : Agree (Option.Rel AlikeField) (Checked.meetField? r f g)
          (Checked.meetField? r f' g') :=
        meetField?_congr hf hg fun x hx _ _ _ hx' hy => ih x hx hx' hy
      exact meetReferences_congr hf hg hfields
    cases hb with
    | top => cases hf <;> exact .ok ha
    | null =>
      rw [Checked.meet_object_null, Checked.meet_object_null]
      exact .ok (alike_refl _)
    | plain t => exact hobject .none
    | tracked t name hvalue => exact hobject (.some name hvalue)
    | constant hpayload hconstraint =>
      rw [Checked.meet_object_constant, Checked.meet_object_constant,
        covers_congr ha (.constant hpayload hconstraint)]
      refine .after _ fun covered _ => ?_
      cases covered with
      | true => exact .ok (.constant hpayload hconstraint)
      | false => exact .ok .bottom
    | _ => cases hf <;> exact .ok .bottom
  | constant c =>
    have halike := ha
    cases ha with
    | @constant _ c' hpayload hconstraint =>
      have hobject {t : ObjectShape} {g g' : Option (String × Element)} (hg : AlikeField g g') :
          Agree Alike (Checked.meet r (constant c) (object t g))
            (Checked.meet r (constant c') (object t g')) := by
        simp only [Checked.meet, covers_congr (alike_object hg) halike]
        refine .after _ fun covered _ => ?_
        cases covered with
        | true => exact .ok halike
        | false => exact .ok .bottom
      cases hb with
      | top => exact .ok halike
      | plain t => exact hobject .none
      | tracked t name hvalue => exact hobject (.some name hvalue)
      | constant hpayload' hconstraint' =>
        refine .ok ?_
        rw [meet_constant_constant, meet_constant_constant,
          constant_covers_congr ⟨hpayload, hconstraint⟩ ⟨hpayload', hconstraint'⟩,
          constant_covers_congr ⟨hpayload', hconstraint'⟩ ⟨hpayload, hconstraint⟩]
        split
        · exact .constant hpayload' hconstraint'
        split
        · exact halike
        · exact .bottom
      | _ => exact .ok .bottom

/-! ## Complements and conditions -/

theorem negate_congr {a b : Element} (h : Alike a b) : Alike (negate a) (negate b) := by
  cases h with
  | integral hwidth hrange =>
    show Alike (ofIntegral? (IntegralSet.negate? _)) (ofIntegral? (IntegralSet.negate? _))
    rw [IntegralSet.negate?, IntegralSet.negate?, hwidth, hrange]
    exact alike_refl _
  | floating w h => exact alike_elim (fun _ _ h => .floating w h) h.negate?
  | top => exact .bottom
  | bottom => exact .top
  | boolean s => exact alike_refl _
  | null => exact alike_refl _
  | plain shape => exact alike_refl _
  | tracked shape name h => exact .bottom
  | constant hpayload hconstraint => exact .bottom

theorem kind_eq_of_alike {a b : Element} (h : Alike a b) : a.kind = b.kind := by
  cases h with
  | floating w h => cases h <;> rfl
  | _ => rfl

theorem narrow_congr {a b : Element} (h : Alike a b) (range : RangeSet) :
    Agree Alike (narrow range a) (narrow range b) := by
  have hfault := congrArg (Fault.cannotNarrow · range) (kind_eq_of_alike h)
  cases h with
  | bottom => exact .ok .bottom
  | integral hwidth hrange =>
    refine .ok ?_
    show Alike (ofIntegral? (IntegralSet.narrow? _ range))
      (ofIntegral? (IntegralSet.narrow? _ range))
    rw [IntegralSet.narrow?, IntegralSet.narrow?, hwidth, hrange]
    exact alike_normal? _ _ _ _
  | _ => exact .error_of_eq hfault

/-! ## Elements of a history -/

/-- Elements over one hierarchy with plain names that count as the same can stand for each other: the
order does not tell them apart, and what the operations return counts as the same. The operations
return where string constants are short. -/
theorem same_laws {id : HierarchyId} {es : List Element} (h : History id .plain es)
    {a a' b b' : Element} (ha : a ∈ es) (ha' : a' ∈ es) (hb : b ∈ es) (hb' : b' ∈ es)
    (haa : a.same a' = true) (hbb : b.same b' = true) (r : Registry) :
    Checked.covers r a b = Checked.covers r a' b' ∧
      Agree (fun e e' => e.same e' = true) (Checked.join r a b) (Checked.join r a' b') ∧
      Agree (fun e e' => e.same e' = true) (Checked.meet r a b) (Checked.meet r a' b') ∧
      (negate a).same (negate a') = true ∧
      ((a = bottom ∨ ∃ s, a = integral s) → ∀ range, ∃ e e', narrow range a = .ok e ∧
        narrow range a' = .ok e' ∧ e.same e' = true) ∧
      (History id .short es → (∃ c, Checked.covers r a b = .ok c) ∧
        (∃ e, Checked.join r a b = .ok e) ∧ ∃ e, Checked.meet r a b = .ok e) := by
  have hregular := h.regular
  have haa' : Alike a a' := alike_of_key_eq (hregular a ha) (hregular a' ha') (same_iff.1 haa)
  have hbb' : Alike b b' := alike_of_key_eq (hregular b hb) (hregular b' hb') (same_iff.1 hbb)
  refine ⟨covers_congr haa' hbb', (join_congr haa' hbb').same, (meet_congr haa' hbb').same,
    same_iff.2 (negate_congr haa').key_eq, ?_, ?_⟩
  · intro hnarrow range
    have hreturn : ∃ e, narrow range a = .ok e := by
      rcases hnarrow with rfl | ⟨s, rfl⟩
      · exact ⟨_, rfl⟩
      · exact ⟨_, rfl⟩
    obtain ⟨e, he⟩ := hreturn
    obtain ⟨e', he', hsame⟩ := (narrow_congr haa' range).same.exists_ok he
    exact ⟨e, e', he, he', hsame⟩
  · intro hshort
    have hregular := hshort.regular
    have hlength : ∀ s, Vocabulary.short.text s → Text.unitLength s < Nat.pow 2 31 :=
      fun _ hs => hs
    exact ⟨⟨_, Checked.covers_eq hlength (hregular b hb)⟩,
      ⟨_, Checked.join_eq hlength (hregular a ha) (hregular b hb)⟩,
      ⟨_, Checked.meet_eq hlength (hregular a ha) (hregular b hb)⟩⟩

/-- Lengths of at most ten, once a condition has excluded the ones up to twenty. -/
def narrowedLength : Element := integral ⟨.int, .range 0 10, some (.range 0 20)⟩

/-- Short texts whose length was narrowed. -/
def narrowedText : Element :=
  object ⟨.nominal 0 (.bounds ["CharSequence"]), .nullable, .unknown, false⟩
    (some (lengthField, narrowedLength))

/-- The greeting as a literal. -/
def literalGreeting : ReferenceConstant := { greeting with synthesized := false }

/-- The greetings, and elements that count as the same but have wide ranges or another origin. -/
def retoldGreetings : List Element :=
  [constant literalGreeting, narrowedText, narrowedLength, integral ⟨.int, .range 0 20, none⟩] ++
    greetings

theorem history_retoldGreetings {v : Vocabulary} (hs : (textRegistry.hierarchy 0).Spelled v.type)
    (htype : ∀ name ∈ ["String", "CharSequence"], v.type name) (htext : v.text "hello") :
    History 0 v retoldGreetings := by
  have hwide : History 0 v (integral ⟨.int, .range 0 20, none⟩ :: greetings) := by
    have hrange : ofRange .int (.range 0 20) = .ok (integral ⟨.int, .range 0 20, none⟩) := by rfl
    exact .make (history_greetings htype htext) (.ofRange (.range 0 20) hrange)
  have hlength : History 0 v
      (narrowedLength :: integral ⟨.int, .range 0 20, none⟩ :: greetings) := by
    refine .step textRegistry (.narrow (.range 0 10) (integral ⟨.int, .range 0 20, none⟩)) hwide
      hs (.inr ⟨_, rfl⟩) ?_ (by rfl)
    intro a ha
    obtain rfl := List.mem_singleton.1 ha
    exact List.mem_cons_self
  have hnarrowed : History 0 v
      (narrowedText :: narrowedLength :: integral ⟨.int, .range 0 20, none⟩ :: greetings) := by
    have hobject : ofObject (.instanceOf textRegistry 0 "CharSequence") .nullable .unknown
        (some (lengthField, narrowedLength)) false = .ok narrowedText := by rfl
    refine .make hlength (.ofObject (Constraint.over_instanceOf (htype _ (by decide))) ?_ hobject)
    intro f hf
    obtain rfl := Option.some.inj hf
    exact ⟨v.lengthField_allowed, List.mem_cons_self⟩
  have hsource := ConstraintSource.over_ofHierarchy textRegistry 0 v.type
  have hallowed : AllowsString v (Payload.string "hello").toHost := by
    intro s hs
    have hread : Payload.ofHost? (Payload.string "hello").toHost = some (.string "hello") :=
      Payload.ofHost?_toHost trivial
    obtain rfl := Payload.string.inj (Option.some.inj (hread.symm.trans hs))
    exact htext
  have hliteral : ofReferenceConstant (Payload.string "hello").toHost "String"
      (.ofHierarchy textRegistry 0) = .ok (constant literalGreeting) := by rfl
  exact .make hnarrowed (.ofReferenceConstant hallowed (htype _ (by decide)) hsource hliteral)

theorem same_laws_greeting :
    History 0 .plain retoldGreetings ∧ shortText.same narrowedText = true ∧
      (constant greeting).same (constant literalGreeting) = true ∧
      Checked.covers textRegistry shortText (constant greeting) =
        Checked.covers textRegistry narrowedText (constant literalGreeting) ∧
      Agree (fun e e' => e.same e' = true)
        (Checked.join textRegistry shortText (constant greeting))
        (Checked.join textRegistry narrowedText (constant literalGreeting)) ∧
      ∃ e, Checked.join textRegistry shortText (constant greeting) = .ok e := by
  have hplain : History 0 .plain retoldGreetings :=
    history_retoldGreetings spelled_texts (by decide) trivial
  have htext : Text.unitLength "hello" < Nat.pow 2 31 := by decide
  have hshort : History 0 .short retoldGreetings :=
    history_retoldGreetings (fun _ _ _ => trivial) (fun _ _ => trivial) htext
  have hmem : shortText ∈ retoldGreetings ∧ narrowedText ∈ retoldGreetings ∧
      constant greeting ∈ retoldGreetings ∧ constant literalGreeting ∈ retoldGreetings := by
    simp [retoldGreetings, greetings]
  obtain ⟨htexts, hnarrowed, hgreeting, hliteral⟩ := hmem
  have hsame : shortText.same narrowedText = true := same_iff.2 rfl
  have hsame' : (constant greeting).same (constant literalGreeting) = true := same_iff.2 rfl
  obtain ⟨hcovers, hjoin, _, _, _, hreturn⟩ :=
    same_laws hplain htexts hnarrowed hgreeting hliteral hsame hsame' textRegistry
  exact ⟨hplain, hsame, hsame', hcovers, hjoin, (hreturn hshort).2.1⟩

end ValueLattice.Element
