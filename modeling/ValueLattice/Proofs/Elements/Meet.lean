import ValueLattice.Element.Meet
import ValueLattice.Proofs.Elements.Join

/-!
# The meet of elements

The meet of two objects neither of which covers the other one has the meet of their shapes and of
their special fields, where both exist, and otherwise is `null` or `bottom`.

* `meet_object_object`: this form of the meet;
* `normal_meet`, `covers_meet`, `key_meet_comm`: the meet is a normal lower bound, whatever the
  order of the operands;
* `key_meet_of_covers`: an element is its meet with what covers it;
* `meet_covers_of_covers`: where no constant is involved, the meet covers every satisfiable element
  that both operands cover.
-/

namespace ValueLattice.Element

variable {r : Registry} {id : HierarchyId} {v : Vocabulary}

/-! ## The form of the meet of two objects -/

/-- The special field of a meet; `none` if the values of the two fields have no common value or the
fields have different names. -/
def meetField? (r : Registry) (f g : Option (String × Element)) :
    Option (Option (String × Element)) :=
  match f, g with
  | none, g => some g
  | f, none => some f
  | some (name, value), some (name', value') =>
    if name = name' then
      if (meet r value value').isBottom then none else some (bind? name (meet r value value'))
    else none

/-- The objects that belong to two shapes with their special fields. -/
def meetObject? (r : Registry) (s : ObjectShape) (f : Option (String × Element)) (t : ObjectShape)
    (g : Option (String × Element)) : Option Element :=
  (s.meet? r t).bind fun shape => (meetField? r f g).map (object shape)

theorem isBottom_iff {e : Element} : e.isBottom = true ↔ e = bottom := by
  cases e <;> simp [isBottom]

/-- Two objects neither of which covers the other one. -/
theorem meet_of_not_covers {s t : ObjectShape} {f g : Option (String × Element)}
    (hst : ¬ covers r (object s f) (object t g) = true)
    (hts : ¬ covers r (object t g) (object s f) = true) :
    meet r (object s f) (object t g) = (meetObject? r s f t g).getD (meetNone s t) := by
  unfold meetObject?
  -- `meet` recurs into the values of two tracked fields only, so each combination is unfolded.
  rcases f with _ | ⟨name, value⟩
  · rcases g with _ | ⟨name', value'⟩ <;> unfold meet <;> dsimp only
    · rw [if_neg hst, if_neg hts]
      cases s.meet? r t <;> rfl
    · rw [if_neg hst, if_neg hts]
      cases s.meet? r t <;> rfl
  · rcases g with _ | ⟨name', value'⟩ <;> unfold meet <;> dsimp only
    · rw [if_neg hst, if_neg hts]
      cases s.meet? r t <;> rfl
    · rw [if_neg hst, if_neg hts]
      cases s.meet? r t with
      | none => rfl
      | some common =>
        by_cases hname : name = name'
        · simp only [meetField?, if_pos hname]
          cases meet r value value' <;> rfl
        · simp only [meetField?, if_neg hname]
          rfl

theorem meet_object_object (s t : ObjectShape) (f g : Option (String × Element)) :
    meet r (object s f) (object t g) =
      if covers r (object s f) (object t g) then object t g
      else if covers r (object t g) (object s f) then object s f
      else (meetObject? r s f t g).getD (meetNone s t) := by
  split
  · next hst =>
    rcases f with _ | ⟨name, value⟩ <;> unfold meet <;> dsimp only <;> rw [if_pos hst]
  split
  · next hst hts =>
    rcases f with _ | ⟨name, value⟩ <;> unfold meet <;> dsimp only <;>
      rw [if_neg hst, if_pos hts]
  · next hst hts => exact meet_of_not_covers hst hts

theorem meetObject?_eq_some_iff {s t : ObjectShape} {f g : Option (String × Element)}
    {e : Element} : meetObject? r s f t g = some e ↔
      ∃ shape field, s.meet? r t = some shape ∧ meetField? r f g = some field ∧
        e = object shape field := by
  simp only [meetObject?, Option.bind_eq_some_iff, Option.map_eq_some_iff]
  constructor
  · rintro ⟨shape, hshape, field, hfield, he⟩
    exact ⟨shape, field, hshape, hfield, he.symm⟩
  · rintro ⟨shape, field, hshape, hfield, he⟩
    exact ⟨shape, hshape, field, hfield, he.symm⟩

/-- The special field of a meet is tracked by one of the elements only, or holds the meet of two
values. -/
inductive MeetField (r : Registry) : Option (String × Element) → Option (String × Element) →
    Option (String × Element) → Prop where
  | right (g : Option (String × Element)) : MeetField r none g g
  | left (f : Option (String × Element)) : MeetField r f none f
  | both {name : String} {value value' : Element} : meet r value value' ≠ bottom →
      MeetField r (some (name, value)) (some (name, value')) (bind? name (meet r value value'))

theorem meetField_of_eq_some {f g h : Option (String × Element)}
    (hmeet : meetField? r f g = some h) : MeetField r f g h := by
  rcases f with _ | ⟨name, value⟩
  · obtain rfl := Option.some.inj hmeet
    exact .right _
  rcases g with _ | ⟨name', value'⟩
  · obtain rfl := Option.some.inj hmeet
    exact .left _
  by_cases hname : name = name'
  · subst hname
    by_cases hbottom : (meet r value value').isBottom = true
    · simp [meetField?, hbottom] at hmeet
    · simp only [meetField?, if_true, if_neg hbottom] at hmeet
      obtain rfl := Option.some.inj hmeet
      exact .both fun h => hbottom (isBottom_iff.2 h)
  · simp [meetField?, hname] at hmeet

theorem normal_of_meetField {f g h : Option (String × Element)} (hfgh : MeetField r f g h)
    (hf : ∀ x ∈ f, NormalField r id v x) (hg : ∀ y ∈ g, NormalField r id v y)
    (hmeet : ∀ x ∈ f, ∀ y ∈ g, (meet r x.2 y.2).Normal r id v) :
    ∀ z ∈ h, NormalField r id v z := by
  cases hfgh with
  | right => exact hg
  | left => exact hf
  | both =>
    intro z hz
    obtain ⟨htop, rfl⟩ := mem_bind?_iff.1 hz
    exact ⟨(hf _ rfl).1, htop, hmeet _ rfl _ rfl⟩

/-- A value of a special field is not `top`, so what it covers is not `top` and is tracked. -/
theorem covers_of_meetField {f g h : Option (String × Element)} (hfgh : MeetField r f g h)
    (hf : ∀ x ∈ f, NormalField r id v x)
    (hmeet : ∀ x ∈ f, ∀ y ∈ g,
      covers r x.2 (meet r x.2 y.2) = true ∧ covers r y.2 (meet r x.2 y.2) = true) :
    FieldCovers r f h ∧ FieldCovers r g h := by
  cases hfgh with
  | right => exact ⟨fun x hx => (nomatch hx), fun y hy => ⟨y, hy, rfl, covers_self r y.2⟩⟩
  | left => exact ⟨fun x hx => ⟨x, hx, rfl, covers_self r x.2⟩, fun y hy => (nomatch hy)⟩
  | @both name value value' _ =>
    obtain ⟨hx, hy⟩ := hmeet _ rfl _ rfl
    have htop : meet r value value' ≠ top := by
      intro htop
      rw [htop] at hx
      exact (hf _ rfl).2.1 (eq_top_of_covers_top hx)
    have hmem : (name, meet r value value') ∈ bind? name (meet r value value') :=
      mem_bind?_iff.2 ⟨htop, rfl⟩
    constructor
    · rintro x hxf
      obtain rfl := Option.some.inj hxf
      exact ⟨_, hmem, rfl, hx⟩
    · rintro y hyg
      obtain rfl := Option.some.inj hyg
      exact ⟨_, hmem, rfl, hy⟩

theorem meetField?_comm {f g : Option (String × Element)}
    (hmeet : ∀ x ∈ f, ∀ y ∈ g, key (meet r x.2 y.2) = key (meet r y.2 x.2)) :
    (meetField? r f g).map fieldKey = (meetField? r g f).map fieldKey := by
  rcases f with _ | ⟨name, value⟩ <;> rcases g with _ | ⟨name', value'⟩
  · rfl
  · rfl
  · rfl
  · by_cases hname : name = name'
    · subst hname
      have hkey := hmeet _ rfl _ rfl
      simp only [meetField?, if_true]
      -- No other element has the key of `bottom`, so both meets are `bottom` or none is.
      by_cases hbottom : (meet r value value').isBottom = true
      · have hbottom' : (meet r value' value).isBottom = true := by
          rw [isBottom_iff.1 hbottom] at hkey
          exact isBottom_iff.2 (eq_bottom_of_key_eq hkey.symm)
        rw [if_pos hbottom, if_pos hbottom']
      · have hbottom' : ¬ (meet r value' value).isBottom = true := by
          intro hbottom'
          rw [isBottom_iff.1 hbottom'] at hkey
          exact hbottom (isBottom_iff.2 (eq_bottom_of_key_eq hkey))
        rw [if_neg hbottom, if_neg hbottom', Option.map_some, Option.map_some,
          fieldKey_bind?_congr hkey]
    · simp only [meetField?, if_neg hname, if_neg (Ne.symm hname)]

theorem meetNone_comm (s t : ObjectShape) : meetNone s t = meetNone t s := by
  rw [meetNone, meetNone, ObjectShape.bothMayBeNull, ObjectShape.bothMayBeNull, Bool.and_comm]

theorem key_meetObject?_comm (hw : (r.hierarchy id).WellFormed) {s t : ObjectShape}
    {f g : Option (String × Element)} (hs : s.Normal r id v.type) (ht : t.Normal r id v.type)
    (hmeet : ∀ x ∈ f, ∀ y ∈ g, key (meet r x.2 y.2) = key (meet r y.2 x.2)) :
    key ((meetObject? r s f t g).getD (meetNone s t)) =
      key ((meetObject? r t g s f).getD (meetNone t s)) := by
  have hfield := meetField?_comm hmeet
  rw [meetObject?, meetObject?, ObjectShape.meet?_comm hw hs ht, meetNone_comm s]
  cases t.meet? r s with
  | none => rfl
  | some shape =>
    cases hfg : meetField? r f g with
    | none =>
      cases hgf : meetField? r g f with
      | none => rfl
      | some h' =>
        rw [hfg, hgf] at hfield
        exact nomatch hfield
    | some h =>
      cases hgf : meetField? r g f with
      | none =>
        rw [hfg, hgf] at hfield
        exact nomatch hfield
      | some h' =>
        rw [hfg, hgf] at hfield
        show key (object shape h) = key (object shape h')
        rw [key_object, key_object, Option.some.inj hfield]

/-! ## Equations -/

theorem meet_boolean_boolean (s t : BooleanSet) :
    meet r (boolean s) (boolean t) = ofBoolean? (s.meet? t) := rfl

theorem meet_integral_integral (s t : IntegralSet) : meet r (integral s) (integral t) =
    if s.width = t.width then ofIntegral? (s.meet? t) else bottom := rfl

theorem meet_floating_floating (w w' : FloatingWidth) (s t : FloatingSet) :
    meet r (floating w s) (floating w' t) =
      if w = w' then ofFloating? w (s.meet? t) else bottom := rfl

theorem meet_object_constant (s : ObjectShape) (f : Option (String × Element))
    (c : ReferenceConstant) : meet r (object s f) (constant c) =
      if covers r (object s f) (constant c) then constant c else bottom := by
  rcases f with _ | ⟨name, value⟩ <;> rfl

theorem meet_constant_object (s : ObjectShape) (f : Option (String × Element))
    (c : ReferenceConstant) : meet r (constant c) (object s f) =
      if covers r (object s f) (constant c) then constant c else bottom := by
  rcases f with _ | ⟨name, value⟩ <;> rfl

theorem meet_constant_constant (c d : ReferenceConstant) : meet r (constant c) (constant d) =
    if c.covers r d then constant d else if d.covers r c then constant c else bottom := rfl

theorem meet_object_null (s : ObjectShape) (f : Option (String × Element)) :
    meet r (object s f) null = if s.nullability.mayBeNull then null else bottom := by
  rcases f with _ | ⟨name, value⟩ <;> rfl

theorem meet_null_object (s : ObjectShape) (f : Option (String × Element)) :
    meet r null (object s f) = if s.nullability.mayBeNull then null else bottom := rfl

/-! ## Normal forms -/

theorem normal_meetNone (s t : ObjectShape) : (meetNone s t).Normal r id v := by
  unfold meetNone
  split <;> trivial

theorem normal_meetObject? {s t : ObjectShape} {f g : Option (String × Element)}
    (ha : (object s f).Normal r id v) (hb : (object t g).Normal r id v)
    (hvalues : ∀ x ∈ f, ∀ y ∈ g, (meet r x.2 y.2).Normal r id v) :
    ((meetObject? r s f t g).getD (meetNone s t)).Normal r id v := by
  obtain ⟨hs, hf⟩ := normal_object_iff.1 ha
  obtain ⟨ht, hg⟩ := normal_object_iff.1 hb
  cases hmeet : meetObject? r s f t g with
  | none => exact normal_meetNone s t
  | some e =>
    obtain ⟨shape, field, hshape, hfield, rfl⟩ := meetObject?_eq_some_iff.1 hmeet
    exact normal_object_iff.2 ⟨ObjectShape.normal_meet? hs ht hshape,
      normal_of_meetField (meetField_of_eq_some hfield) hf hg hvalues⟩

theorem normal_meet {a b : Element} (ha : a.Normal r id v) (hb : b.Normal r id v) :
    (meet r a b).Normal r id v := by
  induction a using inductionOnFields generalizing b with
  | top => exact hb
  | bottom => trivial
  | boolean s =>
    cases b with
    | boolean t => exact normal_elim fun _ _ => trivial
    | _ => trivial
  | integral s =>
    cases b with
    | top => exact ha
    | integral t =>
      rw [meet_integral_integral]
      split
      · exact normal_elim fun u hu => (IntegralSet.meet?_eq_some hu).1
      · trivial
    | _ => trivial
  | floating w s =>
    cases b with
    | top => exact ha
    | floating w' t =>
      rw [meet_floating_floating]
      split
      · exact normal_elim fun u hu => FloatingSet.valid_meet? ha hb hu
      · trivial
    | _ => trivial
  | null =>
    cases b with
    | object shape field =>
      rw [meet_null_object]
      split <;> trivial
    | _ => trivial
  | object shape field ih =>
    cases b with
    | top => rw [meet_top]; exact ha
    | null =>
      rw [meet_object_null]
      split <;> trivial
    | object shape' field' =>
      rw [meet_object_object]
      split
      · exact hb
      split
      · exact ha
      apply normal_meetObject? ha hb
      intro x hx y hy
      exact ih x hx (normal_value ha hx) (normal_value hb hy)
    | constant c =>
      rw [meet_object_constant]
      split
      · exact hb
      · trivial
    | _ => rcases field with _ | ⟨name, value⟩ <;> trivial
  | constant c =>
    cases b with
    | top => exact ha
    | object shape field =>
      rw [meet_constant_object]
      split
      · exact ha
      · trivial
    | constant d =>
      rw [meet_constant_constant]
      split
      · exact hb
      · split
        · exact ha
        · trivial
    | _ => trivial

/-! ## Lower bounds -/

theorem covers_meetNone (s t : ObjectShape) (f g : Option (String × Element)) :
    covers r (object s f) (meetNone s t) = true ∧
      covers r (object t g) (meetNone s t) = true := by
  unfold meetNone
  split
  · next h => exact Bool.and_eq_true_iff.1 h
  · exact ⟨covers_bottom r _, covers_bottom r _⟩

theorem covers_elim {α : Type} {f : α → Element} {s : Option α} {a b : Element}
    (h : ∀ t ∈ s, covers r a (f t) = true ∧ covers r b (f t) = true) :
    covers r a (s.elim bottom f) = true ∧ covers r b (s.elim bottom f) = true := by
  cases s with
  | none => exact ⟨covers_bottom r a, covers_bottom r b⟩
  | some t => exact h t rfl

theorem covers_meetObject? (hw : (r.hierarchy id).WellFormed) {s t : ObjectShape}
    {f g : Option (String × Element)} (ha : (object s f).Normal r id v)
    (hb : (object t g).Normal r id v)
    (hvalues : ∀ x ∈ f, ∀ y ∈ g,
      covers r x.2 (meet r x.2 y.2) = true ∧ covers r y.2 (meet r x.2 y.2) = true) :
    covers r (object s f) ((meetObject? r s f t g).getD (meetNone s t)) = true ∧
      covers r (object t g) ((meetObject? r s f t g).getD (meetNone s t)) = true := by
  obtain ⟨hs, hf⟩ := normal_object_iff.1 ha
  obtain ⟨ht, _⟩ := normal_object_iff.1 hb
  cases hmeet : meetObject? r s f t g with
  | none => exact covers_meetNone s t f g
  | some e =>
    obtain ⟨shape, field, hshape, hfield, rfl⟩ := meetObject?_eq_some_iff.1 hmeet
    obtain ⟨hss, hts⟩ := ObjectShape.covers_meet? hw hs ht hshape
    obtain ⟨hff, hgf⟩ := covers_of_meetField (meetField_of_eq_some hfield) hf hvalues
    exact ⟨covers_object_object.2 ⟨hss, hff⟩, covers_object_object.2 ⟨hts, hgf⟩⟩

theorem covers_meet (hw : (r.hierarchy id).WellFormed) {a b : Element}
    (ha : a.Normal r id v) (hb : b.Normal r id v) :
    covers r a (meet r a b) = true ∧ covers r b (meet r a b) = true := by
  have hbottom (a b : Element) : covers r a bottom = true ∧ covers r b bottom = true :=
    ⟨covers_bottom r a, covers_bottom r b⟩
  induction a using inductionOnFields generalizing b with
  | top => exact ⟨rfl, covers_self r b⟩
  | bottom => exact ⟨rfl, covers_bottom r b⟩
  | boolean s =>
    cases b with
    | top => exact ⟨covers_self r _, rfl⟩
    | boolean t =>
      rw [meet_boolean_boolean]
      apply covers_elim
      intro u hu
      show s.covers u = true ∧ t.covers u = true
      exact BooleanSet.covers_meet? hu
    | _ => exact hbottom _ _
  | integral s =>
    cases b with
    | top => exact ⟨covers_self r _, rfl⟩
    | integral t =>
      rw [meet_integral_integral]
      split
      · next hwidth =>
        apply covers_elim
        intro u hu
        show s.covers u = true ∧ t.covers u = true
        exact IntegralSet.covers_meet? ha hb hwidth hu
      · exact hbottom _ _
    | _ => exact hbottom _ _
  | floating w s =>
    cases b with
    | top => exact ⟨covers_self r _, rfl⟩
    | floating w' t =>
      rw [meet_floating_floating]
      split
      · next hwidth =>
        subst hwidth
        apply covers_elim
        intro u hu
        obtain ⟨hsu, htu⟩ := FloatingSet.covers_meet? ha hb hu
        exact ⟨covers_iff.2 (.floating hsu), covers_iff.2 (.floating htu)⟩
      · exact hbottom _ _
    | _ => exact hbottom _ _
  | null =>
    cases b with
    | top => exact ⟨rfl, rfl⟩
    | null => exact ⟨rfl, rfl⟩
    | object shape field =>
      rw [meet_null_object]
      split
      · next h => exact ⟨rfl, h⟩
      · exact hbottom _ _
    | _ => exact hbottom _ _
  | object shape field ih =>
    cases b with
    | top => rw [meet_top]; exact ⟨covers_self r _, rfl⟩
    | null =>
      rw [meet_object_null]
      split
      · next h => exact ⟨h, rfl⟩
      · exact hbottom _ _
    | object shape' field' =>
      rw [meet_object_object]
      split
      · next h => exact ⟨h, covers_self r _⟩
      split
      · next h => exact ⟨covers_self r _, h⟩
      apply covers_meetObject? hw ha hb
      intro x hx y hy
      exact ih x hx (normal_value ha hx) (normal_value hb hy)
    | constant c =>
      rw [meet_object_constant]
      split
      · next h => exact ⟨h, covers_self r _⟩
      · exact hbottom _ _
    | _ => rcases field with _ | ⟨name, value⟩ <;> exact hbottom _ _
  | constant c =>
    cases b with
    | top => exact ⟨covers_self r _, rfl⟩
    | object shape field =>
      rw [meet_constant_object]
      split
      · next h => exact ⟨covers_self r _, h⟩
      · exact hbottom _ _
    | constant d =>
      rw [meet_constant_constant]
      split
      · next h => exact ⟨h, covers_self r _⟩
      split
      · next h => exact ⟨covers_self r _, h⟩
      · exact hbottom _ _
    | _ => exact hbottom _ _

/-! ## The order of the operands -/

/-- Sets with one key make elements with one key, where `k` is the key of what `f` makes. -/
theorem key_elim_congr {α : Type} {f : α → Element} {k : α → String} (hk : ∀ x, key (f x) = k x)
    {s t : Option α} (h : s.map k = t.map k) : key (s.elim bottom f) = key (t.elim bottom f) := by
  cases s with
  | none =>
    cases t with
    | none => rfl
    | some t => exact nomatch h
  | some s =>
    cases t with
    | none => exact nomatch h
    | some t =>
      show key (f s) = key (f t)
      rw [hk, hk]
      exact Option.some.inj h

theorem key_meet_comm (hw : (r.hierarchy id).WellFormed) {a b : Element}
    (ha : a.Normal r id v) (hb : b.Normal r id v) : key (meet r a b) = key (meet r b a) := by
  induction a using inductionOnFields generalizing b with
  | top => rw [top_meet, meet_top]
  | bottom => rw [bottom_meet, meet_bottom]
  | boolean s =>
    cases b with
    | boolean t => rw [meet_boolean_boolean, meet_boolean_boolean, BooleanSet.meet?_comm]
    | _ => rfl
  | integral s =>
    cases b with
    | integral t =>
      rw [meet_integral_integral, meet_integral_integral]
      by_cases hwidth : s.width = t.width
      · rw [if_pos hwidth, if_pos hwidth.symm]
        apply key_elim_congr (fun _ => rfl)
        exact IntegralSet.key_meet?_comm hwidth
      · rw [if_neg hwidth, if_neg (Ne.symm hwidth)]
    | _ => rfl
  | floating w s =>
    cases b with
    | floating w' t =>
      rw [meet_floating_floating, meet_floating_floating]
      by_cases hwidth : w = w'
      · rw [if_pos hwidth, if_pos hwidth.symm, ← hwidth]
        apply key_elim_congr (fun _ => rfl)
        exact FloatingSet.key_meet?_comm ha hb w
      · rw [if_neg hwidth, if_neg (Ne.symm hwidth)]
    | _ => rfl
  | null =>
    cases b with
    | object shape field => rw [meet_null_object, meet_object_null]
    | _ => rfl
  | object shape field ih =>
    cases b with
    | top => rw [top_meet, meet_top]
    | null => rw [meet_null_object, meet_object_null]
    | object shape' field' =>
      rw [meet_object_object, meet_object_object]
      apply apply_choice_comm
      · intro hab hba
        exact key_eq_of_covers hw hb ha hba hab
      · intro _ _
        apply key_meetObject?_comm hw (normal_object_iff.1 ha).1 (normal_object_iff.1 hb).1
        intro x hx y hy
        exact ih x hx (normal_value ha hx) (normal_value hb hy)
    | constant c => rw [meet_object_constant, meet_constant_object]
    | _ => rcases field with _ | ⟨name, value⟩ <;> rfl
  | constant c =>
    cases b with
    | object shape field => rw [meet_object_constant, meet_constant_object]
    | constant d =>
      rw [meet_constant_constant, meet_constant_constant]
      apply apply_choice_comm
      · intro hcd hdc
        exact key_eq_of_covers hw hb ha hdc hcd
      · intro _ _
        rfl
    | _ => rfl

/-- What covers an element leaves it as it is. -/
theorem key_meet_of_covers {a b : Element} (ha : a.Normal r id v) (hb : b.Normal r id v)
    (hab : covers r a b = true) : key (meet r a b) = key b := by
  cases covers_iff.1 hab with
  | top => rfl
  | bottom => rw [meet_bottom]
  | @boolean s t hst =>
    rw [meet_boolean_boolean, BooleanSet.meet?, if_pos hst]
    rfl
  | @integral s t hst =>
    rw [meet_integral_integral, if_pos ((IntegralSet.covers_iff ha).1 hst).1]
    obtain ⟨u, hu, hkey⟩ := IntegralSet.meet?_of_covers ha hb hst
    rw [hu]
    exact hkey
  | @floating w s t hst =>
    rw [meet_floating_floating, if_pos rfl, FloatingSet.meet?, if_pos hst]
    rfl
  | null => rfl
  | @objectNull shape field hnull => rw [meet_object_null, if_pos hnull]
  | object => rw [meet_object_object, if_pos hab]
  | objectConstant => rw [meet_object_constant, if_pos hab]
  | constant hcd => rw [meet_constant_constant, if_pos hcd]

/-! ## Greatest lower bounds -/

/-- No constant occurs in the element, at any depth of special fields. -/
def ConstantFree : Element → Prop
  | object _ (some (_, value)) => ConstantFree value
  | constant _ => False
  | _ => True

theorem constantFree_object_iff {shape : ObjectShape} {field : Option (String × Element)} :
    ConstantFree (object shape field) ↔ ∀ f ∈ field, ConstantFree f.2 := by
  rcases field with _ | ⟨name, value⟩
  · simp [ConstantFree]
  · simp [ConstantFree]

theorem satisfiable_object_iff {shape : ObjectShape} {field : Option (String × Element)} :
    Satisfiable (object shape field) ↔
      shape.constraint ≠ .bottom ∧ ∀ f ∈ field, f.2 ≠ bottom ∧ Satisfiable f.2 := by
  rcases field with _ | ⟨name, value⟩
  · simp [Satisfiable]
  · simp [Satisfiable]

theorem satisfiable_asObject {c : ReferenceConstant} (hc : Satisfiable (constant c)) :
    Satisfiable (asObject c) := by
  refine satisfiable_object_iff.2 ⟨hc, ?_⟩
  intro f hf
  obtain ⟨s, _, rfl⟩ := mem_fieldOf?_iff.1 hf
  exact ⟨Element.noConfusion, trivial⟩

/-- Fields that both cover one without contradictions have a meet, which covers it too. -/
theorem exists_meetField?_covers {f g z : Option (String × Element)} (hfz : FieldCovers r f z)
    (hgz : FieldCovers r g z) (hz : ∀ w ∈ z, w.2 ≠ bottom)
    (hmeet : ∀ x ∈ f, ∀ y ∈ g, ∀ w ∈ z, covers r x.2 w.2 = true → covers r y.2 w.2 = true →
      covers r (meet r x.2 y.2) w.2 = true) :
    ∃ h, meetField? r f g = some h ∧ FieldCovers r h z := by
  rcases f with _ | ⟨name, value⟩
  · exact ⟨g, rfl, hgz⟩
  rcases g with _ | ⟨name', value'⟩
  · exact ⟨_, rfl, hfz⟩
  obtain ⟨w, hw, hname, hcovers⟩ := hfz _ rfl
  obtain ⟨w', hw', hname', hcovers'⟩ := hgz _ rfl
  obtain rfl : w = w' := Option.some.inj (hw.symm.trans hw')
  have hmeet := hmeet _ rfl _ rfl w hw hcovers hcovers'
  have hbottom : ¬ (meet r value value').isBottom = true := by
    intro hbottom
    rw [isBottom_iff.1 hbottom] at hmeet
    exact hz w hw (eq_bottom_of_bottom_covers hmeet)
  refine ⟨bind? name (meet r value value'), ?_, ?_⟩
  · rw [meetField?, if_pos (show name = name' from hname.trans hname'.symm), if_neg hbottom]
  · intro x hx
    obtain ⟨_, rfl⟩ := mem_bind?_iff.1 hx
    exact ⟨w, hw, hname, hmeet⟩

/-- A shape and a special field below those of two objects are below those of their meet. -/
theorem exists_meetObject?_covers (hw : (r.hierarchy id).WellFormed) {s t z : ObjectShape}
    {f g h : Option (String × Element)} (hs : s.Normal r id v.type) (ht : t.Normal r id v.type)
    (hz : (object z h).Normal r id v) (hsat : Satisfiable (object z h))
    (hsz : s.covers r z = true) (htz : t.covers r z = true) (hfh : FieldCovers r f h)
    (hgh : FieldCovers r g h)
    (hmeet : ∀ x ∈ f, ∀ y ∈ g, ∀ w ∈ h, covers r x.2 w.2 = true → covers r y.2 w.2 = true →
      covers r (meet r x.2 y.2) w.2 = true) :
    ∃ shape field, meetObject? r s f t g = some (object shape field) ∧
      shape.covers r z = true ∧ FieldCovers r field h := by
  obtain ⟨hbottom, hfield⟩ := satisfiable_object_iff.1 hsat
  obtain ⟨hnormal, _⟩ := normal_object_iff.1 hz
  obtain ⟨shape, hshape, hcovers⟩ :=
    ObjectShape.exists_meet?_covers hw hs ht hnormal hbottom hsz htz
  obtain ⟨field, hmeetField, hcovers'⟩ :=
    exists_meetField?_covers hfh hgh (fun w hw => (hfield w hw).1) hmeet
  exact ⟨shape, field, meetObject?_eq_some_iff.2 ⟨shape, field, hshape, hmeetField, rfl⟩,
    hcovers, hcovers'⟩

theorem meet_covers_null {s t : ObjectShape} {f g : Option (String × Element)} (hs : s.Valid)
    (ht : t.Valid) (hsn : s.nullability.mayBeNull = true) (htn : t.nullability.mayBeNull = true) :
    covers r ((meetObject? r s f t g).getD (meetNone s t)) null = true := by
  cases hmeet : meetObject? r s f t g with
  | none =>
    have hboth : s.bothMayBeNull t = true := Bool.and_eq_true_iff.2 ⟨hsn, htn⟩
    rw [Option.getD_none, meetNone, if_pos hboth]
    rfl
  | some e =>
    obtain ⟨shape, field, hshape, _, rfl⟩ := meetObject?_eq_some_iff.1 hmeet
    rw [Option.getD_some]
    apply covers_iff.2
    apply Covers.objectNull
    exact ObjectShape.mayBeNull_meet? hs ht hshape hsn htn

/-- Where no constant is involved, the meet is the greatest lower bound: it covers every
satisfiable element, constants included, that both operands cover. -/
theorem meet_covers_of_covers (hw : (r.hierarchy id).WellFormed) {a b z : Element}
    (ha : a.Normal r id v) (hb : b.Normal r id v) (hz : z.Normal r id v)
    (hac : a.ConstantFree) (hbc : b.ConstantFree) (hsat : z.Satisfiable)
    (haz : covers r a z = true) (hbz : covers r b z = true) : covers r (meet r a b) z = true := by
  induction a using inductionOnFields generalizing b z with
  | top => exact hbz
  | bottom => exact haz
  | boolean s =>
    cases covers_iff.1 haz with
    | bottom => exact covers_bottom r _
    | boolean hsu =>
      cases covers_iff.1 hbz with
      | top => exact haz
      | boolean htu =>
        obtain ⟨u, hu, hcovers⟩ := BooleanSet.exists_meet?_covers hsu htu
        rw [meet_boolean_boolean, hu]
        exact covers_iff.2 (.boolean hcovers)
  | integral s =>
    cases covers_iff.1 haz with
    | bottom => exact covers_bottom r _
    | integral hsu =>
      cases covers_iff.1 hbz with
      | top => exact haz
      | integral htu =>
        obtain ⟨u, hu, hcovers⟩ := IntegralSet.exists_meet?_covers ha hb hz hsu htu
        have hwidth := ((IntegralSet.covers_iff ha).1 hsu).1
        have hwidth' := ((IntegralSet.covers_iff hb).1 htu).1
        rw [meet_integral_integral, if_pos (hwidth.trans hwidth'.symm), hu]
        exact covers_iff.2 (.integral hcovers)
  | floating w s =>
    cases covers_iff.1 haz with
    | bottom => exact covers_bottom r _
    | floating hsu =>
      cases covers_iff.1 hbz with
      | top => exact haz
      | floating htu =>
        obtain ⟨u, hu, hcovers⟩ := FloatingSet.exists_meet?_covers ha hb hsu htu
        rw [meet_floating_floating, if_pos rfl, hu]
        exact covers_iff.2 (.floating hcovers)
  | null =>
    cases covers_iff.1 haz with
    | bottom => exact covers_bottom r _
    | null =>
      cases covers_iff.1 hbz with
      | top => rfl
      | null => rfl
      | objectNull hnull =>
        rw [meet_null_object, if_pos hnull]
        rfl
  | object shape field ih =>
    have hshape := (normal_object_iff.1 ha).1
    -- What is nested in two fields of operands and covers a value of a satisfiable object has a
    -- meet that covers the value; a string constant counts as the object it belongs to.
    have hvalues {shape' s : ObjectShape} {g h : Option (String × Element)}
        (hy : (object shape' g).Normal r id v) (hyc : (object shape' g).ConstantFree)
        (hz : (object s h).Normal r id v) (hsat : (object s h).Satisfiable) :
        ∀ x ∈ field, ∀ y ∈ g, ∀ w ∈ h, covers r x.2 w.2 = true → covers r y.2 w.2 = true →
          covers r (meet r x.2 y.2) w.2 = true := by
      intro x hx y hyg w hw
      have hxc := constantFree_object_iff.1 hac x hx
      have hyc := constantFree_object_iff.1 hyc y hyg
      have hsat := ((satisfiable_object_iff.1 hsat).2 w hw).2
      exact ih x hx (normal_value ha hx) (normal_value hy hyg) (normal_value hz hw) hxc hyc hsat
    cases covers_iff.1 haz with
    | bottom => exact covers_bottom r _
    | objectNull hnull =>
      cases covers_iff.1 hbz with
      | top => rw [meet_top]; exact haz
      | null =>
        rw [meet_object_null, if_pos hnull]
        rfl
      | objectNull hnull' =>
        rw [meet_object_object]
        split
        · exact hbz
        split
        · exact haz
        exact meet_covers_null hshape.valid (normal_object_iff.1 hb).1.valid hnull hnull'
    | object hs hf =>
      cases covers_iff.1 hbz with
      | top => rw [meet_top]; exact haz
      | @object shape' _ field' _ hs' hf' =>
        rw [meet_object_object]
        split
        · exact hbz
        split
        · exact haz
        obtain ⟨hshape', _⟩ := normal_object_iff.1 hb
        obtain ⟨common, h, hmeet, hcs, hcf⟩ :=
          exists_meetObject?_covers hw hshape hshape' hz hsat hs hs' hf hf'
            (hvalues hb hbc hz hsat)
        rw [hmeet]
        exact covers_object_object.2 ⟨hcs, hcf⟩
    | objectConstant hs hf =>
      cases covers_iff.1 hbz with
      | top => rw [meet_top]; exact haz
      | constant => exact hbc.elim
      | @objectConstant shape' field' c hs' hf' =>
        rw [meet_object_object]
        split
        · exact hbz
        split
        · exact haz
        obtain ⟨hshape', _⟩ := normal_object_iff.1 hb
        have hzObject := normal_asObject hz
        have hsatObject := satisfiable_asObject hsat
        obtain ⟨common, h, hmeet, hcs, hcf⟩ :=
          exists_meetObject?_covers hw hshape hshape' hzObject hsatObject hs hs' hf hf'
            (hvalues hb hbc hzObject hsatObject)
        rw [hmeet]
        exact covers_object_constant.2 ⟨hcs, hcf⟩
  | constant c => exact hac.elim

end ValueLattice.Element
