import ValueLattice.Element.Checked
import ValueLattice.Proofs.Elements.Regular

/-!
# Operations with checks

The checks of the operations keep elements over one hierarchy regular, and are never in the way of
regular elements.

* `regular_join`, `regular_meet`, `regular_asObject`, `regular_widen`: what the operations return is
  regular again, whatever is declared at the time;
* `join_eq`, `meet_eq`, `covers_eq`, `asObject_eq`, `widen_eq`: where string constants are shorter
  than `2^31` units, the operations return, and what they return is what they compute without the
  checks.
-/

namespace ValueLattice.Element.Checked

variable {r : Registry} {id : HierarchyId} {v : Vocabulary}

/-! ## Results -/

theorem bind_eq_ok {α β : Type} {x : Except Fault α} {f : α → Except Fault β} {b : β}
    (h : x >>= f = .ok b) : ∃ a, x = .ok a ∧ f a = .ok b := by
  cases x with
  | error fault => exact nomatch h
  | ok a => exact ⟨a, rfl, h⟩

theorem regular_ofShape {shape : ObjectShape} {field : Option (String × Element)} {e : Element}
    (hc : shape.constraint.Over id v.type) (hfield : ∀ f ∈ field, v.field f.1 ∧ f.2.Regular id v)
    (h : ofShape shape field = .ok e) : e.Regular id v :=
  regular_ofObject hc hfield h

/-- The special field of a constant holds a length that was accepted as an `int`. -/
theorem mem_fieldOf? {c : ReferenceConstant} {field : Option (String × Element)}
    (h : fieldOf? c = .ok field) {f : String × Element} (hf : f ∈ field) :
    ∃ n ∈ IntegralWidth.int.domain, f = (lengthField, integral (.point .int n)) := by
  unfold fieldOf? at h
  split at h
  · obtain ⟨length, hlength, hfield⟩ := bind_eq_ok h
    obtain ⟨n, hn, rfl⟩ := ofInt_eq_ok hlength
    obtain rfl := Except.ok.inj hfield
    exact ⟨n, hn, (Option.some.inj hf).symm⟩
  · rw [← Except.ok.inj h] at hf
    exact nomatch hf

/-- The object reference that a constant belongs to, while its length is accepted. -/
theorem regular_object_fieldOf? {c : ReferenceConstant} {field : Option (String × Element)}
    (hc : (constant c).Regular id v) (h : fieldOf? c = .ok field) :
    (object c.shape field).Regular id v := by
  refine regular_object_iff.2 ⟨⟨fun h => Bool.noConfusion h, hc.1⟩, ?_⟩
  intro f hf
  obtain ⟨n, hn, rfl⟩ := mem_fieldOf? h hf
  exact ⟨v.lengthField_allowed, Element.noConfusion, IntegralSet.valid_point hn⟩

theorem regular_asObject {c : ReferenceConstant} {e : Element} (hc : (constant c).Regular id v)
    (h : asObject c = .ok e) : e.Regular id v := by
  obtain ⟨field, hfield, he⟩ := bind_eq_ok h
  exact regular_ofShape hc.1 (named_field (regular_object_fieldOf? hc hfield)) he

/-! ## Forms of the operations -/

/-- Whether the special field of a reference covers the one of another reference. -/
def fieldCovers (r : Registry) (f g : Option (String × Element)) : Except Fault Bool :=
  match f, g with
  | none, _ => pure true
  | some _, none => pure false
  | some (name, value), some (name', value') =>
    if name = name' then covers r value value' else pure false

theorem covers_object (s : ObjectShape) (f : Option (String × Element)) (b : Element) :
    covers r (object s f) b = (do
      match ← reference? b with
      | none => pure (Element.covers r (object s f) b)
      | some (t, g) => if s.covers r t then fieldCovers r f g else pure false) := by
  rcases f with _ | ⟨name, value⟩
  · rw [covers]
    refine bind_congr fun view => ?_
    match view with
    | none => rfl
    | some (t, g) =>
      show pure (s.covers r t) = if s.covers r t = true then pure true else pure false
      cases s.covers r t <;> rfl
  · rw [covers]
    refine bind_congr fun view => ?_
    match view with
    | none => rfl
    | some (t, none) => exact (ite_self _).symm
    | some (t, some (name', value')) =>
      by_cases hshape : s.covers r t = true
      · simp [hshape, fieldCovers]
      · simp [hshape]

/-- The special field of a join: the join of the values, if both references track it. -/
def joinField? (r : Registry) (f g : Option (String × Element)) :
    Except Fault (Option (String × Element)) :=
  match f, g with
  | some (name, value), some (name', value') =>
    if name = name' then (join r value value').map fun e => some (name, e) else pure none
  | _, _ => pure none

theorem join_object_object (s t : ObjectShape) (f g : Option (String × Element)) :
    join r (object s f) (object t g) =
      joinReferences r s f (object t g) t (joinField? r f g) := by
  rcases f with _ | ⟨name, value⟩ <;> rcases g with _ | ⟨name', value'⟩ <;> rfl

theorem join_object_null (s : ObjectShape) (f : Option (String × Element)) :
    join r (object s f) null = orNull s f := by
  rcases f with _ | ⟨name, value⟩ <;> rfl

theorem join_object_constant (s : ObjectShape) (f : Option (String × Element))
    (c : ReferenceConstant) : join r (object s f) (constant c) = (do
      let g ← fieldOf? c
      joinReferences r s f (constant c) c.shape (joinField? r f g)) := by
  rcases f with _ | ⟨name, value⟩
  · show (reference? (constant c) >>= _) = _
    rw [reference?, bind_assoc]
    exact bind_congr fun _ => rfl
  · show (reference? (constant c) >>= _) = _
    rw [reference?, bind_assoc]
    refine bind_congr fun g => ?_
    rcases g with _ | ⟨name', value'⟩ <;> rfl

/-- The special field of a meet; `none` if the two fields have no common value. -/
def meetField? (r : Registry) (f g : Option (String × Element)) :
    Except Fault (Option (Option (String × Element))) :=
  match f, g with
  | none, g => pure (some g)
  | f, none => pure (some f)
  | some (name, value), some (name', value') =>
    if name = name' then (meet r value value').map (tracked? name) else pure none

theorem meet_object_object (s t : ObjectShape) (f g : Option (String × Element)) :
    meet r (object s f) (object t g) = meetReferences r s f t g (meetField? r f g) := by
  rcases f with _ | ⟨name, value⟩ <;> rcases g with _ | ⟨name', value'⟩ <;> rfl

theorem meet_object_null (s : ObjectShape) (f : Option (String × Element)) :
    meet r (object s f) null = .ok (if s.nullability.mayBeNull then null else bottom) := by
  rcases f with _ | ⟨name, value⟩ <;> rfl

theorem meet_object_constant (s : ObjectShape) (f : Option (String × Element))
    (c : ReferenceConstant) : meet r (object s f) (constant c) = (do
      if ← covers r (object s f) (constant c) then pure (constant c) else pure bottom) := by
  rcases f with _ | ⟨name, value⟩ <;> rfl

/-! ## What the operations return -/

theorem regular_joinIntegral {s : IntegralSet} {b : Element} (hs : s.Valid)
    (hb : b.Regular id v) : (joinIntegral s b).Regular id v := by
  cases b with
  | bottom => exact hs
  | integral t =>
    rw [joinIntegral_integral]
    split
    · next hwidth => exact regular_elim fun u hu => IntegralSet.valid_join? hs hb hwidth hu
    · trivial
  | _ => trivial

theorem regular_orNull {shape : ObjectShape} {field : Option (String × Element)} {e : Element}
    (h : (object shape field).Regular id v) (he : orNull shape field = .ok e) :
    e.Regular id v := by
  unfold orNull at he
  split at he
  · exact Except.ok.inj he ▸ h
  · exact regular_ofObject (regular_object_iff.1 h).1.2 (named_field h) he

/-- A join of references is an operand, or has the join of the constraints. -/
theorem regular_joinReferences (hs : (r.hierarchy id).Spelled v.type) {s t : ObjectShape}
    {f : Option (String × Element)} {b e : Element}
    {joined : Except Fault (Option (String × Element))} (ha : (object s f).Regular id v)
    (hb : b.Regular id v) (ht : t.constraint.Over id v.type)
    (hjoined : ∀ g, joined = .ok g → ∀ x ∈ g, v.field x.1 ∧ x.2.Regular id v)
    (h : joinReferences r s f b t joined = .ok e) : e.Regular id v := by
  obtain ⟨absorbed, _, h⟩ := bind_eq_ok h
  split at h
  · exact Except.ok.inj h ▸ ha
  · obtain ⟨absorbed', _, h⟩ := bind_eq_ok h
    split at h
    · exact Except.ok.inj h ▸ hb
    · obtain ⟨g, hg, h⟩ := bind_eq_ok h
      have hconstraint := (regular_object_iff.1 ha).1.2
      exact regular_ofShape (Constraint.over_join hs hconstraint ht) (hjoined g hg) h

/-- The special field of a join holds a join of two values. -/
theorem mem_joinField? {f g h : Option (String × Element)} (hjoin : joinField? r f g = .ok h)
    {z : String × Element} (hz : z ∈ h) :
    ∃ x ∈ f, ∃ y ∈ g, z.1 = x.1 ∧ join r x.2 y.2 = .ok z.2 := by
  unfold joinField? at hjoin
  split at hjoin
  · next name value name' value' =>
    split at hjoin
    · cases hvalue : join r value value' with
      | error fault =>
        rw [hvalue] at hjoin
        exact nomatch hjoin
      | ok e =>
        rw [hvalue] at hjoin
        obtain rfl := Except.ok.inj hjoin
        obtain rfl := Option.some.inj hz
        exact ⟨_, rfl, _, rfl, rfl, hvalue⟩
    · rw [← Except.ok.inj hjoin] at hz
      exact nomatch hz
  · rw [← Except.ok.inj hjoin] at hz
    exact nomatch hz

/-- The join of a length with the special field of another reference. -/
theorem regular_joinLength? {c : ReferenceConstant} {own field : Option (String × Element)}
    (hown : fieldOf? c = .ok own) (hfield : ∀ y ∈ field, y.2.Regular id v) :
    ∀ z ∈ joinLength? r own field, v.field z.1 ∧ z.2.Regular id v := by
  intro z hz
  unfold joinLength? at hz
  split at hz
  · next name value name' value' =>
    obtain ⟨n, hn, heq⟩ := mem_fieldOf? hown rfl
    obtain ⟨rfl, rfl⟩ := Prod.mk.inj heq
    split at hz
    · obtain rfl := Option.some.inj hz
      exact ⟨v.lengthField_allowed,
        regular_joinIntegral (IntegralSet.valid_point hn) (hfield _ rfl)⟩
    · exact nomatch hz
  · exact nomatch hz

theorem regular_join (hs : (r.hierarchy id).Spelled v.type) {a b e : Element}
    (ha : a.Regular id v) (hb : b.Regular id v) (h : join r a b = .ok e) : e.Regular id v := by
  induction a using inductionOnFields generalizing b e with
  | top => exact Except.ok.inj h ▸ trivial
  | bottom => exact Except.ok.inj h ▸ hb
  | boolean s =>
    obtain rfl := Except.ok.inj h
    cases b <;> trivial
  | integral s =>
    obtain rfl := Except.ok.inj h
    exact regular_joinIntegral ha hb
  | floating w s =>
    obtain rfl := Except.ok.inj h
    cases b with
    | bottom => exact ha
    | floating w' t =>
      rw [join_floating_floating]
      split
      · exact FloatingSet.valid_join ha hb
      · trivial
    | _ => trivial
  | null =>
    cases b with
    | object shape field => exact regular_orNull hb h
    | constant c =>
      obtain ⟨field, hfield, h⟩ := bind_eq_ok h
      exact regular_orNull (regular_object_fieldOf? hb hfield) h
    | _ => exact Except.ok.inj h ▸ trivial
  | object shape field ih =>
    -- The values of the field are nested in `a`, so their joins are regular by induction.
    have hjoined {shape' : ObjectShape} {field' : Option (String × Element)}
        (hb : (object shape' field').Regular id v) {g : Option (String × Element)}
        (hg : joinField? r field field' = .ok g) : ∀ z ∈ g, v.field z.1 ∧ z.2.Regular id v := by
      intro z hz
      obtain ⟨x, hx, y, hy, hname, hvalue⟩ := mem_joinField? hg hz
      have hfield := (regular_object_iff.1 ha).2 x hx
      exact ⟨hname ▸ hfield.1, ih x hx hfield.2.2 (regular_value hb hy) hvalue⟩
    cases b with
    | bottom => rcases field with _ | ⟨name, value⟩ <;> exact Except.ok.inj h ▸ ha
    | null =>
      rw [join_object_null] at h
      exact regular_orNull ha h
    | object shape' field' =>
      rw [join_object_object] at h
      exact regular_joinReferences hs ha hb (regular_object_iff.1 hb).1.2 (fun _ => hjoined hb) h
    | constant c =>
      rw [join_object_constant] at h
      obtain ⟨field', hfield, h⟩ := bind_eq_ok h
      have hview := regular_object_fieldOf? hb hfield
      exact regular_joinReferences hs ha hb hb.1 (fun _ => hjoined hview) h
    | _ => rcases field with _ | ⟨name, value⟩ <;> exact Except.ok.inj h ▸ trivial
  | constant c =>
    cases b with
    | bottom => exact Except.ok.inj h ▸ ha
    | null =>
      obtain ⟨field, hfield, h⟩ := bind_eq_ok h
      exact regular_orNull (regular_object_fieldOf? ha hfield) h
    | object shape field =>
      obtain ⟨absorbed, _, h⟩ := bind_eq_ok h
      split at h
      · exact Except.ok.inj h ▸ hb
      · obtain ⟨own, hown, h⟩ := bind_eq_ok h
        have hfields := regular_joinLength? (r := r) hown fun y hy => regular_value hb hy
        exact regular_ofShape (Constraint.over_join hs ha.1 (regular_object_iff.1 hb).1.2) hfields h
    | constant d =>
      rw [join] at h
      split at h
      · exact Except.ok.inj h ▸ ha
      · split at h
        · exact Except.ok.inj h ▸ hb
        · obtain ⟨own, hown, h⟩ := bind_eq_ok h
          obtain ⟨field, hfield, h⟩ := bind_eq_ok h
          have hview := regular_object_fieldOf? hb hfield
          have hfields := regular_joinLength? (r := r) hown fun y hy => regular_value hview hy
          exact regular_ofShape (Constraint.over_join hs ha.1 hb.1) hfields h
    | _ => exact Except.ok.inj h ▸ trivial

/-- The special field of a meet is one of the two, or holds a meet of two values. -/
theorem mem_meetField? {f g : Option (String × Element)} {h : Option (String × Element)}
    (hmeet : meetField? r f g = .ok (some h)) {z : String × Element} (hz : z ∈ h) :
    z ∈ f ∨ z ∈ g ∨ ∃ x ∈ f, ∃ y ∈ g, z.1 = x.1 ∧ meet r x.2 y.2 = .ok z.2 := by
  unfold meetField? at hmeet
  split at hmeet
  · obtain rfl := Option.some.inj (Except.ok.inj hmeet)
    exact .inr (.inl hz)
  · obtain rfl := Option.some.inj (Except.ok.inj hmeet)
    exact .inl hz
  · next name value name' value' =>
    split at hmeet
    · cases hvalue : meet r value value' with
      | error fault =>
        rw [hvalue] at hmeet
        exact nomatch hmeet
      | ok e =>
        rw [hvalue] at hmeet
        have htracked : tracked? name e = some h := Except.ok.inj hmeet
        have heq : h = some (name, e) := by
          unfold tracked? at htracked
          split at htracked
          · exact nomatch htracked
          · exact (Option.some.inj htracked).symm
        rw [heq] at hz
        obtain rfl := Option.some.inj hz
        exact .inr (.inr ⟨_, rfl, _, rfl, rfl, hvalue⟩)
    · exact nomatch Except.ok.inj hmeet

theorem regular_meetReferences {s t : ObjectShape} {f g : Option (String × Element)} {e : Element}
    {met : Except Fault (Option (Option (String × Element)))} (ha : (object s f).Regular id v)
    (hb : (object t g).Regular id v)
    (hmet : ∀ h, met = .ok (some h) → ∀ z ∈ h, v.field z.1 ∧ z.2.Regular id v)
    (h : meetReferences r s f t g met = .ok e) : e.Regular id v := by
  have hnone : (meetNone s t).Regular id v := by
    unfold meetNone
    split <;> trivial
  obtain ⟨covered, _, h⟩ := bind_eq_ok h
  split at h
  · exact Except.ok.inj h ▸ hb
  · obtain ⟨covered', _, h⟩ := bind_eq_ok h
    split at h
    · exact Except.ok.inj h ▸ ha
    · split at h
      · exact Except.ok.inj h ▸ hnone
      · next common hcommon =>
        obtain ⟨field, hfield, h⟩ := bind_eq_ok h
        match field with
        | none => exact Except.ok.inj h ▸ hnone
        | some field =>
          obtain ⟨_, m, _, rfl⟩ := ObjectShape.meet?_eq_some_iff.1 hcommon
          have hconstraint := Constraint.over_meet (r := r) (regular_object_iff.1 ha).1.2
            (regular_object_iff.1 hb).1.2
          exact regular_ofShape hconstraint (hmet field hfield) h

theorem regular_meet {a b e : Element} (ha : a.Regular id v) (hb : b.Regular id v)
    (h : meet r a b = .ok e) : e.Regular id v := by
  induction a using inductionOnFields generalizing b e with
  | top => exact Except.ok.inj h ▸ hb
  | bottom => exact Except.ok.inj h ▸ trivial
  | boolean s =>
    obtain rfl := Except.ok.inj h
    cases b with
    | boolean t => exact regular_elim fun _ _ => trivial
    | _ => trivial
  | integral s =>
    obtain rfl := Except.ok.inj h
    cases b with
    | top => exact ha
    | integral t =>
      rw [meet_integral_integral]
      split
      · exact regular_elim fun u hu => IntegralSet.valid_meet? ha hu
      · trivial
    | _ => trivial
  | floating w s =>
    obtain rfl := Except.ok.inj h
    cases b with
    | top => exact ha
    | floating w' t =>
      rw [meet_floating_floating]
      split
      · exact regular_elim fun u hu => FloatingSet.valid_meet? ha hb hu
      · trivial
    | _ => trivial
  | null =>
    obtain rfl := Except.ok.inj h
    cases b with
    | object shape field =>
      rw [meet_null_object]
      split <;> trivial
    | _ => trivial
  | object shape field ih =>
    cases b with
    | top => rcases field with _ | ⟨name, value⟩ <;> exact Except.ok.inj h ▸ ha
    | null =>
      rw [meet_object_null] at h
      rw [← Except.ok.inj h]
      split <;> trivial
    | object shape' field' =>
      rw [meet_object_object] at h
      refine regular_meetReferences ha hb ?_ h
      intro g hg z hz
      rcases mem_meetField? hg hz with hz | hz | ⟨x, hx, y, hy, hname, hvalue⟩
      · have hfield := (regular_object_iff.1 ha).2 z hz
        exact ⟨hfield.1, hfield.2.2⟩
      · have hfield := (regular_object_iff.1 hb).2 z hz
        exact ⟨hfield.1, hfield.2.2⟩
      · have hfield := (regular_object_iff.1 ha).2 x hx
        exact ⟨hname ▸ hfield.1, ih x hx hfield.2.2 (regular_value hb hy) hvalue⟩
    | constant c =>
      rw [meet_object_constant] at h
      obtain ⟨covered, _, h⟩ := bind_eq_ok h
      split at h
      · exact Except.ok.inj h ▸ hb
      · exact Except.ok.inj h ▸ trivial
    | _ => rcases field with _ | ⟨name, value⟩ <;> exact Except.ok.inj h ▸ trivial
  | constant c =>
    cases b with
    | top => exact Except.ok.inj h ▸ ha
    | object shape field =>
      obtain ⟨covered, _, h⟩ := bind_eq_ok h
      split at h
      · exact Except.ok.inj h ▸ ha
      · exact Except.ok.inj h ▸ trivial
    | constant d =>
      obtain rfl := Except.ok.inj h
      rw [meet_constant_constant]
      split
      · exact hb
      · split
        · exact ha
        · trivial
    | _ => exact Except.ok.inj h ▸ trivial

theorem regular_widenTarget {strategy : Strategy} {s : IntegralSet} (hs : s.Valid) :
    (widenTarget strategy s).Regular id v := by
  unfold widenTarget
  split
  · exact regular_elim fun u hu => IntegralSet.valid_toWide? hs hu
  · exact IntegralSet.valid_all _

theorem regular_widen (hs : (r.hierarchy id).Spelled v.type) {strategy : Strategy}
    {old new e : Element} (hold : old.Regular id v) (hnew : new.Regular id v)
    (h : widen r strategy old new = .ok e) : e.Regular id v := by
  obtain ⟨joined, hjoined, h⟩ := bind_eq_ok h
  have hregular := regular_join hs hold hnew hjoined
  cases joined with
  | integral s =>
    obtain ⟨covered, _, h⟩ := bind_eq_ok h
    split at h
    · exact Except.ok.inj h ▸ hregular
    · exact Except.ok.inj h ▸ regular_widenTarget hregular
  | _ => exact Except.ok.inj h ▸ hregular

/-! ## Without faults

A string constant that is shorter than `2^31` units has a length that is an `int`, and no other check
is in the way of regular elements.
-/

theorem ofInt_of_toInt? {x : Double} {n : Int} (hx : x.toInt? = some n)
    (hn : n ∈ IntegralWidth.int.domain) : ofInt x = .ok (integral (.point .int n)) := by
  unfold ofInt
  simp only [hx, if_pos hn]

theorem natAbs_lt_of_mem {n : Int} (hn : n ∈ IntegralWidth.int.domain) :
    n.natAbs < Nat.pow 2 53 := by
  obtain ⟨hlow, hhigh⟩ := IntegerType.mem_domain.1 hn
  simp only [IntegralWidth.integerType, IntegerType.least, IntegerType.greatest] at hlow hhigh
  show n.natAbs < 9007199254740992
  omega

theorem ofShape_eq {s : ObjectShape} (hs : s.Valid) (f : Option (String × Element)) :
    ofShape s f = .ok (object s (f.bind fun x => bind? x.1 x.2)) := by
  have hn : s.nullability.general.object? = some s.nullability := by
    cases s.nullability <;> rfl
  unfold ofShape ofObject
  simp only [hn]
  exact if_neg fun h => h.2 (hs h.1)

/-- Nothing is dropped from a special field that is not bound to `top`. -/
theorem bind_bind?_eq {f : Option (String × Element)} (hf : ∀ x ∈ f, x.2 ≠ top) :
    (f.bind fun x => bind? x.1 x.2) = f := by
  cases f with
  | none => rfl
  | some x => exact mem_bind?_iff.2 ⟨hf x rfl, rfl⟩

theorem orNull_eq {s : ObjectShape} {f : Option (String × Element)}
    (h : (object s f).Regular id v) : orNull s f = .ok (object s.orNull f) := by
  obtain ⟨_, hfield⟩ := regular_object_iff.1 h
  unfold orNull ObjectShape.orNull
  split
  · rfl
  · rw [ofShape_eq fun hlocal => Bool.noConfusion hlocal,
      bind_bind?_eq fun x hx => (hfield x hx).2.1]

/-- Where the order of the values is decided, so is the order of two references. -/
theorem ite_fieldCovers_eq {s t : ObjectShape} {f g : Option (String × Element)} {b : Element}
    (hvalues : ∀ x ∈ f, ∀ y ∈ g, covers r x.2 y.2 = .ok (Element.covers r x.2 y.2))
    (hcovers : Element.covers r (object s f) b = true ↔
      s.covers r t = true ∧ FieldCovers r f g) :
    (if s.covers r t then fieldCovers r f g else pure false) =
      .ok (Element.covers r (object s f) b) := by
  have hfields : ∃ covered, fieldCovers r f g = .ok covered ∧
      (covered = true ↔ FieldCovers r f g) := by
    rcases f with _ | ⟨name, value⟩
    · exact ⟨true, rfl, by simp [FieldCovers]⟩
    rcases g with _ | ⟨name', value'⟩
    · exact ⟨false, rfl, by simp [FieldCovers]⟩
    by_cases hname : name = name'
    · refine ⟨Element.covers r value value', ?_, by simp [FieldCovers, hname]⟩
      rw [fieldCovers, if_pos hname]
      exact hvalues _ rfl _ rfl
    · exact ⟨false, if_neg hname, by simp [FieldCovers, hname]⟩
  obtain ⟨covered, hcovered, hiff⟩ := hfields
  by_cases hshape : s.covers r t = true
  · rw [if_pos hshape, hcovered]
    refine congrArg Except.ok (Bool.eq_iff_iff.2 ?_)
    rw [hiff, hcovers]
    exact ⟨fun h => ⟨hshape, h⟩, And.right⟩
  · rw [if_neg hshape]
    refine congrArg Except.ok (Bool.eq_iff_iff.2 ?_)
    rw [hcovers]
    exact ⟨fun h => Bool.noConfusion h, fun h => absurd h.1 hshape⟩

/-- The join of two special fields, before it is checked whether anything is known of it. -/
theorem bind_joinLength? (f g : Option (String × Element)) :
    ((joinLength? r f g).bind fun x => bind? x.1 x.2) = Element.joinField? r f g := by
  rcases f with _ | ⟨name, value⟩
  · rfl
  rcases g with _ | ⟨name', value'⟩
  · rfl
  by_cases hname : name = name'
  · simp only [joinLength?, Element.joinField?, if_pos hname, Option.bind_some]
  · simp only [joinLength?, Element.joinField?, if_neg hname, Option.bind_none]

theorem joinField?_eq {f g : Option (String × Element)}
    (hvalues : ∀ x ∈ f, ∀ y ∈ g, join r x.2 y.2 = .ok (Element.join r x.2 y.2)) :
    joinField? r f g = .ok (joinLength? r f g) := by
  rcases f with _ | ⟨name, value⟩
  · rfl
  rcases g with _ | ⟨name', value'⟩
  · rfl
  by_cases hname : name = name'
  · simp only [joinField?, joinLength?, if_pos hname, hvalues _ rfl _ rfl]
    rfl
  · simp only [joinField?, joinLength?, if_neg hname]
    rfl

theorem ofShape_join_eq {s t : ObjectShape} (hs : s.Valid) (ht : t.Valid)
    (f g : Option (String × Element)) :
    ofShape (s.join r t) (joinLength? r f g) = .ok (joinObject r s f t g) := by
  rw [ofShape_eq (ObjectShape.valid_join hs ht), bind_joinLength?]
  rfl

theorem joinReferences_eq {s t : ObjectShape} {f g : Option (String × Element)} {b : Element}
    {absorbed absorbed' : Bool} (hs : s.Valid) (ht : t.Valid)
    (hvalues : ∀ x ∈ f, ∀ y ∈ g, join r x.2 y.2 = .ok (Element.join r x.2 y.2))
    (habsorbs : absorbs r s f t.nullability b = .ok absorbed)
    (habsorbed : absorbedBy r s f b = .ok absorbed') :
    joinReferences r s f b t (joinField? r f g) =
      .ok (if absorbed then object s f else if absorbed' then b else joinObject r s f t g) := by
  unfold joinReferences
  rw [habsorbs, habsorbed, joinField?_eq hvalues]
  cases absorbed with
  | true => rfl
  | false =>
    cases absorbed' with
    | true => rfl
    | false => exact ofShape_join_eq hs ht f g

/-- The meet of two special fields is what it is without the checks, up to a value that is not
known. -/
theorem meetField?_eq {f g : Option (String × Element)} (hf : ∀ x ∈ f, x.2 ≠ top)
    (hg : ∀ y ∈ g, y.2 ≠ top)
    (hvalues : ∀ x ∈ f, ∀ y ∈ g, meet r x.2 y.2 = .ok (Element.meet r x.2 y.2)) :
    ∃ met, meetField? r f g = .ok met ∧
      (met.map fun h => h.bind fun x => bind? x.1 x.2) = Element.meetField? r f g := by
  rcases f with _ | ⟨name, value⟩
  · exact ⟨some g, rfl, congrArg some (bind_bind?_eq hg)⟩
  rcases g with _ | ⟨name', value'⟩
  · exact ⟨some (some (name, value)), rfl, congrArg some (bind_bind?_eq hf)⟩
  by_cases hname : name = name'
  · refine ⟨tracked? name (Element.meet r value value'), ?_, ?_⟩
    · rw [meetField?, if_pos hname, hvalues _ rfl _ rfl]
      rfl
    · rw [Element.meetField?, if_pos hname]
      cases Element.meet r value value' <;> rfl
  · refine ⟨none, if_neg hname, ?_⟩
    rw [Element.meetField?, if_neg hname]
    rfl

theorem meetReferences_eq {s t : ObjectShape} {f g : Option (String × Element)}
    (hst : covers r (object s f) (object t g) =
      .ok (Element.covers r (object s f) (object t g)))
    (hts : covers r (object t g) (object s f) =
      .ok (Element.covers r (object t g) (object s f)))
    {met : Option (Option (String × Element))}
    (hmet : (met.map fun h => h.bind fun x => bind? x.1 x.2) = Element.meetField? r f g) :
    meetReferences r s f t g (.ok met) = .ok (Element.meet r (object s f) (object t g)) := by
  unfold meetReferences
  rw [hst, hts, Element.meet_object_object]
  cases Element.covers r (object s f) (object t g) with
  | true => rfl
  | false =>
    cases Element.covers r (object t g) (object s f) with
    | true => rfl
    | false =>
      unfold meetObject?
      rw [← hmet]
      cases hshape : s.meet? r t with
      | none => rfl
      | some common =>
        cases met with
        | none => rfl
        | some h => exact ofShape_eq (ObjectShape.valid_meet? hshape) h

section

variable (hshort : ∀ s, v.text s → Text.unitLength s < Nat.pow 2 31)

include hshort

/-- The length of a string of the vocabulary is accepted as an `int`. -/
theorem ofInt_length {s : String} (hs : v.text s) :
    ofInt (.ofInt (Text.unitLength s)) = .ok (integral (.point .int (Text.unitLength s))) := by
  have hlt : Text.unitLength s < 2147483648 := hshort s hs
  have hmem : (Text.unitLength s : Int) ∈ IntegralWidth.int.domain := by
    refine IntegerType.mem_domain.2 ?_
    simp only [IntegralWidth.integerType, IntegerType.least, IntegerType.greatest]
    omega
  exact ofInt_of_toInt? (Double.toInt?_ofInt (natAbs_lt_of_mem hmem)) hmem

theorem fieldOf?_eq {c : ReferenceConstant} (hc : (constant c).Regular id v) :
    fieldOf? c = .ok (Element.fieldOf? c) := by
  unfold fieldOf? Element.fieldOf?
  cases hpayload : c.payload with
  | string s =>
    simp only [ofInt_length hshort (hc.2 s hpayload)]
    rfl
  | _ => rfl

theorem asObject_eq {c : ReferenceConstant} (hc : (constant c).Regular id v) :
    asObject c = .ok (Element.asObject c) := by
  unfold asObject
  rw [fieldOf?_eq hshort hc]
  have hfield : ∀ x ∈ Element.fieldOf? c, x.2 ≠ top := by
    intro x hx
    obtain ⟨s, _, rfl⟩ := mem_fieldOf?_iff.1 hx
    exact Element.noConfusion
  show ofShape c.shape (Element.fieldOf? c) = _
  rw [ofShape_eq (fun h => Bool.noConfusion h), bind_bind?_eq hfield]
  rfl

theorem covers_eq {a b : Element} (hb : b.Regular id v) :
    covers r a b = .ok (Element.covers r a b) := by
  induction a using inductionOnFields generalizing b with
  | object s f ih =>
    cases b with
    | object t g =>
      rw [covers_object]
      exact ite_fieldCovers_eq (fun x hx y hy => ih x hx (regular_value hb hy))
        covers_object_object
    | constant c =>
      have hview : reference? (constant c) = .ok (some (c.shape, Element.fieldOf? c)) := by
        rw [reference?, fieldOf?_eq hshort hb]
        rfl
      rw [covers_object, hview]
      have hg := regular_object_fieldOf? hb (fieldOf?_eq hshort hb)
      exact ite_fieldCovers_eq (fun x hx y hy => ih x hx (regular_value hg hy))
        covers_object_constant
    | _ => rw [covers_object]; rfl
  | _ => rfl

theorem absorbs_eq {s : ObjectShape} {f : Option (String × Element)} {n : ObjectNullability}
    {b : Element} (hb : b.Regular id v) :
    absorbs r s f n b = .ok (Element.absorbs r s f n b) := by
  unfold absorbs
  rw [covers_eq hshort hb]
  rfl

theorem join_eq {a b : Element} (ha : a.Regular id v) (hb : b.Regular id v) :
    join r a b = .ok (Element.join r a b) := by
  have hfield {c : ReferenceConstant} (hc : (constant c).Regular id v) :
      (object c.shape (Element.fieldOf? c)).Regular id v :=
    regular_object_fieldOf? hc (fieldOf?_eq hshort hc)
  induction a using inductionOnFields generalizing b with
  | null =>
    cases b with
    | object s f => exact orNull_eq hb
    | constant c =>
      show (fieldOf? c >>= fun f => orNull c.shape f) = _
      rw [fieldOf?_eq hshort hb]
      exact orNull_eq (hfield hb)
    | _ => rfl
  | object s f ih =>
    have hs := (regular_object_iff.1 ha).1.1
    have hvalues {t : ObjectShape} {g : Option (String × Element)}
        (hg : (object t g).Regular id v) :
        ∀ x ∈ f, ∀ y ∈ g, join r x.2 y.2 = .ok (Element.join r x.2 y.2) := by
      intro x hx y hy
      exact ih x hx (regular_value ha hx) (regular_value hg hy)
    cases b with
    | null =>
      rw [join_object_null]
      exact orNull_eq ha
    | object t g =>
      rw [join_object_object, Element.join_object_object]
      exact joinReferences_eq hs (regular_object_iff.1 hb).1.1 (hvalues hb)
        (absorbs_eq hshort hb) (absorbs_eq hshort ha)
    | constant c =>
      rw [join_object_constant, Element.join_object_constant, fieldOf?_eq hshort hb]
      exact joinReferences_eq hs (regular_object_iff.1 (hfield hb)).1.1 (hvalues (hfield hb))
        (absorbs_eq hshort hb) (Eq.refl (Except.ok false))
    | _ => rcases f with _ | ⟨name, value⟩ <;> rfl
  | constant c =>
    have hc := (regular_object_iff.1 (hfield ha)).1.1
    cases b with
    | null =>
      show (fieldOf? c >>= fun f => orNull c.shape f) = _
      rw [fieldOf?_eq hshort ha]
      exact orNull_eq (hfield ha)
    | object s f =>
      rw [join, Element.join_constant_object, absorbs_eq hshort ha, fieldOf?_eq hshort ha]
      cases Element.absorbs r s f c.shape.nullability (constant c) with
      | true => rfl
      | false => exact ofShape_join_eq hc (regular_object_iff.1 hb).1.1 _ f
    | constant d =>
      rw [join, Element.join_constant_constant, fieldOf?_eq hshort ha, fieldOf?_eq hshort hb]
      split
      · rfl
      split
      · rfl
      exact ofShape_join_eq hc (regular_object_iff.1 (hfield hb)).1.1 _ _
    | _ => rfl
  | _ => rfl

theorem meet_eq {a b : Element} (ha : a.Regular id v) (hb : b.Regular id v) :
    meet r a b = .ok (Element.meet r a b) := by
  induction a using inductionOnFields generalizing b with
  | object s f ih =>
    cases b with
    | object t g =>
      have hf := (regular_object_iff.1 ha).2
      have hg := (regular_object_iff.1 hb).2
      obtain ⟨met, hmet, hfield⟩ := meetField?_eq (r := r) (fun x hx => (hf x hx).2.1)
        (fun y hy => (hg y hy).2.1)
        (fun x hx y hy => ih x hx (regular_value ha hx) (regular_value hb hy))
      rw [meet_object_object, hmet]
      exact meetReferences_eq (covers_eq hshort hb) (covers_eq hshort ha) hfield
    | constant c =>
      rw [meet_object_constant, Element.meet_object_constant, covers_eq hshort hb]
      cases Element.covers r (object s f) (constant c) <;> rfl
    | _ => rcases f with _ | ⟨name, value⟩ <;> rfl
  | constant c =>
    cases b with
    | object s f =>
      rw [meet, Element.meet_constant_object, covers_eq hshort ha]
      cases Element.covers r (object s f) (constant c) <;> rfl
    | _ => rfl
  | _ => rfl

theorem widen_eq {strategy : Strategy} {old new : Element} (hold : old.Regular id v)
    (hnew : new.Regular id v) (hs : (r.hierarchy id).Spelled v.type) :
    widen r strategy old new = .ok (Element.widen r strategy old new) := by
  have hjoin := join_eq hshort (r := r) hold hnew
  have hregular := regular_join hs hold hnew hjoin
  unfold widen Element.widen
  rw [hjoin]
  generalize Element.join r old new = joined at hregular ⊢
  cases joined with
  | integral s =>
    show (covers r old (integral s) >>= _) = _
    rw [covers_eq hshort hregular]
    cases h : Element.covers r old (integral s) <;> simp only [h] <;> rfl
  | _ => rfl

end

end ValueLattice.Element.Checked
