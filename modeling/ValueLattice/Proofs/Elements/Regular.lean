import ValueLattice.Proofs.ConstraintKeys
import ValueLattice.Proofs.Elements.Built

/-!
# Elements over one hierarchy

Types may be declared between two steps of an analysis, so that constraints made before are no longer
in normal form. `Regular` is the invariant that stays, whatever is declared at any time.

* `Regular`: the invariant, at every depth of special fields; `Regular.valid` says that it includes
  `Valid`;
* `Made`: what the functions that make elements return, from elements that are known;
* `Made.regular`: it is regular if the elements that are known are;
* `regular_negate`, `regular_narrow`, `regular_toWide`: so are the results of the operations on one
  element.
-/

namespace ValueLattice

/-- A source that makes constraints over one hierarchy from names that `p` allows. -/
structure ConstraintSource.Over (id : HierarchyId) (p : String → Prop)
    (source : ConstraintSource) : Prop where
  instanceOf : ∀ name, p name → (source.instanceOf name).Over id p
  exact : ∀ name, p name → (source.exact name).Over id p

theorem ConstraintSource.over_ofHierarchy (r : Registry) (id : HierarchyId)
    (p : String → Prop) : (ofHierarchy r id).Over id p :=
  ⟨fun _ hname => Constraint.over_instanceOf hname, fun _ hname => Constraint.over_exactly hname⟩

namespace Element

variable {id : HierarchyId} {v : Vocabulary}

/-! ## The invariant -/

/-- The invariant of the elements over one hierarchy, whatever is declared there. -/
def Regular (id : HierarchyId) (v : Vocabulary) : Element → Prop
  | integral s => s.Valid
  | floating _ s => s.Valid
  | object shape none => shape.Valid ∧ shape.constraint.Over id v.type
  | object shape (some (name, value)) =>
    (shape.Valid ∧ shape.constraint.Over id v.type) ∧ v.field name ∧ value ≠ top ∧
      Regular id v value
  | constant c => c.constraint.Over id v.type ∧ ∀ s, c.payload = .string s → v.text s
  | _ => True

/-- The invariant of a special field. -/
def RegularField (id : HierarchyId) (v : Vocabulary) (f : String × Element) : Prop :=
  v.field f.1 ∧ f.2 ≠ top ∧ f.2.Regular id v

theorem regular_object_iff {shape : ObjectShape} {field : Option (String × Element)} :
    (object shape field).Regular id v ↔
      (shape.Valid ∧ shape.constraint.Over id v.type) ∧ ∀ f ∈ field, RegularField id v f := by
  rcases field with _ | ⟨name, value⟩
  · simp [Regular]
  · simp [Regular, RegularField]

theorem regular_value {shape : ObjectShape} {field : Option (String × Element)}
    (h : (object shape field).Regular id v) {f : String × Element} (hf : f ∈ field) :
    f.2.Regular id v :=
  ((regular_object_iff.1 h).2 f hf).2.2

/-- The special field of an element may be tracked again. -/
theorem named_field {shape : ObjectShape} {field : Option (String × Element)}
    (h : (object shape field).Regular id v) : ∀ f ∈ field, v.field f.1 ∧ f.2.Regular id v := by
  intro f hf
  obtain ⟨hname, _, hvalue⟩ := (regular_object_iff.1 h).2 f hf
  exact ⟨hname, hvalue⟩

theorem regular_elim {α : Type} {f : α → Element} {s : Option α}
    (h : ∀ t ∈ s, (f t).Regular id v) : (s.elim bottom f).Regular id v := by
  cases s with
  | none => trivial
  | some t => exact h t rfl

theorem Regular.valid {e : Element} (h : e.Regular id v) : e.Valid := by
  induction e with
  | integral s => exact h
  | floating w s => exact h
  | plain shape => exact h.1
  | tracked shape name value ih => exact ⟨h.1.1, h.2.2.1, ih h.2.2.2⟩
  | _ => trivial

/-! ## Making elements -/

/-- What the functions that make elements return over one hierarchy, from elements that are
known. -/
inductive Made (id : HierarchyId) (v : Vocabulary) (known : Element → Prop) : Element → Prop where
  | top : Made id v known top
  | bottom : Made id v known bottom
  | null : Made id v known null
  | boolean (s : BooleanSet) : Made id v known (boolean s)
  | all (w : IntegralWidth) : Made id v known (integral (.all w))
  | anyFloating (w : FloatingWidth) : Made id v known (floating w .any)
  | floatingZeros (w : FloatingWidth) : Made id v known (floating w .zeros)
  | ofRangeWithWide {w : IntegralWidth} {range : RangeSet} (wide : Option RangeSet) :
      range.Built → (∀ n ∈ range, n ∈ w.domain) →
      Made id v known (ofRangeWithWide w range wide)
  | ofRange {w : IntegralWidth} {range : RangeSet} {e : Element} :
      range.Built → ofRange w range = .ok e → Made id v known e
  | ofRangeClamped (w : IntegralWidth) (range : RangeSet) :
      Made id v known (ofRangeClamped w range)
  | ofInt {x : Double} {e : Element} : ofInt x = .ok e → Made id v known e
  | ofLong {n : Int} {e : Element} : ofLong n = .ok e → Made id v known e
  | ofDouble (w : FloatingWidth) (x : Double) : Made id v known (ofDouble w x)
  | ofExcluded (w : FloatingWidth) (xs : List Double) : Made id v known (ofExcluded w xs)
  | ofObject {c : Constraint} {n : Nullability} {m : Mutability}
      {field : Option (String × Element)} {isLocal : Bool} {e : Element} :
      c.Over id v.type → (∀ f ∈ field, v.field f.1 ∧ known f.2) →
      ofObject c n m field isLocal = .ok e → Made id v known e
  | ofPrimitive {h : HostValue} {e : Element} : ofPrimitive h = .ok e → Made id v known e
  | ofConstant {h : HostValue} {type : String} {source : ConstraintSource} {e : Element} :
      AllowsString v h → v.type type → source.Over id v.type →
      ofConstant h type source = .ok e → Made id v known e
  | ofConstantLike {h : HostValue} {pattern e : Element} :
      AllowsString v h → known pattern → ofConstantLike h pattern = .ok e → Made id v known e
  | ofReferenceConstant {h : HostValue} {type : String} {source : ConstraintSource} {e : Element} :
      AllowsString v h → v.type type → source.Over id v.type →
      ofReferenceConstant h type source = .ok e → Made id v known e
  | ofConcatenation {text type : String} {source : ConstraintSource} :
      v.text text → v.type type → source.Over id v.type →
      Made id v known (ofConcatenation text type source)
  | defaultOf (t : HostType) : Made id v known (defaultOf t)
  | ofHostType {t : Option HostType} {n : Nullability} {source : ConstraintSource} {e : Element} :
      (∀ name, t = some (.reference name) → v.type name) → source.Over id v.type →
      ofHostType t n source = .ok e → Made id v known e

/-! ## What is made is regular -/

theorem regular_ofRangeWithWide {w : IntegralWidth} {range : RangeSet} {wide : Option RangeSet}
    (hrange : range.Canonical) (hdomain : ∀ n ∈ range, n ∈ w.domain) :
    (ofRangeWithWide w range wide).Regular id v :=
  regular_elim fun _ hs => IntegralSet.valid_normal? hrange hdomain hs

theorem regular_ofRangeClamped (w : IntegralWidth) (range : RangeSet) :
    (ofRangeClamped w range).Regular id v :=
  regular_ofRangeWithWide (RangeSet.canonical_intersect _ _)
    fun _ hn => (RangeSet.mem_intersect.1 hn).2

theorem regular_ofPrimitive {h : HostValue} {e : Element} (he : ofPrimitive h = .ok e) :
    e.Regular id v := by
  rcases ofPrimitive_eq_ok he with ⟨b, rfl⟩ | ⟨w, n, hn, rfl⟩ | ⟨w, x, rfl⟩
  · trivial
  · exact IntegralSet.valid_point hn
  · trivial

theorem regular_ofPayload {h : HostValue} {c : Constraint} {synthesized : Bool} {e : Element}
    (hc : c.Over id v.type) (hh : AllowsString v h) (he : ofPayload h c synthesized = .ok e) :
    e.Regular id v := by
  obtain ⟨payload, hpayload, rfl⟩ := ofPayload_eq_ok he
  refine ⟨hc, ?_⟩
  rintro s rfl
  exact hh s hpayload

theorem regular_ofHostValue {h : HostValue} {reference : Except Fault Element} {e : Element}
    (hreference : reference = .ok e → e.Regular id v) (he : ofHostValue h reference = .ok e) :
    e.Regular id v := by
  rcases ofHostValue_eq_ok he with rfl | he | he
  · trivial
  · exact regular_ofPrimitive he
  · exact hreference he

/-- What `ofObject` accepts is regular: it checks the shape itself and never tracks `top`. -/
theorem regular_ofObject {c : Constraint} {n : Nullability} {m : Mutability}
    {field : Option (String × Element)} {isLocal : Bool} {e : Element}
    (hc : c.Over id v.type) (hfield : ∀ f ∈ field, v.field f.1 ∧ f.2.Regular id v)
    (h : ofObject c n m field isLocal = .ok e) : e.Regular id v := by
  obtain ⟨shape, hvalid, rfl, rfl⟩ := ofObject_eq_ok h
  refine regular_object_iff.2 ⟨⟨hvalid, hc⟩, ?_⟩
  intro f hf
  obtain ⟨g, hg, hfg⟩ := Option.bind_eq_some_iff.1 hf
  obtain ⟨htop, rfl⟩ := mem_bind?_iff.1 hfg
  exact ⟨(hfield g hg).1, htop, (hfield g hg).2⟩

theorem over_constraint? {e : Element} {c : Constraint} (he : e.Regular id v)
    (hc : e.constraint? = some c) : c.Over id v.type := by
  cases e using inductionOnFields with
  | object shape field => exact Option.some.inj hc ▸ (regular_object_iff.1 he).1.2
  | constant d => exact Option.some.inj hc ▸ he.1
  | _ => exact nomatch hc

theorem zero_mem_domain (w : IntegralWidth) : 0 ∈ w.domain := by
  cases w <;> exact IntegerType.mem_domain.2 (by decide)

theorem regular_defaultOf (t : HostType) : (defaultOf t).Regular id v := by
  match t with
  | .primitive .boolean => trivial
  | .primitive (.narrow _) => exact IntegralSet.valid_point (zero_mem_domain .int)
  | .primitive .long => exact IntegralSet.valid_point (zero_mem_domain .long)
  | .primitive (.floating _) => trivial
  | .void => trivial
  | .null => trivial
  | .reference _ => trivial

theorem regular_ofPrimitiveType (type : PrimitiveType) :
    (ofPrimitiveType type).Regular id v := by
  cases type with
  | boolean => trivial
  | narrow type => exact regular_ofRangeClamped _ _
  | long => exact IntegralSet.valid_all _
  | floating w => trivial

/-- What is made from regular elements is regular. -/
theorem Made.regular {known : Element → Prop} (hknown : ∀ e, known e → e.Regular id v)
    {e : Element} (he : Made id v known e) : e.Regular id v := by
  cases he with
  | top => trivial
  | bottom => trivial
  | null => trivial
  | boolean s => trivial
  | all w => exact IntegralSet.valid_all w
  | anyFloating w => trivial
  | floatingZeros w => trivial
  | ofRangeWithWide wide hrange hdomain => exact regular_ofRangeWithWide hrange.canonical hdomain
  | ofRange hrange h =>
    obtain ⟨hdomain, rfl⟩ := ofRange_eq_ok h
    exact regular_ofRangeWithWide hrange.canonical hdomain
  | ofRangeClamped w range => exact regular_ofRangeClamped w range
  | ofInt h =>
    obtain ⟨n, hn, rfl⟩ := ofInt_eq_ok h
    exact IntegralSet.valid_point hn
  | ofLong h =>
    obtain ⟨hn, rfl⟩ := ofLong_eq_ok h
    exact IntegralSet.valid_point hn
  | ofDouble w x => trivial
  | ofExcluded w xs => exact FloatingSet.valid_excluding _
  | ofObject hc hfield h =>
    exact regular_ofObject hc (fun f hf => (hfield f hf).imp_right (hknown f.2)) h
  | ofPrimitive h => exact regular_ofPrimitive h
  | ofConstant hh htype hsource h =>
    exact regular_ofHostValue (regular_ofPayload (hsource.instanceOf _ htype) hh) h
  | ofConstantLike hh hpattern h =>
    refine regular_ofHostValue ?_ h
    intro h
    split at h
    · next c hc => exact regular_ofPayload (over_constraint? (hknown _ hpattern) hc) hh h
    · exact nomatch h
  | ofReferenceConstant hh htype hsource h =>
    exact regular_ofPayload (hsource.instanceOf _ htype) hh h
  | ofConcatenation htext htype hsource =>
    refine ⟨hsource.exact _ htype, ?_⟩
    intro s hs
    exact Payload.string.inj hs ▸ htext
  | defaultOf t => exact regular_defaultOf t
  | ofHostType htype hsource h =>
    rcases ofHostType_eq_ok h with rfl | rfl | rfl | ⟨type, rfl⟩ | ⟨name, ht, h⟩
    · trivial
    · trivial
    · trivial
    · exact regular_ofPrimitiveType type
    · have hfield : ∀ f ∈ (none : Option (String × Element)), v.field f.1 ∧ f.2.Regular id v :=
        fun _ hf => nomatch hf
      exact regular_ofObject (hsource.instanceOf name (htype name ht)) hfield h

/-! ## Operations on one element -/

theorem regular_negate {a : Element} : (negate a).Regular id v := by
  cases a using inductionOnFields with
  | boolean s => exact regular_elim fun _ _ => trivial
  | integral s => exact regular_elim fun _ hu => IntegralSet.valid_negate? hu
  | floating w s => exact regular_elim fun _ hu => FloatingSet.valid_negate? hu
  | null =>
    exact regular_object_iff.2 ⟨⟨fun h => Bool.noConfusion h, trivial⟩, fun _ hf => nomatch hf⟩
  | object shape field =>
    rcases field with _ | ⟨name, value⟩
    · show (if shape = notNullShape then null else bottom : Element).Regular id v
      split <;> trivial
    · trivial
  | _ => trivial

theorem regular_narrow {a e : Element} {range : RangeSet} (ha : a.Regular id v)
    (h : narrow range a = .ok e) : e.Regular id v := by
  cases a with
  | bottom => exact Except.ok.inj h ▸ trivial
  | integral s =>
    obtain rfl := Except.ok.inj h
    exact regular_elim fun _ hu => IntegralSet.valid_narrow? ha hu
  | _ => exact nomatch h

theorem regular_toWide {a : Element} (ha : a.Regular id v) : (toWide a).Regular id v := by
  cases a with
  | integral s => exact regular_elim fun _ hu => IntegralSet.valid_toWide? ha hu
  | _ => exact ha

end Element

end ValueLattice
