import ValueLattice.Element.Widen
import ValueLattice.Proofs.Elements.Made
import ValueLattice.Proofs.Elements.Meet

/-!
# The elements of an analysis

`Built` lists what elements are made of: the constants of the library, the functions that make
elements from ranges, numbers, constraints, host values and types, and the operations on elements.

* `ConstraintSource.Built`: sources whose constraints one hierarchy makes;
* `Built.normal`: every element that is made over one hierarchy is in normal form.
-/

namespace ValueLattice

/-- A source that makes constraints of one hierarchy from names that `p` allows. -/
structure ConstraintSource.Built (r : Registry) (id : HierarchyId) (p : String → Prop)
    (source : ConstraintSource) : Prop where
  instanceOf : ∀ name, p name → Constraint.Built r id p (source.instanceOf name)
  exact : ∀ name, p name → Constraint.Built r id p (source.exact name)

namespace ConstraintSource

theorem built_ofHierarchy (r : Registry) (id : HierarchyId) (p : String → Prop) :
    (ofHierarchy r id).Built r id p :=
  ⟨fun _ hname => .instanceOf hname, fun _ hname => .exactly hname⟩

end ConstraintSource

namespace Element

/-- The text of a host value that stands for a string is among those of the vocabulary. -/
def AllowsString (v : Vocabulary) (h : HostValue) : Prop :=
  ∀ s, Payload.ofHost? h = some (.string s) → v.text s

/-- The elements made over one hierarchy with a vocabulary. -/
inductive Built (r : Registry) (id : HierarchyId) (v : Vocabulary) : Element → Prop where
  | top : Built r id v top
  | bottom : Built r id v bottom
  | null : Built r id v null
  | boolean (s : BooleanSet) : Built r id v (boolean s)
  | all (w : IntegralWidth) : Built r id v (integral (.all w))
  | anyFloating (w : FloatingWidth) : Built r id v (floating w .any)
  | floatingZeros (w : FloatingWidth) : Built r id v (floating w .zeros)
  | ofRangeWithWide {w : IntegralWidth} {range : RangeSet} {wide : Option RangeSet} :
      range.Built → (∀ n ∈ range, n ∈ w.domain) → (∀ u ∈ wide, u.Built) →
      Built r id v (ofRangeWithWide w range wide)
  | ofRange {w : IntegralWidth} {range : RangeSet} {e : Element} :
      range.Built → ofRange w range = .ok e → Built r id v e
  | ofRangeClamped (w : IntegralWidth) {range : RangeSet} :
      range.Built → Built r id v (ofRangeClamped w range)
  | ofInt {x : Double} {e : Element} : ofInt x = .ok e → Built r id v e
  | ofLong {n : Int} {e : Element} : ofLong n = .ok e → Built r id v e
  | ofDouble (w : FloatingWidth) (x : Double) : Built r id v (ofDouble w x)
  | ofExcluded (w : FloatingWidth) (xs : List Double) : Built r id v (ofExcluded w xs)
  | ofObject {c : Constraint} {n : Nullability} {m : Mutability}
      {field : Option (String × Element)} {isLocal : Bool} {e : Element} :
      Constraint.Built r id v.type c → (∀ f ∈ field, v.field f.1) →
      (∀ f ∈ field, Built r id v f.2) → ofObject c n m field isLocal = .ok e → Built r id v e
  | ofPrimitive {h : HostValue} {e : Element} : ofPrimitive h = .ok e → Built r id v e
  | ofConstant {h : HostValue} {type : String} {source : ConstraintSource} {e : Element} :
      AllowsString v h → v.type type → source.Built r id v.type →
      ofConstant h type source = .ok e → Built r id v e
  | ofConstantLike {h : HostValue} {pattern e : Element} :
      AllowsString v h → Built r id v pattern → ofConstantLike h pattern = .ok e → Built r id v e
  | ofReferenceConstant {h : HostValue} {type : String} {source : ConstraintSource} {e : Element} :
      AllowsString v h → v.type type → source.Built r id v.type →
      ofReferenceConstant h type source = .ok e → Built r id v e
  | ofConcatenation {text type : String} {source : ConstraintSource} :
      v.text text → v.type type → source.Built r id v.type →
      Built r id v (ofConcatenation text type source)
  | defaultOf (t : HostType) : Built r id v (defaultOf t)
  | ofHostType {t : Option HostType} {n : Nullability} {source : ConstraintSource} {e : Element} :
      (∀ name, t = some (.reference name) → v.type name) → source.Built r id v.type →
      ofHostType t n source = .ok e → Built r id v e
  | join {a b : Element} : Built r id v a → Built r id v b → Built r id v (join r a b)
  | meet {a b : Element} : Built r id v a → Built r id v b → Built r id v (meet r a b)
  | negate {a : Element} : Built r id v a → Built r id v (negate a)
  | narrow {a e : Element} {range : RangeSet} : Built r id v a → range.Built →
      narrow range a = .ok e → Built r id v e
  | toWide {a : Element} : Built r id v a → Built r id v (toWide a)
  | asObject {c : ReferenceConstant} : Built r id v (constant c) → Built r id v (asObject c)
  | widen (strategy : Strategy) {old new : Element} : Built r id v old → Built r id v new →
      Built r id v (widen r strategy old new)

variable {r : Registry} {id : HierarchyId} {v : Vocabulary}

/-! ## What is made -/

theorem normal_ofRangeWithWide {w : IntegralWidth} {range : RangeSet} {wide : Option RangeSet}
    (hrange : range.Canonical) : (ofRangeWithWide w range wide).Normal r id v :=
  normal_elim fun _ hs => (IntegralSet.normal_normal? hrange hs).1

theorem normal_ofRange {w : IntegralWidth} {range : RangeSet} {e : Element}
    (hrange : range.Canonical) (h : ofRange w range = .ok e) : e.Normal r id v := by
  obtain ⟨_, rfl⟩ := ofRange_eq_ok h
  exact normal_ofRangeWithWide hrange

theorem normal_ofInt {x : Double} {e : Element} (h : ofInt x = .ok e) : e.Normal r id v := by
  obtain ⟨n, _, rfl⟩ := ofInt_eq_ok h
  exact IntegralSet.normal_point _ _

theorem normal_ofLong {n : Int} {e : Element} (h : ofLong n = .ok e) : e.Normal r id v := by
  obtain ⟨_, rfl⟩ := ofLong_eq_ok h
  exact IntegralSet.normal_point _ _

theorem normal_ofPrimitive {h : HostValue} {e : Element} (he : ofPrimitive h = .ok e) :
    e.Normal r id v := by
  rcases ofPrimitive_eq_ok he with ⟨b, rfl⟩ | ⟨w, n, _, rfl⟩ | ⟨w, x, rfl⟩
  · trivial
  · exact IntegralSet.normal_point _ _
  · trivial

theorem normal_ofPayload {h : HostValue} {c : Constraint} {synthesized : Bool} {e : Element}
    (hc : c.Normal r id v.type) (he : ofPayload h c synthesized = .ok e) : e.Normal r id v := by
  obtain ⟨_, _, rfl⟩ := ofPayload_eq_ok he
  exact hc

theorem normal_ofHostValue {h : HostValue} {reference : Except Fault Element} {e : Element}
    (hreference : reference = .ok e → e.Normal r id v) (he : ofHostValue h reference = .ok e) :
    e.Normal r id v := by
  rcases ofHostValue_eq_ok he with rfl | he | he
  · trivial
  · exact normal_ofPrimitive he
  · exact hreference he

theorem normal_ofObject {c : Constraint} {n : Nullability} {m : Mutability}
    {field : Option (String × Element)} {isLocal : Bool} {e : Element}
    (hc : c.Normal r id v.type) (hname : ∀ f ∈ field, v.field f.1)
    (hvalue : ∀ f ∈ field, f.2.Normal r id v) (h : ofObject c n m field isLocal = .ok e) :
    e.Normal r id v := by
  obtain ⟨shape, hvalid, rfl, rfl⟩ := ofObject_eq_ok h
  refine normal_object_iff.2 ⟨⟨hvalid, hc⟩, ?_⟩
  intro f hf
  obtain ⟨g, hg, hfg⟩ := Option.bind_eq_some_iff.1 hf
  obtain ⟨htop, rfl⟩ := mem_bind?_iff.1 hfg
  exact ⟨hname g hg, htop, hvalue g hg⟩

theorem normal_constraint? {e : Element} {c : Constraint} (he : e.Normal r id v)
    (hc : e.constraint? = some c) : c.Normal r id v.type := by
  cases e using inductionOnFields with
  | object shape field => exact Option.some.inj hc ▸ (normal_object_iff.1 he).1.constraint
  | constant d => exact Option.some.inj hc ▸ he
  | _ => exact nomatch hc

theorem normal_ofPrimitiveType (type : PrimitiveType) :
    (ofPrimitiveType type).Normal r id v := by
  cases type with
  | boolean => trivial
  | narrow type => exact normal_ofRangeWithWide (RangeSet.canonical_intersect _ _)
  | long => exact IntegralSet.normal_all _
  | floating w => trivial

theorem normal_ofHostType {t : Option HostType} {n : Nullability} {source : ConstraintSource}
    {e : Element} (hsource : ∀ name, t = some (.reference name) →
      (source.instanceOf name).Normal r id v.type)
    (h : ofHostType t n source = .ok e) : e.Normal r id v := by
  rcases ofHostType_eq_ok h with rfl | rfl | rfl | ⟨type, rfl⟩ | ⟨name, ht, h⟩
  · trivial
  · trivial
  · trivial
  · exact normal_ofPrimitiveType type
  · have hnone {P : String × Element → Prop} : ∀ f ∈ (none : Option (String × Element)), P f :=
      fun _ hf => nomatch hf
    exact normal_ofObject (hsource name ht) hnone hnone h

/-! ## Operations on one element -/

theorem normal_negate {a : Element} (ha : a.Normal r id v) : (negate a).Normal r id v := by
  cases a using inductionOnFields with
  | boolean s => exact normal_elim fun _ _ => trivial
  | integral s => exact normal_elim fun _ hu => IntegralSet.normal_negate? hu
  | floating w s => exact normal_elim fun _ hu => FloatingSet.valid_negate? hu
  | null =>
    exact normal_object_iff.2 ⟨⟨fun h => Bool.noConfusion h, trivial⟩, fun _ hf => nomatch hf⟩
  | object shape field =>
    rcases field with _ | ⟨name, value⟩
    · show (if shape = notNullShape then null else bottom : Element).Normal r id v
      split <;> trivial
    · trivial
  | _ => trivial

theorem normal_narrow {a e : Element} {range : RangeSet} (h : narrow range a = .ok e) :
    e.Normal r id v := by
  cases a with
  | bottom => exact Except.ok.inj h ▸ trivial
  | integral s =>
    obtain rfl := Except.ok.inj h
    exact normal_elim fun _ hu => IntegralSet.normal_narrow? hu
  | _ => exact nomatch h

theorem normal_toWide {a : Element} (ha : a.Normal r id v) : (toWide a).Normal r id v := by
  cases a with
  | integral s => exact normal_elim fun _ hu => IntegralSet.normal_toWide? ha hu
  | _ => exact ha

theorem normal_widen (hs : (r.hierarchy id).Spelled v.type) {strategy : Strategy}
    {old new : Element} (hold : old.Normal r id v) (hnew : new.Normal r id v) :
    (widen r strategy old new).Normal r id v := by
  have hjoin := normal_join hs hold hnew
  unfold widen
  split
  · next s hs =>
    rw [hs] at hjoin
    split
    · exact hjoin
    · unfold widenTarget
      split
      · exact normal_toWide hjoin
      · exact IntegralSet.normal_all _
  · exact hjoin

/-- Every element made over one hierarchy is in normal form. -/
theorem Built.normal (hs : (r.hierarchy id).Spelled v.type) {e : Element} (he : Built r id v e) :
    e.Normal r id v := by
  induction he with
  | top => trivial
  | bottom => trivial
  | null => trivial
  | boolean s => trivial
  | all w => exact IntegralSet.normal_all w
  | anyFloating w => trivial
  | floatingZeros w => trivial
  | ofRangeWithWide hrange _ _ => exact normal_ofRangeWithWide hrange.canonical
  | ofRange hrange h => exact normal_ofRange hrange.canonical h
  | ofRangeClamped w hrange => exact normal_ofRangeWithWide (RangeSet.canonical_intersect _ _)
  | ofInt h => exact normal_ofInt h
  | ofLong h => exact normal_ofLong h
  | ofDouble w x => trivial
  | ofExcluded w xs => exact FloatingSet.valid_excluding _
  | ofObject hc hname _ h hvalue => exact normal_ofObject (hc.normal hs) hname hvalue h
  | ofPrimitive h => exact normal_ofPrimitive h
  | ofConstant _ htype hsource h =>
    exact normal_ofHostValue (normal_ofPayload ((hsource.instanceOf _ htype).normal hs)) h
  | ofConstantLike _ _ h hpattern =>
    refine normal_ofHostValue ?_ h
    intro h
    split at h
    · next c hc => exact normal_ofPayload (normal_constraint? hpattern hc) h
    · exact nomatch h
  | ofReferenceConstant _ htype hsource h =>
    exact normal_ofPayload ((hsource.instanceOf _ htype).normal hs) h
  | ofConcatenation _ htype hsource => exact (hsource.exact _ htype).normal hs
  | defaultOf t =>
    match t with
    | .primitive .boolean => trivial
    | .primitive (.narrow _) => exact IntegralSet.normal_point _ _
    | .primitive .long => exact IntegralSet.normal_point _ _
    | .primitive (.floating _) => trivial
    | .void => trivial
    | .null => trivial
    | .reference _ => trivial
  | ofHostType htype hsource h =>
    exact normal_ofHostType
      (fun name hname => (hsource.instanceOf name (htype name hname)).normal hs) h
  | join _ _ ha hb => exact normal_join hs ha hb
  | meet _ _ ha hb => exact normal_meet ha hb
  | negate _ ha => exact normal_negate ha
  | narrow _ _ h _ => exact normal_narrow h
  | toWide _ ha => exact normal_toWide ha
  | asObject _ hc => exact normal_asObject hc
  | widen strategy _ _ hold hnew => exact normal_widen hs hold hnew

end Element

end ValueLattice
