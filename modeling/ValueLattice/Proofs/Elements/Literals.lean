import ValueLattice.Proofs.Elements.IntegralFactories
import ValueLattice.Proofs.HostValues

/-!
# Elements of literals

A literal that belongs to its type makes an element of one value, which the element of the type
covers.

* `exists_ofLiteral`: the element is made, has the value of the literal and is covered;
* `literal_laws`: reading accepts exactly the values of a type, and what it accepts makes such an
  element; a bare integer does so exactly if it has 64 bits;
* `reading_laws`: what is read is read again from the record that it is written as, unless it is an
  integer of more than 64 bits, and additional fields change nothing;
* `not_reading_again`: an integer of more than 64 bits is read, although it does not belong to its
  type.
-/

namespace ValueLattice

/-- The integers of a narrow type have 32 bits. -/
theorem NarrowType.mem_int_domain {t : NarrowType} {n : Int} (h : n ∈ t.integerType.domain) :
    n ∈ IntegralWidth.int.domain := by
  obtain ⟨hlow, hhigh⟩ := IntegerType.mem_domain.1 h
  have hleast : IntegerType.int.least ≤ t.integerType.least := by cases t <;> decide
  have hgreatest : t.integerType.greatest ≤ IntegerType.int.greatest := by cases t <;> decide
  exact IntegerType.mem_domain.2 ⟨hleast.trans hlow, hhigh.trans hgreatest⟩

theorem HostType.ofPrimitiveName_name (t : PrimitiveType) : ofPrimitiveName t.name = primitive t := by
  rw [ofPrimitiveName, PrimitiveType.ofName?_name]

namespace Element

variable {l : Literal}

/-! ## What a literal makes -/

/-- A single value is the value of a literal: the same truth value or integer, a number for the same
integer, or the number rounded to the width. -/
def HasValue : Literal → Single → Prop
  | .boolean b, .boolean c => c = b
  | .narrow _ x, .number y => y.toInt? = x.toInt?
  | .long n, .long m => m = n
  | .floating width x, .number y => y = width.round x
  | _, _ => False

theorem value?_point (w : IntegralWidth) (n : Int) :
    (integral (.point w n)).value? = some (integralValue w n) := by
  have hconstant : (RangeSet.point n).constant? = some n :=
    (RangeSet.canonical_point n).constant?_eq_some_iff.2 fun _ => RangeSet.mem_singleton_point
  exact congrArg (Option.map (integralValue w)) hconstant

/-- A canonical range covers its members. -/
theorem integral_covers_point (r : Registry) {w : IntegralWidth} {range : RangeSet} {n : Int}
    (hrange : range.Canonical) (hn : n ∈ range) :
    covers r (integral ⟨w, range, none⟩) (integral (.point w n)) = true := by
  have hsubset : range.containsAll (.point n) = true :=
    (RangeSet.containsAll_iff hrange).2 fun m hm => RangeSet.mem_singleton_point.1 hm ▸ hn
  show IntegralSet.covers ⟨w, range, none⟩ (.point w n) = true
  rw [IntegralSet.covers, Bool.and_eq_true]
  exact ⟨beq_self_eq_true w, hsubset⟩

/-- The values of a narrow type are those of its domain, a range that is never refused. -/
theorem ofRange_narrow (t : NarrowType) :
    ofRange .int t.integerType.domain = .ok (ofPrimitiveType (.narrow t)) ∧
      ofPrimitiveType (.narrow t) = integral ⟨.int, t.integerType.domain, none⟩ := by
  have hdomain : ∀ n ∈ t.integerType.domain, n ∈ IntegralWidth.int.domain :=
    fun _ hn => NarrowType.mem_int_domain hn
  have hne : t.integerType.domain.intervals ≠ [] := by cases t <;> decide
  have hvalues : ofPrimitiveType (.narrow t) = ofRangeWithWide .int t.integerType.domain none := by
    rw [ofPrimitiveType, ofRangeClamped,
      RangeSet.intersect_eq_self (IntegerType.canonical_domain _) hdomain]
  exact ⟨hvalues ▸ ofRange_of_subset hdomain, hvalues.trans (ofRangeWithWide_of_ne_nil hne)⟩

/-- A literal that belongs to its type makes an element of its value, and the element of the type
covers it. -/
theorem exists_ofLiteral (hl : l.InDomain) :
    ∃ e, ofLiteral l = .ok e ∧ (∃ x, e.value? = some x ∧ HasValue l x) ∧
      ∀ r, (ofPrimitiveType l.type).covers r e = true := by
  cases l with
  | boolean b => exact ⟨ofBool b, rfl, ⟨_, rfl, rfl⟩, fun _ => rfl⟩
  | narrow t x =>
    obtain ⟨n, hx, hn⟩ := hl
    have hint := NarrowType.mem_int_domain hn
    have hvalue : (Double.ofInt n).toInt? = x.toInt? :=
      (Double.toInt?_ofInt (Checked.natAbs_lt_of_mem hint)).trans hx.symm
    refine ⟨_, Checked.ofInt_of_toInt? hx hint, ⟨_, value?_point .int n, hvalue⟩, fun r => ?_⟩
    rw [Literal.type, (ofRange_narrow t).2]
    exact integral_covers_point r (IntegerType.canonical_domain _) hn
  | long n =>
    obtain ⟨e, he⟩ := (ofLong_laws n).1.2 hl
    obtain ⟨hn, rfl⟩ := ofLong_eq_ok he
    exact ⟨_, he, ⟨_, value?_point .long n, rfl⟩,
      fun r => integral_covers_point r (IntegerType.canonical_domain _) hn⟩
  | floating width x =>
    refine ⟨ofDouble width x, rfl, ⟨_, rfl, rfl⟩, fun r => ?_⟩
    show (width == width && FloatingSet.covers .any (.only (width.round x))) = true
    rw [beq_self_eq_true, FloatingSet.any_covers]
    rfl

/-! ## What is read -/

/-- What is read as a literal makes the element of the literal. -/
theorem ofPrimitive_eq {v : HostValue} (h : Literal.ofHost? v = some l) :
    ofPrimitive v = ofLiteral l := by
  rw [ofPrimitive, h]

/-- What is read as a literal from a record makes an element of its value, and the element of the
type covers it. -/
theorem exists_ofPrimitive {v : HostValue} (h : Literal.ofTagged? v = some l) :
    ∃ e, ofPrimitive v = .ok e ∧ (∃ x, e.value? = some x ∧ HasValue l x) ∧
      ∀ r, (ofPrimitiveType l.type).covers r e = true := by
  rw [ofPrimitive_eq (Literal.ofHost?_of_ofTagged? h)]
  exact exists_ofLiteral (Literal.ofTagged?_eq_some_iff.1 h).1

/-- An integer makes an element exactly if it has 64 bits. -/
theorem ofPrimitive_integer_iff {n : Int} :
    (∃ e, ofPrimitive (.integer n) = .ok e) ↔ n ∈ IntegerType.long.domain :=
  (ofLong_laws n).1

/-- A record is read as a number of a narrow type exactly if the number stands for an integer of the
type, and as a `long` exactly if the integer has 64 bits. What is read from a record with the name
of a type makes an element that has the value of the literal, rounded to its width, and that the
element of the type covers, whatever nullability is asked for and whatever constraints there are.
A bare integer makes an element exactly if it has 64 bits. -/
theorem literal_laws (r : Registry) :
    (∀ (t : NarrowType) (x : Double),
      (Literal.ofHost? (.record [("type", .text t.integerType.name),
        ("value", .number x)])).isSome = true ↔
          ∃ n, x.toInt? = some n ∧ n ∈ t.integerType.domain) ∧
    (∀ n : Int,
      (Literal.ofHost? (.record [("type", .text IntegerType.long.name),
        ("value", .integer n)])).isSome = true ↔ n ∈ IntegerType.long.domain) ∧
    (∀ (v : HostValue) (l : Literal), Literal.ofTagged? v = some l →
      v.field "type" = .text l.type.name ∧ Literal.ofHost? v = some l ∧
        ∃ e, ofPrimitive v = .ok e ∧ (∃ x, e.value? = some x ∧ HasValue l x) ∧
          ∀ nullability source, ∃ values,
            ofHostType (some (.ofPrimitiveName l.type.name)) nullability source = .ok values ∧
              values.covers r e = true) ∧
    ∀ n : Int, (∃ e, ofPrimitive (.integer n) = .ok e) ↔ n ∈ IntegerType.long.domain := by
  refine ⟨fun t x => ?narrow, fun n => ?long, fun v l h => ?tagged,
    fun n => ofPrimitive_integer_iff⟩
  case narrow => exact Literal.isSome_ofHost?_toHost_iff (l := .narrow t x)
  case long => exact Literal.isSome_ofHost?_toHost_iff (l := .long n)
  case tagged =>
    obtain ⟨hl, hextends⟩ := Literal.ofTagged?_eq_some_iff.1 h
    obtain ⟨e, he, hvalue, hcovers⟩ := exists_ofPrimitive h
    refine ⟨(Literal.toHost_extends_iff.1 hextends).1, Literal.ofHost?_of_ofTagged? h, e, he,
      hvalue, fun nullability source => ⟨ofPrimitiveType l.type, ?_, hcovers r⟩⟩
    rw [HostType.ofPrimitiveName_name]
    rfl

/-- A tenth as near as 64 bits allow. -/
def tenth : Double :=
  .ofBits 0x3fb999999999999a

/-- A negative zero is an `int`, and a tenth is a `float`. -/
theorem literal_laws_tenth :
    let zero := Literal.narrow .int .negativeZero
    let l := Literal.floating .float tenth
    (Literal.ofHost? zero.toHost).isSome = true ∧ Literal.ofTagged? l.toHost = some l ∧
      ∃ e, ofPrimitive l.toHost = .ok e ∧ ∃ x, e.value? = some x ∧ HasValue l x := by
  intro zero l
  obtain ⟨hnarrow, -, htagged, -⟩ := literal_laws ⟨[]⟩
  have hinteger : Double.negativeZero.toInt? = some 0 := Double.toInt?_of_isZero rfl
  have hread : Literal.ofTagged? l.toHost = some l := rfl
  obtain ⟨-, -, e, he, hvalue, -⟩ := htagged _ _ hread
  exact ⟨(hnarrow .int .negativeZero).2 ⟨0, hinteger, by decide⟩, hread, e, he, hvalue⟩

/-! ## Reading again -/

/-- What is read as a literal is not read as anything else. -/
theorem ofHostValue_eq_ofPrimitive {v : HostValue} (h : Literal.ofHost? v = some l)
    (reference : Except Fault Element) : ofHostValue v reference = ofPrimitive v := by
  have hnull : v ≠ .null := by
    rintro rfl
    exact nomatch h
  rw [ofHostValue, h]
  · rfl
  · exact hnull

/-- What is read belongs to its type, if the integers among it have 64 bits. -/
theorem inDomain_iff_of_ofHost? {v : HostValue} (h : Literal.ofHost? v = some l) :
    l.InDomain ↔ ∀ n, v = .integer n → n ∈ IntegerType.long.domain := by
  rcases Literal.ofHost?_cases h with htagged | ⟨b, rfl, rfl⟩ | ⟨n, rfl, rfl⟩
  · have hl := (Literal.ofTagged?_eq_some_iff.1 htagged).1
    refine iff_of_true hl ?_
    rintro n rfl
    exact nomatch htagged
  · exact iff_of_true trivial fun n hn => nomatch hn
  · refine ⟨fun hl m hm => ?_, fun hn => hn n rfl⟩
    cases hm
    exact hl

/-- A literal makes an element exactly if it belongs to its type, whatever it was read from. -/
theorem ofPrimitive_iff_inDomain {v : HostValue} (h : Literal.ofHost? v = some l) :
    (∃ e, ofPrimitive v = .ok e) ↔ l.InDomain := by
  rcases Literal.ofHost?_cases h with htagged | ⟨b, rfl, rfl⟩ | ⟨n, rfl, rfl⟩
  · obtain ⟨e, he, _⟩ := exists_ofPrimitive htagged
    exact iff_of_true ⟨e, he⟩ (Literal.ofTagged?_eq_some_iff.1 htagged).1
  · exact iff_of_true ⟨_, rfl⟩ trivial
  · exact ofPrimitive_integer_iff

/-- A host value that is read as a literal makes a constant exactly if the literal belongs to its
type, and exactly then the literal is read again from the record that it is written as. This is so
unless the value is an integer of more than 64 bits. A payload is always read again, and additional
fields of the record that it is read from, or of its literal, change nothing. -/
theorem reading_laws (v : HostValue) :
    (∀ l, Literal.ofHost? v = some l →
      (l.InDomain ↔ ∀ n, v = .integer n → n ∈ IntegerType.long.domain) ∧
      (Literal.ofHost? l.toHost = some l ↔ l.InDomain) ∧
      ((∃ e, ofPrimitive v = .ok e) ↔ l.InDomain) ∧
      (∀ type source, ofConstant v type source = ofPrimitive v) ∧
      ∀ pattern, ofConstantLike v pattern = ofPrimitive v) ∧
    ∀ p, Payload.ofHost? v = some p →
      Payload.ofHost? p.toHost = some p ∧ ∀ w, v.Extends w → Payload.ofHost? w = some p := by
  refine ⟨fun l h => ⟨inDomain_iff_of_ofHost? h, Literal.ofHost?_toHost_eq_some_iff,
    ofPrimitive_iff_inDomain h, fun type source => ofHostValue_eq_ofPrimitive h _,
    fun pattern => ofHostValue_eq_ofPrimitive h _⟩, fun p h => ?_⟩
  obtain ⟨hvalid, hextends⟩ := Payload.ofHost?_eq_some_iff.1 h
  exact ⟨Payload.ofHost?_eq_some_iff.2 ⟨hvalid, .refl _⟩,
    fun w hw => Payload.ofHost?_eq_some_iff.2 ⟨hvalid, hextends.trans hw⟩⟩

/-- A boxed truth value is read from its record, also with more fields at both levels. -/
theorem reading_laws_boxed :
    let p := Payload.boxed (.boolean true)
    let literal := HostValue.record
      [("note", .null), ("type", .text "boolean"), ("value", .bool true)]
    let w := HostValue.record [("kind", .text "boxed"), ("literal", literal), ("note", .null)]
    (∃ e, ofPrimitive (.integer 7) = .ok e) ∧ Payload.ofHost? p.toHost = some p ∧
      p.toHost.Extends w ∧ Payload.ofHost? w = some p := by
  intro p literal w
  have hseven := ((reading_laws (.integer 7)).1 _ rfl).2.2.1.2
    (by decide : (7 : Int) ∈ IntegerType.long.domain)
  have hread : Payload.ofHost? p.toHost = some p := rfl
  have hliteral : (Literal.boolean true).toHost.Extends literal :=
    Literal.toHost_extends_iff.2 ⟨rfl, rfl⟩
  have hmore : p.toHost.Extends w := by
    refine (HostValue.extends_record_iff (by simp) (by simp [Literal.toHost]) (by simp)).2 ?_
    exact List.forall_mem_cons.2 ⟨.refl _, List.forall_mem_singleton.2 hliteral⟩
  exact ⟨hseven, hread, hmore, ((reading_laws _).2 _ hread).2 _ hmore⟩

/-- The least integer of more than 64 bits is read as a `long`, but it does not belong to the type,
is not read again and makes no constant. -/
theorem not_reading_again :
    let n : Int := 9223372036854775808
    let l := Literal.long n
    Literal.ofHost? (.integer n) = some l ∧ ¬ l.InDomain ∧ Literal.ofHost? l.toHost = none ∧
      ofPrimitive (.integer n) = .error (.outsideLong n) ∧
      ∀ type source, ofConstant (.integer n) type source = .error (.outsideLong n) := by
  intro n l
  have hn : n ∉ IntegerType.long.domain := by decide
  exact ⟨rfl, hn, by decide, rfl, fun _ _ => rfl⟩

end Element

end ValueLattice
