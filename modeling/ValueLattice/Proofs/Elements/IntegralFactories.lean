import ValueLattice.Proofs.Elements.Checked
import ValueLattice.Proofs.Elements.Keys

/-!
# Elements made of integers

An element of a width is made of a range, which may reach beyond the domain of the width, or of a
single integer.

* `Holds`: an element has exactly the members of a range that belong to the domain of a width;
* `holds_ofRangeWithWide`: an element made of a canonical range inside the domain holds its members;
* `ofRange_eq_error_iff`: only a member outside the domain is refused;
* `integral_factories_exact`: so elements of ranges and of single integers are what they are made of,
  whether members outside the domain are refused or dropped.
-/

namespace ValueLattice.Element

variable {w : IntegralWidth} {range inside : RangeSet} {e : Element}

/-! ## Elements of ranges -/

/-- An element has exactly the members of a range that belong to the domain of a width, in the form
that elements of these members have. -/
structure Holds (w : IntegralWidth) (range : RangeSet) (e : Element) : Prop where
  /-- The element is `bottom` or a set of integers. -/
  form : e = bottom ∨ ∃ s, e = integral s
  /-- It is `bottom` exactly if there are no such members. -/
  eq_bottom_iff : e = bottom ↔ ∀ n ∈ range, n ∉ w.domain
  /-- It is the set of all integers of the width exactly if these are all members. -/
  same_all_iff : e.same (integral (.all w)) = true ↔ ∀ n ∈ w.domain, n ∈ range
  /-- An integer is its single value exactly if it is the only such member. -/
  value?_iff : ∀ v ∈ w.domain, e.value? = some (integralValue w v) ↔
    ∀ n, n ∈ range ∧ n ∈ w.domain ↔ n = v
  /-- A single value is an integer of the width. -/
  value?_mem : ∀ x, e.value? = some x → ∃ v ∈ w.domain, x = integralValue w v
  /-- A set of integers has the width and these members. -/
  mem_iff : ∀ s, e = integral s →
    s.width = w ∧ ∀ n, n ∈ s.range ↔ n ∈ range ∧ n ∈ w.domain

/-- Integers of a width have values of their own. -/
theorem integralValue_inj {m n : Int} (hm : m ∈ w.domain) (hn : n ∈ w.domain)
    (h : integralValue w m = integralValue w n) : m = n := by
  cases w with
  | int =>
    have hnumbers : Double.ofInt m = Double.ofInt n := Single.number.inj h
    have hint := congrArg Double.toInt? hnumbers
    rw [Double.toInt?_ofInt (Checked.natAbs_lt_of_mem hm),
      Double.toInt?_ofInt (Checked.natAbs_lt_of_mem hn)] at hint
    exact Option.some.inj hint
  | long => exact Single.long.inj h

theorem ofRangeWithWide_of_ne_nil (h : inside.intervals ≠ []) :
    ofRangeWithWide w inside none = integral ⟨w, inside, none⟩ := by
  rw [ofRangeWithWide, IntegralSet.normal?_eq_some w none h]
  rfl

theorem ofRangeWithWide_of_eq_nil (h : inside.intervals = []) :
    ofRangeWithWide w inside none = bottom := by
  rw [ofRangeWithWide, IntegralSet.normal?_eq_none_iff.2 (RangeSet.intervals_eq_nil_iff.1 h)]
  rfl

/-- No members make the empty element. -/
theorem holds_bottom (hempty : ∀ n, ¬(n ∈ range ∧ n ∈ w.domain)) : Holds w range bottom := by
  have hdomain : 0 ∈ w.domain := zero_mem_domain w
  have hkey : ¬bottom.same (integral (.all w)) = true := fun h =>
    Element.noConfusion (eq_bottom_of_key_eq (eq_of_beq h).symm)
  constructor
  · exact .inl rfl
  · exact iff_of_true rfl fun n hn hmem => hempty n ⟨hn, hmem⟩
  · exact iff_of_false hkey fun hall => hempty 0 ⟨hall 0 hdomain, hdomain⟩
  · exact fun v _ => iff_of_false (fun hv => nomatch hv) fun hall => hempty v ((hall v).2 rfl)
  · exact fun x hx => nomatch hx
  · exact fun s hs => nomatch hs

/-- Some members make a set of integers, whose canonical range determines them. -/
theorem holds_integral (hinside : inside.Canonical) (hne : inside.intervals ≠ [])
    (hmem : ∀ n, n ∈ inside ↔ n ∈ range ∧ n ∈ w.domain) :
    Holds w range (integral ⟨w, inside, none⟩) := by
  obtain ⟨m, hm⟩ := RangeSet.exists_mem hne
  have hvalue {x : Single} : (integral ⟨w, inside, none⟩).value? = some x ↔
      ∃ v, inside.constant? = some v ∧ integralValue w v = x := Option.map_eq_some_iff
  have hconstant {v : Int} : inside.constant? = some v ↔
      ∀ n, n ∈ range ∧ n ∈ w.domain ↔ n = v := by
    simp only [hinside.constant?_eq_some_iff, hmem]
  constructor
  · exact .inr ⟨_, rfl⟩
  · exact iff_of_false Element.noConfusion fun hnone =>
      hnone m ((hmem m).1 hm).1 ((hmem m).1 hm).2
  · constructor
    · intro hsame n hn
      have hrange : inside = w.domain := (IntegralSet.key_inj (eq_of_beq hsame)).2
      exact ((hmem n).1 (hrange ▸ hn)).1
    · intro hall
      have hrange : inside = w.domain :=
        hinside.ext (IntegerType.canonical_domain _) fun n => by
          rw [hmem]
          exact ⟨fun h => h.2, fun h => ⟨hall n h, h⟩⟩
      rw [hrange]
      exact beq_self_eq_true _
  · intro v hv
    rw [← hconstant, hvalue]
    constructor
    · rintro ⟨u, hu, huv⟩
      have hdomain := ((hconstant.1 hu u).2 rfl).2
      rw [← integralValue_inj hdomain hv huv]
      exact hu
    · exact fun h => ⟨v, h, rfl⟩
  · intro x hx
    obtain ⟨v, hv, hvx⟩ := hvalue.1 hx
    exact ⟨v, ((hconstant.1 hv v).2 rfl).2, hvx.symm⟩
  · rintro s hs
    cases hs
    exact ⟨rfl, hmem⟩

/-- An element of a canonical range holds the members of any range that it is cut out of. -/
theorem holds_ofRangeWithWide (hinside : inside.Canonical)
    (hmem : ∀ n, n ∈ inside ↔ n ∈ range ∧ n ∈ w.domain) :
    Holds w range (ofRangeWithWide w inside none) := by
  by_cases hne : inside.intervals = []
  · rw [ofRangeWithWide_of_eq_nil hne]
    exact holds_bottom fun n hn => RangeSet.intervals_eq_nil_iff.1 hne n ((hmem n).2 hn)
  · rw [ofRangeWithWide_of_ne_nil hne]
    exact holds_integral hinside hne hmem

/-! ## Refusing and dropping members -/

theorem containsAll_domain_iff (w : IntegralWidth) (range : RangeSet) :
    w.domain.containsAll range = true ↔ ∀ n ∈ range, n ∈ w.domain :=
  RangeSet.containsAll_iff (IntegerType.canonical_domain _)

/-- A range is refused exactly if it has a member outside the domain, and for that reason. -/
theorem ofRange_eq_error_iff {fault : Fault} :
    ofRange w range = .error fault ↔
      (∃ n ∈ range, n ∉ w.domain) ∧ fault = .outsideWidth range w := by
  unfold ofRange
  split
  · next hdomain =>
    rw [containsAll_domain_iff] at hdomain
    exact iff_of_false (fun h => nomatch h) fun h =>
      h.1.elim fun n hn => hn.2 (hdomain n hn.1)
  · next hdomain =>
    rw [containsAll_domain_iff] at hdomain
    simp only [not_forall, exists_prop] at hdomain
    rw [Except.error.injEq]
    exact ⟨fun h => ⟨hdomain, h.symm⟩, fun h => h.2.symm⟩

theorem ofRange_of_subset (hdomain : ∀ n ∈ range, n ∈ w.domain) :
    ofRange w range = .ok (ofRangeWithWide w range none) :=
  if_pos ((containsAll_domain_iff w range).2 hdomain)

/-- What is cut to the domain is never refused. -/
theorem Checked.ofRangeClamped_eq (w : IntegralWidth) (range : RangeSet) :
    Checked.ofRangeClamped w range = .ok (Element.ofRangeClamped w range) :=
  ofRange_of_subset fun _ hn => (RangeSet.mem_intersect.1 hn).2

/-- Cutting a range to the domain changes nothing if it lies inside. -/
theorem ofRangeClamped_eq_of_ofRange (hrange : range.Canonical) (h : ofRange w range = .ok e) :
    e = ofRangeClamped w range := by
  obtain ⟨hdomain, rfl⟩ := ofRange_eq_ok h
  rw [ofRangeClamped, RangeSet.intersect_eq_self hrange hdomain]

theorem holds_ofRange (hrange : range.Canonical) (h : ofRange w range = .ok e) :
    Holds w range e := by
  obtain ⟨hdomain, rfl⟩ := ofRange_eq_ok h
  exact holds_ofRangeWithWide hrange fun n => ⟨fun hn => ⟨hn, hdomain n hn⟩, fun hn => hn.1⟩

theorem holds_ofRangeClamped (w : IntegralWidth) (range : RangeSet) :
    Holds w range (ofRangeClamped w range) :=
  holds_ofRangeWithWide (RangeSet.canonical_intersect _ _) fun _ => RangeSet.mem_intersect

/-! ## Single integers -/

theorem ofRange_point {v : Int} (hv : v ∈ w.domain) :
    ofRange w (.point v) = .ok (integral (.point w v)) := by
  have hdomain : ∀ n ∈ RangeSet.point v, n ∈ w.domain := by
    intro n hn
    rw [RangeSet.mem_singleton_point.1 hn]
    exact hv
  have hne : (RangeSet.point v).intervals ≠ [] := List.cons_ne_nil _ _
  rw [ofRange_of_subset hdomain, ofRangeWithWide_of_ne_nil hne]
  rfl

/-- A number makes an `int` exactly if it stands for an integer of 32 bits, and then the one of the
range with this integer. -/
theorem ofInt_laws {x : Double} {v : Int} (hx : x.toInt? = some v) :
    ((∃ e, ofInt x = .ok e) ↔ v ∈ IntegralWidth.int.domain) ∧
      ∀ e, ofInt x = .ok e → ofRange .int (.point v) = .ok e := by
  have hmem {e : Element} (h : ofInt x = .ok e) : v ∈ IntegralWidth.int.domain := by
    unfold ofInt at h
    simp only [hx] at h
    split at h
    · next hv => exact hv
    · exact nomatch h
  refine ⟨⟨fun ⟨_, h⟩ => hmem h, fun hv => ⟨_, Checked.ofInt_of_toInt? hx hv⟩⟩, fun e h => ?_⟩
  rw [ofRange_point (hmem h), ← h, Checked.ofInt_of_toInt? hx (hmem h)]

/-- An integer makes a `long` exactly if it has 64 bits, and then the one of the range with this
integer. -/
theorem ofLong_laws (v : Int) :
    ((∃ e, ofLong v = .ok e) ↔ v ∈ IntegralWidth.long.domain) ∧
      ∀ e, ofLong v = .ok e → ofRange .long (.point v) = .ok e := by
  have hmade (hv : v ∈ IntegralWidth.long.domain) : ofLong v = .ok (integral (.point .long v)) := by
    rw [ofLong, checkLong, if_pos hv]
    rfl
  refine ⟨⟨fun ⟨_, h⟩ => (ofLong_eq_ok h).1, fun hv => ⟨_, hmade hv⟩⟩, fun e h => ?_⟩
  obtain ⟨hv, rfl⟩ := ofLong_eq_ok h
  exact ofRange_point hv

/-! ## Exact elements -/

/-- A range makes an element of a width unless it has a member outside the domain, and always makes
one of the members inside. Both elements have these members and no others, and they are equal where
both are made. A single integer makes an element exactly if it belongs to the domain, and then that
of the range with this integer; every integer of 32 bits can be handed in as a number. -/
theorem integral_factories_exact (w : IntegralWidth) {range : RangeSet} (hrange : range.Built) :
    ((∃ fault, ofRange w range = .error fault) ↔ ∃ n ∈ range, n ∉ w.domain) ∧
      (∃ e, Checked.ofRangeClamped w range = .ok e) ∧
      (∀ e, ofRange w range = .ok e → Holds w range e) ∧
      (∀ e, Checked.ofRangeClamped w range = .ok e → Holds w range e) ∧
      (∀ e, ofRange w range = .ok e → Checked.ofRangeClamped w range = .ok e) ∧
      (∀ x v, Double.toInt? x = some v →
        ((∃ e, ofInt x = .ok e) ↔ v ∈ IntegralWidth.int.domain) ∧
          ∀ e, ofInt x = .ok e → ofRange .int (.point v) = .ok e) ∧
      (∀ v ∈ IntegralWidth.int.domain, (Double.ofInt v).toInt? = some v) ∧
      ∀ v, ((∃ e, ofLong v = .ok e) ↔ v ∈ IntegralWidth.long.domain) ∧
        ∀ e, ofLong v = .ok e → ofRange .long (.point v) = .ok e := by
  have hclamped := Checked.ofRangeClamped_eq w range
  refine ⟨?refused, ⟨_, hclamped⟩, fun e h => holds_ofRange hrange.canonical h, ?clamped, ?equal,
    fun x v hx => ofInt_laws hx, ?numbers, ofLong_laws⟩
  case refused =>
    constructor
    · rintro ⟨fault, h⟩
      exact (ofRange_eq_error_iff.1 h).1
    · exact fun h => ⟨_, ofRange_eq_error_iff.2 ⟨h, rfl⟩⟩
  case clamped =>
    intro e h
    rw [hclamped] at h
    cases h
    exact holds_ofRangeClamped w range
  case equal =>
    intro e h
    rw [hclamped, ofRangeClamped_eq_of_ofRange hrange.canonical h]
  case numbers => exact fun v hv => Double.toInt?_ofInt (Checked.natAbs_lt_of_mem hv)

/-- Of the greatest integer of 32 bits and its successor, the first is left. -/
theorem integral_factories_exact_greatest :
    (RangeSet.range 2147483647 2147483648).Built ∧
      (∃ fault, ofRange .int (.range 2147483647 2147483648) = .error fault) ∧
      (∃ e, Checked.ofRangeClamped .int (.range 2147483647 2147483648) = .ok e ∧
        e.value? = some (integralValue .int 2147483647)) ∧
      ∃ e, ofInt (Double.ofInt 2147483647) = .ok e ∧
        ofRange .int (.point 2147483647) = .ok e := by
  have hbuilt : (RangeSet.range 2147483647 2147483648).Built := .range _ _
  have hgreatest : (2147483647 : Int) ∈ IntegralWidth.int.domain :=
    IntegerType.mem_domain.2 (by decide)
  have hnext : (2147483648 : Int) ∉ IntegralWidth.int.domain := fun h =>
    absurd (IntegerType.mem_domain.1 h).2 (by decide)
  obtain ⟨hrefused, ⟨e, he⟩, -, hclamped, -, hints, hnumbers, -⟩ :=
    integral_factories_exact .int hbuilt
  obtain ⟨⟨f, hf⟩, hpoint⟩ := (hints _ _ (hnumbers _ hgreatest)).imp (·.2 hgreatest) id
  refine ⟨hbuilt, hrefused.2 ⟨_, RangeSet.mem_range.2 (by decide), hnext⟩,
    ⟨e, he, ((hclamped e he).value?_iff _ hgreatest).2 fun n => ?_⟩, f, hf, hpoint f hf⟩
  constructor
  · rintro ⟨hrange, hdomain⟩
    have hlow := (RangeSet.mem_range.1 hrange).1
    have hhigh : n ≤ 2147483647 := (IntegerType.mem_domain.1 hdomain).2
    omega
  · rintro rfl
    exact ⟨RangeSet.mem_range.2 (by decide), hgreatest⟩

end ValueLattice.Element
