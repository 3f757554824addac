import ValueLattice.Proofs.Elements.ConstantKeys
import ValueLattice.Proofs.Elements.Literals

/-!
# Boxed and unboxed literals

A literal makes an element of its value, and boxed it makes a reference constant. The element holds
the number rounded to its width, while the key of the boxed literal shows the number as it was
handed in.

* `same_iff_sameValue`: the elements of two literals are the same exactly if the rounded literals
  have one value;
* `boxing_laws`: so they are the same if the boxed literals have one key, and only then unless two
  numbers are rounded to one;
* `not_boxing_laws`: a tenth and the nearest `float` to it are one element in two boxes.
-/

namespace ValueLattice

namespace Literal

variable {l m : Literal}

/-- The literal with the number that its width holds. -/
def rounded : Literal → Literal
  | floating width x => floating width (width.round x)
  | l => l

theorem InDomain.rounded (h : l.InDomain) : l.rounded.InDomain := by
  cases l <;> exact h

theorem SameValue.rounded (h : l.SameValue m) : l.rounded.SameValue m.rounded := by
  cases l with
  | floating width x =>
    cases m with
    | floating width' y =>
      obtain ⟨rfl, rfl⟩ := h
      exact ⟨rfl, rfl⟩
    | _ => exact h
  | _ => cases m <;> exact h

/-- Rounding keeps the values of two literals apart unless it takes two numbers to one. -/
theorem sameValue_of_rounded_iff (htype : l.type = m.type) :
    (l.rounded.SameValue m.rounded → l.SameValue m) ↔
      ∀ width x y, l = floating width x → m = floating width y →
        width.round x = width.round y → x = y := by
  cases l with
  | floating width x =>
    cases m with
    | floating width' y =>
      obtain rfl : width = width' := PrimitiveType.floating.inj htype
      constructor
      · rintro h _ _ _ ⟨⟩ ⟨⟩ hround
        exact (h ⟨rfl, hround⟩).2
      · rintro h ⟨-, hround⟩
        exact ⟨rfl, h _ _ _ rfl rfl hround⟩
    | _ => exact nomatch htype
  | _ => exact iff_of_true (fun h => by cases m <;> exact h) fun _ _ _ h => nomatch h

/-- Boxed literals have one key exactly if they have one value. -/
theorem boxed_key_eq_iff (hl : l.InDomain) (hm : m.InDomain) :
    (Payload.boxed l).key = (Payload.boxed m).key ↔ l.SameValue m := by
  constructor
  · exact Payload.sameObject_of_key_eq (p := .boxed l) (q := .boxed m) hl hm trivial trivial
  · exact Payload.key_eq_of_sameObject (p := .boxed l) (q := .boxed m) hl hm

end Literal

namespace Element

variable {l m : Literal} {a b : Element}

theorem same_point_iff {w : IntegralWidth} {n k : Int} :
    (integral (.point w n)).same (integral (.point w k)) = true ↔ n = k := by
  constructor
  · intro h
    have hrange : RangeSet.point n = RangeSet.point k := (IntegralSet.key_inj (eq_of_beq h)).2
    have hn : n ∈ RangeSet.point k := hrange ▸ RangeSet.mem_singleton_point.2 rfl
    exact RangeSet.mem_singleton_point.1 hn
  · rintro rfl
    exact beq_self_eq_true _

theorem same_ofDouble_iff {w : FloatingWidth} {x y : Double} :
    (ofDouble w x).same (ofDouble w y) = true ↔ w.round x = w.round y := by
  constructor
  · intro h
    have hkey : w.name ++ "|" ++ (w.round x).key = w.name ++ "|" ++ (w.round y).key := eq_of_beq h
    exact Double.key_inj ((String.append_right_inj _).1 hkey)
  · intro h
    rw [ofDouble, ofDouble, h]
    exact beq_self_eq_true _

theorem same_ofBool_iff {b c : Bool} : (ofBool b).same (ofBool c) = true ↔ b = c := by
  revert b c
  decide

/-- The elements of two literals of one type are the same exactly if the rounded literals have one
value. -/
theorem same_iff_sameValue (hl : l.InDomain) (hm : m.InDomain) (htype : l.type = m.type)
    (ha : ofLiteral l = .ok a) (hb : ofLiteral m = .ok b) :
    a.same b = true ↔ l.rounded.SameValue m.rounded := by
  cases l with
  | boolean x =>
    cases m with
    | boolean y =>
      cases ha
      cases hb
      exact same_ofBool_iff
    | _ => exact nomatch htype
  | narrow t x =>
    cases m with
    | narrow u y =>
      obtain ⟨n, hx, hn⟩ := hl
      obtain ⟨k, hy, hk⟩ := hm
      cases (Checked.ofInt_of_toInt? hx (NarrowType.mem_int_domain hn)).symm.trans ha
      cases (Checked.ofInt_of_toInt? hy (NarrowType.mem_int_domain hk)).symm.trans hb
      rw [same_point_iff]
      show n = k ↔ t = u ∧ x.toInt? = y.toInt?
      rw [hx, hy, Option.some_inj]
      exact (and_iff_right (PrimitiveType.narrow.inj htype)).symm
    | _ => exact nomatch htype
  | long n =>
    cases m with
    | long k =>
      obtain ⟨_, rfl⟩ := ofLong_eq_ok ha
      obtain ⟨_, rfl⟩ := ofLong_eq_ok hb
      exact same_point_iff
    | _ => exact nomatch htype
  | floating w x =>
    cases m with
    | floating u y =>
      obtain rfl : w = u := PrimitiveType.floating.inj htype
      cases ha
      cases hb
      rw [same_ofDouble_iff]
      exact (and_iff_right rfl).symm
    | _ => exact nomatch htype

/-- Two literals of one type that are read from records make elements, which are the same exactly if
the literals, rounded to their width, have one key when they are boxed. So boxed literals with one
key, which make the same constants, have the same element. The converse holds unless the literals are
two numbers that their width takes to one. -/
theorem boxing_laws {v w : HostValue} {l m : Literal} (hl : Literal.ofTagged? v = some l)
    (hm : Literal.ofTagged? w = some m) (htype : l.type = m.type) :
    ∃ a b, ofPrimitive v = .ok a ∧ ofPrimitive w = .ok b ∧
      (∀ constraint s t, (constant ⟨.boxed l, constraint, s⟩).same
        (constant ⟨.boxed m, constraint, t⟩) = true ↔
          (Payload.boxed l).key = (Payload.boxed m).key) ∧
      (a.same b = true ↔ (Payload.boxed l.rounded).key = (Payload.boxed m.rounded).key) ∧
      ((Payload.boxed l).key = (Payload.boxed m).key → a.same b = true) ∧
      ((a.same b = true → (Payload.boxed l).key = (Payload.boxed m).key) ↔
        ∀ width x y, l = .floating width x → m = .floating width y →
          width.round x = width.round y → x = y) := by
  have hdomain := (Literal.ofTagged?_eq_some_iff.1 hl).1
  have hdomain' := (Literal.ofTagged?_eq_some_iff.1 hm).1
  obtain ⟨a, ha, -⟩ := exists_ofLiteral hdomain
  obtain ⟨b, hb, -⟩ := exists_ofLiteral hdomain'
  have hsame := same_iff_sameValue hdomain hdomain' htype ha hb
  have hkey := Literal.boxed_key_eq_iff hdomain hdomain'
  have hrounded := Literal.boxed_key_eq_iff hdomain.rounded hdomain'.rounded
  refine ⟨a, b, (ofPrimitive_eq (Literal.ofHost?_of_ofTagged? hl)).trans ha,
    (ofPrimitive_eq (Literal.ofHost?_of_ofTagged? hm)).trans hb,
    fun constraint s t => same_constant_iff, hsame.trans hrounded.symm,
    fun h => hsame.2 (hkey.1 h).rounded, ?_⟩
  rw [hsame, hkey]
  exact Literal.sameValue_of_rounded_iff htype

/-- The integer zeros of both signs are one element, and one constant if they are boxed. -/
theorem boxing_laws_zeros :
    let l := Literal.narrow .int .zero
    let m := Literal.narrow .int .negativeZero
    Literal.ofTagged? l.toHost = some l ∧ Literal.ofTagged? m.toHost = some m ∧ l.type = m.type ∧
      ∃ a b, ofPrimitive l.toHost = .ok a ∧ ofPrimitive m.toHost = .ok b ∧ a.same b = true := by
  intro l m
  have hread {x : Double} (hx : x.isZero = true) :
      Literal.ofTagged? (Literal.narrow .int x).toHost = some (.narrow .int x) :=
    Literal.ofTagged?_toHost ⟨0, Double.toInt?_of_isZero hx, by decide⟩
  have hl : Literal.ofTagged? l.toHost = some l := hread rfl
  have hm : Literal.ofTagged? m.toHost = some m := hread rfl
  obtain ⟨a, b, ha, hb, _, _, hsame, _⟩ := boxing_laws hl hm rfl
  exact ⟨hl, hm, rfl, a, b, ha, hb, hsame (by decide)⟩

/-- A tenth as near as 32 bits allow. -/
def roundTenth : Double :=
  .ofBits 0x3fb99999a0000000

/-- A tenth and the nearest `float` to it are one element, but their boxes have two keys and make two
constants. -/
theorem not_boxing_laws :
    let l := Literal.floating .float tenth
    let m := Literal.floating .float roundTenth
    Literal.ofTagged? l.toHost = some l ∧ Literal.ofTagged? m.toHost = some m ∧
      l.type = m.type ∧
      (∃ a b, ofPrimitive l.toHost = .ok a ∧ ofPrimitive m.toHost = .ok b ∧ a.same b = true) ∧
      (Payload.boxed l).key ≠ (Payload.boxed m).key ∧
      ¬ (constant ⟨.boxed l, .top, false⟩).same (constant ⟨.boxed m, .top, false⟩) = true := by
  intro l m
  have hround : FloatingWidth.float.round tenth = FloatingWidth.float.round roundTenth := by
    decide +kernel
  have hne : tenth ≠ roundTenth := by decide +kernel
  have hkey : (Payload.boxed l).key ≠ (Payload.boxed m).key := fun h =>
    hne ((Literal.boxed_key_eq_iff (l := l) (m := m) trivial trivial).1 h).2
  exact ⟨rfl, rfl, rfl, ⟨_, _, rfl, rfl, same_ofDouble_iff.2 hround⟩, hkey,
    mt same_constant_iff.1 hkey⟩

end Element

end ValueLattice
