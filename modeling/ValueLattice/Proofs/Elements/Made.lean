import ValueLattice.Proofs.Elements.Join
import ValueLattice.Element.Make

/-!
# What the functions that make elements return

Each of these functions returns an element of a few forms, once its checks are passed: the
invariants of elements are proved for these forms.
-/

namespace ValueLattice.Element

theorem ofRange_eq_ok {w : IntegralWidth} {range : RangeSet} {e : Element}
    (h : ofRange w range = .ok e) :
    (∀ n ∈ range, n ∈ w.domain) ∧ e = ofRangeWithWide w range none := by
  unfold ofRange at h
  split at h
  · next hdomain =>
    exact ⟨fun n hn => RangeSet.subset_of_containsAll hdomain hn, (Except.ok.inj h).symm⟩
  · exact nomatch h

theorem ofInt_eq_ok {x : Double} {e : Element} (h : ofInt x = .ok e) :
    ∃ n ∈ IntegralWidth.int.domain, e = integral (.point .int n) := by
  unfold ofInt at h
  split at h
  · split at h
    · next n _ hn => exact ⟨n, hn, (Except.ok.inj h).symm⟩
    · exact nomatch h
  · exact nomatch h

theorem ofLong_eq_ok {n : Int} {e : Element} (h : ofLong n = .ok e) :
    n ∈ IntegralWidth.long.domain ∧ e = integral (.point .long n) := by
  unfold ofLong checkLong at h
  split at h
  · next hn => exact ⟨hn, (Except.ok.inj h).symm⟩
  · exact nomatch h

/-- A primitive value of the host is a truth value, an integer or a floating-point number. -/
theorem ofPrimitive_eq_ok {h : HostValue} {e : Element} (he : ofPrimitive h = .ok e) :
    (∃ b, e = ofBool b) ∨ (∃ w, ∃ n ∈ w.domain, e = integral (.point w n)) ∨
      ∃ w x, e = ofDouble w x := by
  unfold ofPrimitive at he
  split at he
  · next l _ =>
    cases l with
    | boolean b => exact .inl ⟨b, (Except.ok.inj he).symm⟩
    | narrow type x => exact .inr (.inl ⟨.int, ofInt_eq_ok he⟩)
    | long n => exact .inr (.inl ⟨.long, n, ofLong_eq_ok he⟩)
    | floating w x => exact .inr (.inr ⟨w, x, (Except.ok.inj he).symm⟩)
  · exact nomatch he

theorem ofPayload_eq_ok {h : HostValue} {c : Constraint} {synthesized : Bool} {e : Element}
    (he : ofPayload h c synthesized = .ok e) :
    ∃ payload, Payload.ofHost? h = some payload ∧ e = constant ⟨payload, c, synthesized⟩ := by
  unfold ofPayload at he
  split at he
  · next payload hpayload => exact ⟨payload, hpayload, (Except.ok.inj he).symm⟩
  · exact nomatch he

theorem ofHostValue_eq_ok {h : HostValue} {reference : Except Fault Element} {e : Element}
    (he : ofHostValue h reference = .ok e) :
    e = null ∨ ofPrimitive h = .ok e ∨ reference = .ok e := by
  unfold ofHostValue at he
  split at he
  · exact .inl (Except.ok.inj he).symm
  · split at he
    · exact .inr (.inl he)
    · exact .inr (.inr he)

/-- An object has a valid shape, and a special field that is bound to `top` is dropped. -/
theorem ofObject_eq_ok {c : Constraint} {n : Nullability} {m : Mutability}
    {field : Option (String × Element)} {isLocal : Bool} {e : Element}
    (h : ofObject c n m field isLocal = .ok e) :
    ∃ shape : ObjectShape, shape.Valid ∧ shape.constraint = c ∧
      e = object shape (field.bind fun f => bind? f.1 f.2) := by
  unfold ofObject at h
  split at h
  · exact nomatch h
  · split at h
    · exact nomatch h
    · next n hn hlocal =>
      refine ⟨⟨c, n, m, isLocal⟩, ?_, rfl, (Except.ok.inj h).symm⟩
      intro hl
      exact Classical.not_not.1 fun hnull => hlocal ⟨hl, hnull⟩

/-- A type of the host has all values, no values, null, the values of a primitive type, or the
objects below a class or an interface. -/
theorem ofHostType_eq_ok {t : Option HostType} {n : Nullability} {source : ConstraintSource}
    {e : Element} (h : ofHostType t n source = .ok e) :
    e = top ∨ e = bottom ∨ e = null ∨ (∃ type, e = ofPrimitiveType type) ∨
      ∃ name, t = some (.reference name) ∧
        ofObject (source.instanceOf name) n .unknown none false = .ok e := by
  match t with
  | none => exact .inl (Except.ok.inj h).symm
  | some .void => exact .inr (.inl (Except.ok.inj h).symm)
  | some .null => exact .inr (.inr (.inl (Except.ok.inj h).symm))
  | some (.primitive type) => exact .inr (.inr (.inr (.inl ⟨type, (Except.ok.inj h).symm⟩)))
  | some (.reference name) =>
    simp only [ofHostType] at h
    split at h
    · split at h
      · exact .inr (.inl (Except.ok.inj h).symm)
      · exact .inr (.inr (.inl (Except.ok.inj h).symm))
    · exact .inr (.inr (.inr (.inr ⟨name, rfl, h⟩)))

end ValueLattice.Element
