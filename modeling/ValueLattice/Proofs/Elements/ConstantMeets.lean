import ValueLattice.Proofs.ConstraintLaws
import ValueLattice.Proofs.Elements.Lattice
import ValueLattice.Proofs.Elements.Widening

/-!
# Meets of constants

Two objects meet in what both constraints allow for. A constant meets another reference to itself when
the reference contains it, and to `bottom` unless the reference is a constant that it contains. So a
value of both is lost where the reference allows for some of the classes of the constant only: it is
the constant with a smaller constraint.

* `Comparable`: when the constraint of a constant can be compared with what is known of the class of
  another reference;
* `object_covers_constant_iff`, `constant_covers_constant_iff`: beside a common value, only the
  constraints decide the order;
* `ratioOne`: one constant with several constraints;
* `meet_constant_exact`: a value of both belongs to their meet exactly if they are comparable;
* `not_meet_constant_greatest`: constants that are not, and have a value in common.
-/

namespace ValueLattice.Element

open Constraint (numberRegistry wellFormed_numbers)

variable {r : Registry} {c d e : ReferenceConstant} {x z : Element}

/-! ## What is below a constant and another reference -/

/-- The constraint of another reference contains that of the constant. Of two constants, either may
contain the other one. -/
def Comparable (r : Registry) (c : ReferenceConstant) : Element → Prop
  | object s _ => s.constraint.covers r c.constraint = true
  | constant d =>
    c.constraint.covers r d.constraint = true ∨ d.constraint.covers r c.constraint = true
  | _ => False

/-- Apart from the constraint, an object covers all constants with the payload of one that it
covers. -/
theorem object_covers_constant_iff {s : ObjectShape} {f : Option (String × Element)}
    (hse : covers r (object s f) (constant e) = true) (hce : c.covers r e = true) :
    covers r (object s f) (constant c) = true ↔ s.constraint.covers r c.constraint = true := by
  obtain ⟨hshape, hfield⟩ := covers_object_constant.1 hse
  obtain ⟨hnull, hmutability, hlocal, _⟩ := ObjectShape.covers_iff.1 hshape
  rw [covers_object_constant, ObjectShape.covers_iff, fieldOf?_eq_of_covers hce]
  exact ⟨fun h => h.1.2.2.2, fun h => ⟨⟨hnull, hmutability, hlocal, h⟩, hfield⟩⟩

/-- Constants that cover a common one have one payload. -/
theorem constant_covers_constant_iff (hce : c.covers r e = true) (hde : d.covers r e = true) :
    c.covers r d = true ↔ c.constraint.covers r d.constraint = true := by
  have hc := eq_of_beq (Bool.and_eq_true_iff.1 hce).1
  have hd := eq_of_beq (Bool.and_eq_true_iff.1 hde).1
  rw [ReferenceConstant.covers, hc, hd, beq_self_eq_true, Bool.true_and]

/-! ## One number, known to be of several types -/

/-- A declared number, known to be an instance of the given type. -/
def ratioOne (type : String) : ReferenceConstant :=
  ⟨.declaredField "Ratio" "ONE" "Ratio", .nominal 0 (.bounds [type]), false⟩

theorem built_ratioOne {type : String}
    (htype : Constraint.instanceOf numberRegistry 0 type = .nominal 0 (.bounds [type])) :
    Built numberRegistry 0 .any (constant (ratioOne type)) := by
  have hpayload : Payload.ofHost? (ratioOne type).payload.toHost = some (ratioOne type).payload :=
    Payload.ofHost?_toHost ⟨by decide, by decide, by decide⟩
  have hmade : ofReferenceConstant (ratioOne type).payload.toHost type
      (.ofHierarchy numberRegistry 0) = .ok (constant (ratioOne type)) := by
    rw [ofReferenceConstant, ofPayload, hpayload]
    exact congrArg (fun constraint => Except.ok (constant ⟨_, constraint, false⟩)) htype
  exact .ofReferenceConstant (fun _ _ => trivial) trivial
    (ConstraintSource.built_ofHierarchy _ _ _) hmade

/-! ## The meet -/

/-- A constant that is comparable with another reference meets it to the one of them that is
covered. -/
theorem meet_constant_covers (hcz : covers r (constant c) z = true) (hxz : covers r x z = true)
    (hz : z ≠ bottom) (h : Comparable r c x) :
    ∃ d, meet r (constant c) x = constant d ∧ covers r (constant d) z = true := by
  cases covers_iff.1 hcz with
  | bottom => exact absurd rfl hz
  | constant hce =>
    cases x with
    | object s f =>
      have hcovers := (object_covers_constant_iff hxz hce).2 h
      exact ⟨c, by rw [meet_constant_object, if_pos hcovers], hcz⟩
    | constant d =>
      rw [meet_constant_constant]
      split
      · exact ⟨d, rfl, hxz⟩
      · next hcd =>
        have hnot : ¬ c.constraint.covers r d.constraint = true :=
          fun hconstraint => hcd ((constant_covers_constant_iff hce hxz).2 hconstraint)
        have hdc := (constant_covers_constant_iff hxz hce).2 (h.resolve_left hnot)
        exact ⟨c, if_pos hdc, hcz⟩
    | _ => exact h.elim

/-- A constant that is not comparable with another reference has nothing in common with it, as far
as the meet goes. -/
theorem meet_constant_eq_bottom (hcz : covers r (constant c) z = true)
    (hxz : covers r x z = true) (hz : z ≠ bottom) (hkind : x.kind ∈ referenceKinds)
    (h : ¬ Comparable r c x) : meet r (constant c) x = bottom := by
  cases covers_iff.1 hcz with
  | bottom => exact absurd rfl hz
  | constant hce =>
    rcases reference_cases hkind with rfl | ⟨s, f, rfl⟩ | ⟨d, rfl⟩
    · rfl
    · have hnot := mt (object_covers_constant_iff hxz hce).1 h
      rw [meet_constant_object, if_neg hnot]
    · have hcd := mt (constant_covers_constant_iff hce hxz).1 fun hc => h (.inl hc)
      have hdc := mt (constant_covers_constant_iff hxz hce).1 fun hd => h (.inr hd)
      rw [meet_constant_constant, if_neg hcd, if_neg hdc]

/-- What lies below a constant and another reference lies below their meet exactly if the two are
comparable. Otherwise the meet is `bottom`, which is so only then. -/
theorem meet_constant_exact (hkind : x.kind ∈ referenceKinds) (hz : z ≠ bottom)
    (hcz : covers r (constant c) z = true) (hxz : covers r x z = true) :
    (covers r (meet r (constant c) x) z = true ↔ Comparable r c x) ∧
      (meet r (constant c) x = bottom ↔ ¬ Comparable r c x) := by
  by_cases h : Comparable r c x
  · obtain ⟨d, hmeet, hdz⟩ := meet_constant_covers hcz hxz hz h
    rw [hmeet]
    exact ⟨iff_of_true hdz h, iff_of_false Element.noConfusion (not_not_intro h)⟩
  · rw [meet_constant_eq_bottom hcz hxz hz hkind h]
    exact ⟨iff_of_false (fun hbottom => hz (eq_bottom_of_bottom_covers hbottom)) h,
      iff_of_true rfl h⟩

theorem meet_constant_exact_ratios :
    (constant (ratioOne "Ratio")).kind ∈ referenceKinds ∧ constant (ratioOne "Ratio") ≠ bottom ∧
      covers numberRegistry (constant (ratioOne "Number")) (constant (ratioOne "Ratio")) = true ∧
      Comparable numberRegistry (ratioOne "Number") (constant (ratioOne "Ratio")) ∧
      covers numberRegistry
        (meet numberRegistry (constant (ratioOne "Number")) (constant (ratioOne "Ratio")))
        (constant (ratioOne "Ratio")) = true := by
  have hkind := constant_kind_mem (ratioOne "Ratio")
  have hz : constant (ratioOne "Ratio") ≠ bottom := Element.noConfusion
  have hcovers : covers numberRegistry (constant (ratioOne "Number"))
      (constant (ratioOne "Ratio")) = true := by decide
  have hcomparable : Comparable numberRegistry (ratioOne "Number") (constant (ratioOne "Ratio")) :=
    .inl (by decide)
  obtain ⟨hmeet, _⟩ := meet_constant_exact hkind hz hcovers (covers_self _ _)
  exact ⟨hkind, hz, hcovers, hcomparable, hmeet.2 hcomparable⟩

/-- A number and something comparable may be one value, known to be both: their meet does not
contain it. -/
theorem not_meet_constant_greatest :
    (numberRegistry.hierarchy 0).WellFormed ∧
      ¬ ∀ (c : ReferenceConstant) (x z : Element), Built numberRegistry 0 .any (constant c) →
        Built numberRegistry 0 .any x → Built numberRegistry 0 .any z →
        (constant c).Satisfiable → x.Satisfiable → z.Satisfiable → x.kind ∈ referenceKinds →
        z ≠ bottom → covers numberRegistry (constant c) z = true →
        covers numberRegistry x z = true →
        covers numberRegistry (meet numberRegistry (constant c) x) z = true := by
  refine ⟨wellFormed_numbers, fun hall => ?_⟩
  have hsat (type : String) : (constant (ratioOne type)).Satisfiable := Constraint.noConfusion
  have hmeet := hall (ratioOne "Number") (constant (ratioOne "Comparable"))
    (constant (ratioOne "Ratio")) (built_ratioOne (by decide)) (built_ratioOne (by decide))
    (built_ratioOne (by decide)) (hsat _) (hsat _) (hsat _) (constant_kind_mem _)
    Element.noConfusion (by decide) (by decide)
  exact absurd hmeet (by decide)

end ValueLattice.Element
