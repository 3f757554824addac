import ValueLattice.Proofs.Elements.Join
import ValueLattice.Proofs.Elements.Keys
import ValueLattice.Proofs.Elements.Meet
import ValueLattice.Proofs.PayloadKeys

/-!
# What identifies a constant

Constants with one constraint are told apart by the keys of their payloads, in comparisons as well
as in joins and meets.

* `same_constant_iff`, `join_constant_same_iff`, `meet_constant_same_iff`: they are the same, join to
  themselves and meet to themselves exactly if the keys are equal;
* `constants_identified`: which is so for one object, and only for one object where the names can be
  told apart;
* `not_constants_identified`: a name that holds a point is not told apart from the type before it.
-/

namespace ValueLattice.Element

variable {r : Registry} {p q : Payload} {constraint : Constraint} {s t : Bool}

theorem same_constant_iff :
    (constant ⟨p, constraint, s⟩).same (constant ⟨q, constraint, t⟩) = true ↔ p.key = q.key := by
  rw [same, beq_iff_eq]
  show "const|" ++ p.key ++ "|" ++ constraint.key = "const|" ++ q.key ++ "|" ++ constraint.key ↔ _
  rw [String.append_left_inj, String.append_left_inj, String.append_right_inj]

/-- Of two constants with one constraint, one covers the other exactly if their payloads have one
key. -/
theorem covers_iff_key_eq :
    ReferenceConstant.covers r ⟨p, constraint, s⟩ ⟨q, constraint, t⟩ = true ↔ p.key = q.key := by
  simp [ReferenceConstant.covers]

theorem join_constant_same_iff :
    (join r (constant ⟨p, constraint, s⟩) (constant ⟨q, constraint, t⟩)).same
      (constant ⟨p, constraint, s⟩) = true ↔ p.key = q.key := by
  by_cases h : p.key = q.key
  · rw [join_constant_constant, if_pos (covers_iff_key_eq.2 h)]
    exact iff_of_true (beq_self_eq_true _) h
  · rw [join_constant_constant, if_neg (mt covers_iff_key_eq.1 h),
      if_neg (mt covers_iff_key_eq.1 (Ne.symm h))]
    refine iff_of_false (fun hsame => ?_) h
    exact Family.noConfusion (family_eq_of_key_eq (eq_of_beq hsame))

theorem meet_constant_same_iff :
    (meet r (constant ⟨p, constraint, s⟩) (constant ⟨q, constraint, t⟩)).same
      (constant ⟨p, constraint, s⟩) = true ↔ p.key = q.key := by
  rw [meet_constant_constant]
  by_cases h : p.key = q.key
  · rw [if_pos (covers_iff_key_eq.2 h), same_constant_iff]
    exact eq_comm
  · rw [if_neg (mt covers_iff_key_eq.1 h), if_neg (mt covers_iff_key_eq.1 (Ne.symm h))]
    refine iff_of_false (fun hsame => ?_) h
    exact Family.noConfusion (family_eq_of_key_eq (eq_of_beq hsame))

/-- Payloads of one object have one key, and payloads with one key have one kind and are one object
if their names can be told apart. Two constants with one constraint are the same, join to themselves
and meet to themselves exactly if their payloads have one key. -/
theorem constants_identified (r : Registry) {v w : HostValue} {p q : Payload}
    (hp : Payload.ofHost? v = some p) (hq : Payload.ofHost? w = some q) :
    (p.SameObject q → p.key = q.key) ∧
      (p.key = q.key → p.kindName = q.kindName ∧
        (p.Separable → q.Separable → p.SameObject q)) ∧
      ∀ constraint s t,
        ((constant ⟨p, constraint, s⟩).same (constant ⟨q, constraint, t⟩) = true ↔
          p.key = q.key) ∧
        ((join r (constant ⟨p, constraint, s⟩) (constant ⟨q, constraint, t⟩)).same
          (constant ⟨p, constraint, s⟩) = true ↔ p.key = q.key) ∧
        ((meet r (constant ⟨p, constraint, s⟩) (constant ⟨q, constraint, t⟩)).same
          (constant ⟨p, constraint, s⟩) = true ↔ p.key = q.key) := by
  have hvalid := Payload.valid_of_ofHost? hp
  have hvalid' := Payload.valid_of_ofHost? hq
  refine ⟨Payload.key_eq_of_sameObject hvalid hvalid', fun h => ⟨?_, fun hps hqs => ?_⟩,
    fun constraint s t => ⟨same_constant_iff, join_constant_same_iff, meet_constant_same_iff⟩⟩
  · exact (Payload.kindName_eq_of_key_eq h).1
  · exact Payload.sameObject_of_key_eq hvalid hvalid' hps hqs h

/-- Boxed zeros of different signs are different objects. -/
theorem constants_identified_zeros :
    let p := Payload.boxed (.floating .double .zero)
    let q := Payload.boxed (.floating .double .negativeZero)
    Payload.ofHost? p.toHost = some p ∧ Payload.ofHost? q.toHost = some q ∧
      p.Separable ∧ q.Separable ∧ ¬ p.SameObject q ∧
      ¬ (constant ⟨p, .top, false⟩).same (constant ⟨q, .top, false⟩) = true := by
  intro p q
  have hp : Payload.ofHost? p.toHost = some p := Payload.ofHost?_toHost trivial
  have hq : Payload.ofHost? q.toHost = some q := Payload.ofHost?_toHost trivial
  have hne : ¬ p.SameObject q := fun h => Bool.noConfusion (Double.finite.inj h.2).1
  obtain ⟨_, hkey, hconstants⟩ := constants_identified ⟨[]⟩ hp hq
  obtain ⟨hsame, _, _⟩ := hconstants .top false false
  exact ⟨hp, hq, trivial, trivial, hne, fun h => hne ((hkey (hsame.1 h)).2 trivial trivial)⟩

/-- The member `RED` of `Outer.Color` and the member `Color.RED` of `Outer` are different objects
with one key, so constants of them are the same and join and meet to themselves. -/
theorem not_constants_identified :
    let p := Payload.enumMember "Outer.Color" "RED"
    let q := Payload.enumMember "Outer" "Color.RED"
    Payload.ofHost? p.toHost = some p ∧ Payload.ofHost? q.toHost = some q ∧
      ¬ (p.key = q.key → p.kindName = q.kindName ∧ p.SameObject q) ∧
      ∀ r constraint,
        let a := constant ⟨p, constraint, false⟩
        let b := constant ⟨q, constraint, false⟩
        a.same b = true ∧ (join r a b).same a = true ∧ (meet r a b).same a = true := by
  intro p q
  have hp : Payload.ofHost? p.toHost = some p :=
    Payload.ofHost?_toHost ⟨by decide, by decide⟩
  have hq : Payload.ofHost? q.toHost = some q :=
    Payload.ofHost?_toHost ⟨by decide, by decide⟩
  have hkey : p.key = q.key := by decide
  have hne : ¬ p.SameObject q := fun h => absurd h.1 (by decide)
  exact ⟨hp, hq, fun h => hne (h hkey).2, fun r constraint =>
    ⟨same_constant_iff.2 hkey, join_constant_same_iff.2 hkey, meet_constant_same_iff.2 hkey⟩⟩

end ValueLattice.Element
