import ValueLattice.Element.Object
import ValueLattice.Proofs.Constraints

/-!
# The lattice of shapes

Nullability, mutability and locality are ordered beside the constraint of a shape. The join of
shapes is an upper bound only, since a reference that is never null joins with one that may be null
to one of unknown nullability; the meet is the greatest lower bound.

* `covers_iff`: the order, component by component;
* `join_covers`, `join_comm`, `orNull_covers`: upper bounds;
* `covers_meet?`, `exists_meet?_covers`, `meet?_comm`: greatest lower bounds, wherever an object
  belongs to both shapes.
-/

namespace ValueLattice

namespace ObjectNullability

theorem covers_trans {n m k : ObjectNullability} (hnm : n.covers m = true)
    (hmk : m.covers k = true) : n.covers k = true := by
  revert hnm hmk
  cases n <;> cases m <;> cases k <;> decide

theorem covers_antisymm {n m : ObjectNullability} (hnm : n.covers m = true)
    (hmn : m.covers n = true) : n = m := by
  revert hnm hmn
  cases n <;> cases m <;> decide

theorem covers_self (n : ObjectNullability) : n.covers n = true := by
  cases n <;> rfl

theorem join_covers (n m : ObjectNullability) :
    (n.join m).covers n = true ∧ (n.join m).covers m = true := by
  cases n <;> cases m <;> decide

theorem join_comm (n m : ObjectNullability) : n.join m = m.join n := by
  cases n <;> cases m <;> rfl

/-- Joins loosen the nullability of references of which some are null and others never are; all
other joins are least upper bounds. -/
theorem covers_join {n m k : ObjectNullability} (hkn : k.covers n = true)
    (hkm : k.covers m = true) (hnm : ¬ (n = .nullable ∧ m = .notNull))
    (hmn : ¬ (m = .nullable ∧ n = .notNull)) : k.covers (n.join m) = true := by
  revert hkn hkm hnm hmn
  cases n <;> cases m <;> cases k <;> decide

theorem join_eq_left {n m : ObjectNullability} (hnm : n.covers m = true)
    (h : ¬ (n = .nullable ∧ m = .notNull)) : n.join m = n := by
  revert hnm h
  cases n <;> cases m <;> decide

theorem meet_covers_iff {n m k : ObjectNullability} :
    (n.meet m).covers k = true ↔ n.covers k = true ∧ m.covers k = true := by
  cases n <;> cases m <;> cases k <;> decide

theorem meet_comm (n m : ObjectNullability) : n.meet m = m.meet n := by
  cases n <;> cases m <;> rfl

theorem mayBeNull_of_covers {n m : ObjectNullability} (hnm : n.covers m = true)
    (hm : m.mayBeNull = true) : n.mayBeNull = true := by
  revert hnm hm
  cases n <;> cases m <;> decide

theorem covers_nullable {n : ObjectNullability} (hn : n.mayBeNull = true) :
    n.covers .nullable = true := by
  revert hn
  cases n <;> decide

theorem mayBeNull_meet {n m : ObjectNullability} (hn : n.mayBeNull = true)
    (hm : m.mayBeNull = true) : (n.meet m).mayBeNull = true := by
  revert hn hm
  cases n <;> cases m <;> decide

end ObjectNullability

namespace Mutability

theorem covers_self (m : Mutability) : m.covers m = true := by
  cases m <;> rfl

theorem covers_trans {m n k : Mutability} (hmn : m.covers n = true) (hnk : n.covers k = true) :
    m.covers k = true := by
  revert hmn hnk
  cases m <;> cases n <;> cases k <;> decide

theorem covers_antisymm {m n : Mutability} (hmn : m.covers n = true) (hnm : n.covers m = true) :
    m = n := by
  revert hmn hnm
  cases m <;> cases n <;> decide

theorem join_covers (m n : Mutability) :
    (m.join n).covers m = true ∧ (m.join n).covers n = true := by
  cases m <;> cases n <;> decide

theorem join_comm (m n : Mutability) : m.join n = n.join m := by
  cases m <;> cases n <;> rfl

theorem covers_join {m n k : Mutability} (hkm : k.covers m = true) (hkn : k.covers n = true) :
    k.covers (m.join n) = true := by
  revert hkm hkn
  cases m <;> cases n <;> cases k <;> decide

theorem join_eq_left {m n : Mutability} (hmn : m.covers n = true) : m.join n = m := by
  revert hmn
  cases m <;> cases n <;> decide

theorem meet?_comm (m n : Mutability) : m.meet? n = n.meet? m := by
  cases m <;> cases n <;> rfl

theorem covers_meet? {m n k : Mutability} (h : m.meet? n = some k) :
    m.covers k = true ∧ n.covers k = true := by
  revert h
  cases m <;> cases n <;> cases k <;> decide

theorem exists_meet?_covers {m n k : Mutability} (hmk : m.covers k = true)
    (hnk : n.covers k = true) : ∃ u, m.meet? n = some u ∧ u.covers k = true := by
  match m, n with
  | unknown, n => exact ⟨n, rfl, hnk⟩
  | mutable, unknown => exact ⟨mutable, rfl, hmk⟩
  | unmodifiable, unknown => exact ⟨unmodifiable, rfl, hmk⟩
  | mutable, mutable => exact ⟨mutable, rfl, hmk⟩
  | unmodifiable, unmodifiable => exact ⟨unmodifiable, rfl, hmk⟩
  | mutable, unmodifiable | unmodifiable, mutable =>
    -- Nothing lies below both.
    cases k <;> simp [covers] at hmk hnk

end Mutability

namespace ObjectShape

variable {r : Registry} {id : HierarchyId} {p : String → Prop}

/-- Local objects are never null, and the constraint is in normal form. -/
structure Normal (r : Registry) (id : HierarchyId) (p : String → Prop) (s : ObjectShape) :
    Prop where
  valid : s.Valid
  constraint : s.constraint.Normal r id p

theorem covers_iff {s t : ObjectShape} :
    s.covers r t = true ↔ s.nullability.covers t.nullability = true ∧
      s.mutability.covers t.mutability = true ∧ (s.isLocal = true → t.isLocal = true) ∧
      s.constraint.covers r t.constraint = true := by
  have hlocal : (!s.isLocal || t.isLocal) = true ↔ (s.isLocal = true → t.isLocal = true) := by
    cases s.isLocal <;> simp
  rw [covers, Bool.and_eq_true, Bool.and_eq_true, Bool.and_eq_true, hlocal, and_assoc, and_assoc]

theorem covers_trans (hw : (r.hierarchy id).WellFormed) {s t u : ObjectShape}
    (hs : s.Normal r id p) (ht : t.Normal r id p) (hu : u.Normal r id p)
    (hst : s.covers r t = true) (htu : t.covers r u = true) : s.covers r u = true := by
  obtain ⟨hn, hm, hl, hc⟩ := covers_iff.1 hst
  obtain ⟨hn', hm', hl', hc'⟩ := covers_iff.1 htu
  have hconstraint := Constraint.covers_trans hw hs.constraint ht.constraint hu.constraint hc hc'
  exact covers_iff.2 ⟨ObjectNullability.covers_trans hn hn', Mutability.covers_trans hm hm',
    fun h => hl' (hl h), hconstraint⟩

theorem covers_antisymm (hw : (r.hierarchy id).WellFormed) {s t : ObjectShape}
    (hs : s.Normal r id p) (ht : t.Normal r id p) (hst : s.covers r t = true)
    (hts : t.covers r s = true) : s = t := by
  obtain ⟨hn, hm, hl, hc⟩ := covers_iff.1 hst
  obtain ⟨hn', hm', hl', hc'⟩ := covers_iff.1 hts
  have hconstraint := Constraint.covers_antisymm hw hs.constraint ht.constraint hc hc'
  have hnullability := ObjectNullability.covers_antisymm hn hn'
  have hmutability := Mutability.covers_antisymm hm hm'
  have hlocal : s.isLocal = t.isLocal := Bool.eq_iff_iff.2 ⟨hl, hl'⟩
  cases s
  cases t
  simp_all

/-! ## Joins -/

theorem valid_join {s t : ObjectShape} (hs : s.Valid) (ht : t.Valid) : (s.join r t).Valid := by
  intro hlocal
  obtain ⟨hsl, htl⟩ := Bool.and_eq_true_iff.1 hlocal
  show s.nullability.join t.nullability = .notNull
  rw [hs hsl, ht htl]
  rfl

theorem normal_join (hs : (r.hierarchy id).Spelled p) {s t : ObjectShape}
    (hsn : s.Normal r id p) (htn : t.Normal r id p) : (s.join r t).Normal r id p where
  valid := valid_join hsn.valid htn.valid
  constraint := Constraint.normal_join hs hsn.constraint htn.constraint

theorem join_covers (hw : (r.hierarchy id).WellFormed) {s t : ObjectShape}
    (hs : s.Normal r id p) (ht : t.Normal r id p) :
    (s.join r t).covers r s = true ∧ (s.join r t).covers r t = true := by
  obtain ⟨hcs, hct⟩ := Constraint.join_covers hw hs.constraint ht.constraint
  obtain ⟨hns, hnt⟩ := ObjectNullability.join_covers s.nullability t.nullability
  obtain ⟨hms, hmt⟩ := Mutability.join_covers s.mutability t.mutability
  rw [covers_iff, covers_iff]
  exact ⟨⟨hns, hms, fun h => (Bool.and_eq_true_iff.1 h).1, hcs⟩,
    hnt, hmt, fun h => (Bool.and_eq_true_iff.1 h).2, hct⟩

/-- A shape that covers another one is their join, unless the join loosens the nullability. -/
theorem join_eq_left (hw : (r.hierarchy id).WellFormed) {s t : ObjectShape}
    (hs : s.Normal r id p) (ht : t.Normal r id p) (hst : s.covers r t = true)
    (hnull : s.nullability.join t.nullability = s.nullability) : s.join r t = s := by
  obtain ⟨_, hm, hl, hc⟩ := covers_iff.1 hst
  have hlocal : (s.isLocal && t.isLocal) = s.isLocal := by
    rw [Bool.and_eq_left_iff_imp]
    exact hl
  rw [join, Constraint.join_eq_left hw hs.constraint ht.constraint hc, hnull,
    Mutability.join_eq_left hm, hlocal]

theorem join_self (hw : (r.hierarchy id).WellFormed) {s : ObjectShape} (hs : s.Normal r id p) :
    s.join r s = s :=
  join_eq_left hw hs hs (covers_self r s) (if_pos rfl)

/-- Apart from loosened nullabilities, the join of two shapes is their least upper bound. -/
theorem covers_join (hw : (r.hierarchy id).WellFormed) {s t u : ObjectShape}
    (hs : s.Normal r id p) (ht : t.Normal r id p) (hu : u.Normal r id p)
    (hus : u.covers r s = true) (hut : u.covers r t = true)
    (hnull : u.nullability.covers (s.nullability.join t.nullability) = true) :
    u.covers r (s.join r t) = true := by
  obtain ⟨_, hms, hls, hcs⟩ := covers_iff.1 hus
  obtain ⟨_, hmt, hlt, hct⟩ := covers_iff.1 hut
  refine covers_iff.2 ⟨hnull, Mutability.covers_join hms hmt, ?_, ?_⟩
  · intro h
    exact Bool.and_eq_true_iff.2 ⟨hls h, hlt h⟩
  · exact (Constraint.covers_join_iff hw hs.constraint ht.constraint hu.constraint).2 ⟨hcs, hct⟩

theorem join_comm (hw : (r.hierarchy id).WellFormed) {s t : ObjectShape}
    (hs : s.Normal r id p) (ht : t.Normal r id p) : s.join r t = t.join r s := by
  rw [join, join, Constraint.join_comm hw hs.constraint ht.constraint,
    ObjectNullability.join_comm s.nullability, Mutability.join_comm s.mutability,
    Bool.and_comm s.isLocal]

theorem normal_orNull {s : ObjectShape} (hs : s.Normal r id p) : s.orNull.Normal r id p := by
  unfold orNull
  split
  · exact hs
  · exact ⟨fun h => Bool.noConfusion h, hs.constraint⟩

theorem mayBeNull_orNull (s : ObjectShape) : s.orNull.nullability.mayBeNull = true := by
  unfold orNull
  split
  · assumption
  · rfl

theorem orNull_covers (s : ObjectShape) : s.orNull.covers r s = true := by
  unfold orNull
  split
  · exact covers_self r s
  · next hnull =>
    have hnotNull : s.nullability = .notNull := by
      cases hs : s.nullability with
      | notNull => rfl
      | nullable => exact absurd (by rw [hs]; rfl) hnull
      | unknown => exact absurd (by rw [hs]; rfl) hnull
    refine covers_iff.2 ⟨by rw [hnotNull]; rfl, Mutability.covers_self _, ?_, ?_⟩
    · intro h
      exact Bool.noConfusion h
    · exact Constraint.covers_self r _

/-- The least shape that allows for null and covers another one. -/
theorem covers_orNull {s t : ObjectShape} (hs : s.Valid) (hst : s.covers r t = true)
    (hnull : s.nullability.mayBeNull = true) : s.covers r t.orNull = true := by
  unfold orNull
  split
  · exact hst
  · obtain ⟨_, hm, _, hc⟩ := covers_iff.1 hst
    refine covers_iff.2 ⟨ObjectNullability.covers_nullable hnull, hm, ?_, hc⟩
    intro hlocal
    rw [hs hlocal] at hnull
    exact Bool.noConfusion hnull

/-! ## Meets -/

theorem meet?_eq_some_iff {s t u : ObjectShape} :
    s.meet? r t = some u ↔ s.constraint.meet r t.constraint ≠ .bottom ∧
      ∃ mutability, s.mutability.meet? t.mutability = some mutability ∧
        u = ⟨s.constraint.meet r t.constraint, s.meetNullability t, mutability,
          s.isLocal || t.isLocal⟩ := by
  unfold meet?
  by_cases hbottom : s.constraint.meet r t.constraint = .bottom
  · simp only [hbottom, ne_eq, not_true_eq_false, false_and, iff_false]
    intro h
    exact nomatch h
  · have hnot : (s.constraint.meet r t.constraint).isBottom = false := by
      simpa [← Constraint.isBottom_iff] using hbottom
    simp only [hnot, Bool.false_eq_true, if_false, Option.map_eq_some_iff]
    exact ⟨fun ⟨m, hm, hu⟩ => ⟨hbottom, m, hm, hu.symm⟩, fun ⟨_, m, hm, hu⟩ => ⟨m, hm, hu.symm⟩⟩

theorem meetNullability_comm (s t : ObjectShape) : s.meetNullability t = t.meetNullability s := by
  rw [meetNullability, meetNullability, Bool.or_comm, ObjectNullability.meet_comm]

theorem meet?_comm (hw : (r.hierarchy id).WellFormed) {s t : ObjectShape}
    (hs : s.Normal r id p) (ht : t.Normal r id p) : s.meet? r t = t.meet? r s := by
  rw [meet?, meet?, Constraint.meet_comm hw hs.constraint ht.constraint,
    Mutability.meet?_comm s.mutability, meetNullability_comm s, Bool.or_comm s.isLocal]

theorem valid_meet? {s t u : ObjectShape} (h : s.meet? r t = some u) : u.Valid := by
  obtain ⟨_, m, _, rfl⟩ := meet?_eq_some_iff.1 h
  intro hlocal
  show s.meetNullability t = .notNull
  exact if_pos hlocal

theorem normal_meet? {s t u : ObjectShape} (hs : s.Normal r id p) (ht : t.Normal r id p)
    (h : s.meet? r t = some u) : u.Normal r id p := by
  have hvalid := valid_meet? h
  obtain ⟨_, m, _, rfl⟩ := meet?_eq_some_iff.1 h
  exact ⟨hvalid, Constraint.normal_meet hs.constraint ht.constraint⟩

/-- A nullability that both allow for is one of their meet: what a local object has is never
null. -/
theorem meetNullability_covers {s t z : ObjectShape} (hz : z.Valid) (hsz : s.covers r z = true)
    (htz : t.covers r z = true) : (s.meetNullability t).covers z.nullability = true := by
  obtain ⟨hsn, _, hsl, _⟩ := covers_iff.1 hsz
  obtain ⟨htn, _, htl, _⟩ := covers_iff.1 htz
  unfold meetNullability
  split
  · next hlocal =>
    have hzl : z.isLocal = true := (Bool.or_eq_true_iff.1 hlocal).elim hsl htl
    rw [hz hzl]
    rfl
  · exact ObjectNullability.meet_covers_iff.2 ⟨hsn, htn⟩

theorem covers_meetNullability (s t : ObjectShape) :
    s.nullability.covers (s.meetNullability t) = true ∧
      t.nullability.covers (s.meetNullability t) = true := by
  unfold meetNullability
  split
  · cases s.nullability <;> cases t.nullability <;> decide
  · exact ObjectNullability.meet_covers_iff.1 (ObjectNullability.covers_self _)

theorem covers_meet? (hw : (r.hierarchy id).WellFormed) {s t u : ObjectShape}
    (hs : s.Normal r id p) (ht : t.Normal r id p) (h : s.meet? r t = some u) :
    s.covers r u = true ∧ t.covers r u = true := by
  obtain ⟨_, m, hm, rfl⟩ := meet?_eq_some_iff.1 h
  obtain ⟨hcs, hct⟩ := Constraint.covers_meet hw hs.constraint ht.constraint
  obtain ⟨hns, hnt⟩ := covers_meetNullability s t
  obtain ⟨hms, hmt⟩ := Mutability.covers_meet? hm
  rw [covers_iff, covers_iff]
  exact ⟨⟨hns, hms, fun h => Bool.or_eq_true_iff.2 (.inl h), hcs⟩,
    hnt, hmt, fun h => Bool.or_eq_true_iff.2 (.inr h), hct⟩

/-- Shapes of a satisfiable reference have a meet, which is the greatest shape that both cover. -/
theorem exists_meet?_covers (hw : (r.hierarchy id).WellFormed) {s t z : ObjectShape}
    (hs : s.Normal r id p) (ht : t.Normal r id p) (hz : z.Normal r id p)
    (hbottom : z.constraint ≠ .bottom) (hsz : s.covers r z = true) (htz : t.covers r z = true) :
    ∃ u, s.meet? r t = some u ∧ u.covers r z = true := by
  obtain ⟨hsn, hsm, hsl, hsc⟩ := covers_iff.1 hsz
  obtain ⟨htn, htm, htl, htc⟩ := covers_iff.1 htz
  obtain ⟨m, hm, hmz⟩ := Mutability.exists_meet?_covers hsm htm
  have hconstraint :=
    (Constraint.meet_covers_iff hw hs.constraint ht.constraint hz.constraint).2 ⟨hsc, htc⟩
  have hmeet : s.constraint.meet r t.constraint ≠ .bottom := by
    intro hmeet
    rw [hmeet] at hconstraint
    exact hbottom (Constraint.isBottom_iff.1 hconstraint)
  refine ⟨_, meet?_eq_some_iff.2 ⟨hmeet, m, hm, rfl⟩, covers_iff.2 ⟨?_, hmz, ?_, hconstraint⟩⟩
  · exact meetNullability_covers hz.valid hsz htz
  · intro h
    exact (Bool.or_eq_true_iff.1 h).elim hsl htl

/-- Where both references may be null, so may one of the meet of their shapes. -/
theorem mayBeNull_meet? {s t u : ObjectShape} (hs : s.Valid) (ht : t.Valid)
    (h : s.meet? r t = some u) (hsn : s.nullability.mayBeNull = true)
    (htn : t.nullability.mayBeNull = true) : u.nullability.mayBeNull = true := by
  obtain ⟨_, m, _, rfl⟩ := meet?_eq_some_iff.1 h
  have hlocal {s : ObjectShape} (hs : s.Valid) (hn : s.nullability.mayBeNull = true) :
      s.isLocal = false := by
    rw [← Bool.not_eq_true]
    intro hl
    rw [hs hl] at hn
    exact Bool.noConfusion hn
  show (s.meetNullability t).mayBeNull = true
  rw [meetNullability, hlocal hs hsn, hlocal ht htn]
  exact ObjectNullability.mayBeNull_meet hsn htn

end ObjectShape

end ValueLattice
