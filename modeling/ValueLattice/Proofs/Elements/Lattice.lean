import ValueLattice.Proofs.Elements.Built

/-!
# The lattice of elements

The laws of the order, the join and the meet, for all elements that are made over one well-formed
hierarchy:

* `covers_laws`: a partial order, in which two elements cover each other exactly if they count as
  the same;
* `join_laws`: the join is an upper bound, whatever the order of the operands;
* `meet_laws`: the meet is a lower bound, and decides the order;
* `meet_greatest`: without constants it is the greatest lower bound of what is satisfiable.

Keys tell elements apart where the names they are made of are plain, so `covers_laws` and
`meet_laws` are about a plain vocabulary. The texts below show the laws on a string constant and
two views of it.
-/

namespace ValueLattice.Element

variable {r : Registry} {id : HierarchyId}

theorem same_iff {a b : Element} : a.same b = true ↔ key a = key b := beq_iff_eq

/-! ## A hierarchy of texts -/

/-- A final class that implements two interfaces. -/
def texts : Hierarchy :=
  { declarations :=
      [("String", { supertypes := ["CharSequence", "Comparable"], final := true }),
        ("CharSequence", { isInterface := true }), ("Comparable", { isInterface := true })] }

/-- The registry of that hierarchy. -/
def textRegistry : Registry := ⟨[texts]⟩

theorem wellFormed_texts : (textRegistry.hierarchy 0).WellFormed :=
  .of_declared (fun name => if name = "String" then 1 else 0) (by decide) (by decide) (by decide)
    (by decide) (by decide)

theorem spelled_texts : (textRegistry.hierarchy 0).Spelled Vocabulary.plain.type := by
  intro name sup hsup
  have hall : ∀ d ∈ texts.declarations, ∀ sup ∈ texts.directSupertypes d.1,
      Vocabulary.plain.type sup := by decide
  obtain ⟨d, hd, rfl⟩ := Hierarchy.exists_declaration hsup
  exact hall d hd sup hsup

/-- A string that an analysis has computed. -/
def greeting : ReferenceConstant := ⟨.string "hello", .nominal 0 (.exact "String"), true⟩

/-- References to instances of a type whose length lies in a range. -/
def sized (type : String) (nullability : ObjectNullability) (least greatest : Int) : Element :=
  object ⟨.nominal 0 (.bounds [type]), nullability, .unknown, false⟩
    (some (lengthField, integral ⟨.int, .range least greatest, none⟩))

section

variable {v : Vocabulary}

theorem built_greeting (htype : v.type "String") (htext : v.text "hello") :
    Built textRegistry 0 v (constant greeting) :=
  .ofConcatenation htext htype (ConstraintSource.built_ofHierarchy textRegistry 0 v.type)

theorem built_sized {type : String} {nullability : ObjectNullability} {least greatest : Int}
    (htype : v.type type)
    (hbounds : Constraint.instanceOf textRegistry 0 type = .nominal 0 (.bounds [type]))
    (hlength : ofRange .int (.range least greatest) =
      .ok (integral ⟨.int, .range least greatest, none⟩)) :
    Built textRegistry 0 v (sized type nullability least greatest) := by
  have hobject : ofObject (.instanceOf textRegistry 0 type) nullability.general .unknown
      (some (lengthField, integral ⟨.int, .range least greatest, none⟩)) false =
        .ok (sized type nullability least greatest) := by
    rw [hbounds]
    cases nullability <;> rfl
  refine .ofObject (.instanceOf htype) ?_ ?_ hobject
  · intro f hf
    exact Option.some.inj hf ▸ v.lengthField_allowed
  · intro f hf
    exact Option.some.inj hf ▸ .ofRange (.range least greatest) hlength

/-- Character sequences of at most ten characters, or null. -/
def shortText : Element := sized "CharSequence" .nullable 0 10

/-- Comparable objects of at least two characters. -/
def longComparable : Element := sized "Comparable" .unknown 2 20

theorem built_shortText (htype : v.type "CharSequence") : Built textRegistry 0 v shortText :=
  built_sized htype (by decide) (by rfl)

theorem built_longComparable (htype : v.type "Comparable") :
    Built textRegistry 0 v longComparable :=
  built_sized htype (by decide) (by rfl)

end

/-! ## The laws -/

/-- The order is a partial order: two elements cover each other exactly if they count as the
same. -/
theorem covers_laws (hw : (r.hierarchy id).WellFormed)
    (hs : (r.hierarchy id).Spelled Vocabulary.plain.type) {a b c : Element}
    (ha : Built r id .plain a) (hb : Built r id .plain b) (hc : Built r id .plain c) :
    covers r a a = true ∧
      (covers r a b = true → covers r b c = true → covers r a c = true) ∧
      (a.same b = true ↔ covers r a b = true ∧ covers r b a = true) := by
  have hna := ha.normal hs
  have hnb := hb.normal hs
  have hnc := hc.normal hs
  refine ⟨covers_self r a, covers_trans hw hna hnb hnc, ?_⟩
  rw [same_iff]
  constructor
  · intro hkey
    exact ⟨covers_of_key_eq hna hnb hkey, covers_of_key_eq hnb hna hkey.symm⟩
  · rintro ⟨hab, hba⟩
    exact key_eq_of_covers hw hna hnb hab hba

theorem covers_laws_greeting :
    (textRegistry.hierarchy 0).WellFormed ∧
      (textRegistry.hierarchy 0).Spelled Vocabulary.plain.type ∧
      Built textRegistry 0 .plain shortText ∧
      Built textRegistry 0 .plain (asObject greeting) ∧
      Built textRegistry 0 .plain (constant greeting) ∧
      covers textRegistry shortText shortText = true ∧
      covers textRegistry shortText (constant greeting) = true ∧
      (shortText.same (asObject greeting) = true ↔
        covers textRegistry shortText (asObject greeting) = true ∧
          covers textRegistry (asObject greeting) shortText = true) := by
  have hshort : Built textRegistry 0 .plain shortText := built_shortText (by decide)
  have hconstant : Built textRegistry 0 .plain (constant greeting) :=
    built_greeting (by decide) trivial
  obtain ⟨hself, htrans, hsame⟩ :=
    covers_laws wellFormed_texts spelled_texts hshort hconstant.asObject hconstant
  exact ⟨wellFormed_texts, spelled_texts, hshort, hconstant.asObject, hconstant, hself,
    htrans (by decide) (by decide), hsame⟩

/-- The join is an upper bound that does not depend on the order of the operands. -/
theorem join_laws (hw : (r.hierarchy id).WellFormed) {a b : Element} (ha : Built r id .any a)
    (hb : Built r id .any b) :
    covers r (join r a b) a = true ∧ covers r (join r a b) b = true ∧
      (join r a b).same (join r b a) = true ∧ (join r a a).same a = true := by
  have hs : (r.hierarchy id).Spelled Vocabulary.any.type := fun _ _ _ => trivial
  have hna := ha.normal hs
  have hnb := hb.normal hs
  obtain ⟨hja, hjb⟩ := join_covers hw hna hnb
  exact ⟨hja, hjb, same_iff.2 (key_join_comm hw hna hnb), same_iff.2 (key_join_self hna)⟩

theorem join_laws_greeting :
    (textRegistry.hierarchy 0).WellFormed ∧ Built textRegistry 0 .any shortText ∧
      Built textRegistry 0 .any (constant greeting) ∧
      covers textRegistry (join textRegistry shortText (constant greeting)) shortText = true ∧
      covers textRegistry (join textRegistry shortText (constant greeting)) (constant greeting) =
        true ∧
      (join textRegistry shortText (constant greeting)).same
        (join textRegistry (constant greeting) shortText) = true ∧
      (join textRegistry shortText shortText).same shortText = true := by
  have hshort : Built textRegistry 0 .any shortText := built_shortText trivial
  have hconstant : Built textRegistry 0 .any (constant greeting) := built_greeting trivial trivial
  exact ⟨wellFormed_texts, hshort, hconstant, join_laws wellFormed_texts hshort hconstant⟩

/-- The meet is a lower bound that does not depend on the order of the operands, and one element
covers another one exactly if the latter is their meet. -/
theorem meet_laws (hw : (r.hierarchy id).WellFormed)
    (hs : (r.hierarchy id).Spelled Vocabulary.plain.type) {a b : Element}
    (ha : Built r id .plain a) (hb : Built r id .plain b) :
    covers r a (meet r a b) = true ∧ covers r b (meet r a b) = true ∧
      (meet r a b).same (meet r b a) = true ∧
      (covers r a b = true ↔ (meet r a b).same b = true) := by
  have hna := ha.normal hs
  have hnb := hb.normal hs
  have hnm := normal_meet hna hnb
  obtain ⟨ham, hbm⟩ := covers_meet hw hna hnb
  refine ⟨ham, hbm, same_iff.2 (key_meet_comm hw hna hnb), ?_⟩
  rw [same_iff]
  constructor
  · exact key_meet_of_covers hna hnb
  · intro hkey
    exact covers_trans hw hna hnm hnb ham (covers_of_key_eq hnm hnb hkey)

theorem meet_laws_texts :
    (textRegistry.hierarchy 0).WellFormed ∧
      (textRegistry.hierarchy 0).Spelled Vocabulary.plain.type ∧
      Built textRegistry 0 .plain shortText ∧ Built textRegistry 0 .plain longComparable ∧
      covers textRegistry shortText (meet textRegistry shortText longComparable) = true ∧
      covers textRegistry longComparable (meet textRegistry shortText longComparable) = true ∧
      (meet textRegistry shortText longComparable).same
        (meet textRegistry longComparable shortText) = true ∧
      (covers textRegistry shortText longComparable = true ↔
        (meet textRegistry shortText longComparable).same longComparable = true) := by
  have hshort : Built textRegistry 0 .plain shortText := built_shortText (by decide)
  have hlong : Built textRegistry 0 .plain longComparable := built_longComparable (by decide)
  exact ⟨wellFormed_texts, spelled_texts, hshort, hlong,
    meet_laws wellFormed_texts spelled_texts hshort hlong⟩

/-- Where neither operand contains a constant, the meet covers every satisfiable element that both
cover. So it is `bottom` only if nothing else lies below both, and `null` only if at most null
does. -/
theorem meet_greatest (hw : (r.hierarchy id).WellFormed) {a b z : Element}
    (ha : Built r id .any a) (hb : Built r id .any b) (hz : Built r id .any z)
    (hac : a.ConstantFree) (hbc : b.ConstantFree) (hsat : z.Satisfiable)
    (haz : covers r a z = true) (hbz : covers r b z = true) :
    covers r (meet r a b) z = true ∧ (meet r a b = bottom → z = bottom) ∧
      (meet r a b = null → z = null ∨ z = bottom) := by
  have hs : (r.hierarchy id).Spelled Vocabulary.any.type := fun _ _ _ => trivial
  have hcovers := meet_covers_of_covers hw (ha.normal hs) (hb.normal hs) (hz.normal hs) hac hbc
    hsat haz hbz
  refine ⟨hcovers, ?_, ?_⟩
  · intro hbottom
    rw [hbottom] at hcovers
    exact eq_bottom_of_bottom_covers hcovers
  · intro hnull
    rw [hnull] at hcovers
    cases covers_iff.1 hcovers with
    | bottom => exact .inr rfl
    | null => exact .inl rfl

theorem meet_greatest_greeting :
    (textRegistry.hierarchy 0).WellFormed ∧ Built textRegistry 0 .any shortText ∧
      Built textRegistry 0 .any longComparable ∧ Built textRegistry 0 .any (constant greeting) ∧
      shortText.ConstantFree ∧ longComparable.ConstantFree ∧ (constant greeting).Satisfiable ∧
      covers textRegistry shortText (constant greeting) = true ∧
      covers textRegistry longComparable (constant greeting) = true ∧
      covers textRegistry (meet textRegistry shortText longComparable) (constant greeting) = true ∧
      meet textRegistry shortText longComparable ≠ bottom := by
  have hshort : Built textRegistry 0 .any shortText := built_shortText trivial
  have hlong : Built textRegistry 0 .any longComparable := built_longComparable trivial
  have hconstant : Built textRegistry 0 .any (constant greeting) := built_greeting trivial trivial
  have hsat : (constant greeting).Satisfiable := Constraint.noConfusion
  have haz : covers textRegistry shortText (constant greeting) = true := by decide
  have hbz : covers textRegistry longComparable (constant greeting) = true := by decide
  obtain ⟨hcovers, hbottom, _⟩ := meet_greatest wellFormed_texts hshort hlong hconstant trivial
    trivial hsat haz hbz
  exact ⟨wellFormed_texts, hshort, hlong, hconstant, trivial, trivial, hsat, haz, hbz, hcovers,
    fun h => Element.noConfusion (hbottom h)⟩

end ValueLattice.Element
