import ValueLattice.Proofs.ConstraintKeys

/-!
# The laws of constraints

What holds of all constraints that one well-formed hierarchy and the operations make:

* `join_least`: joins are least upper bounds, and nothing but `bottom` joins to `bottom`;
* `meet_exact`: a class satisfies a meet exactly if it satisfies both operands, and meets are
  greatest lower bounds;
* `order_canonical`: `covers` is a partial order, in which constraints are told apart by their keys,
  and which orders the instances of types as the types are ordered.

A class satisfies a constraint exactly if the constraint covers the exact class
(`admits_iff_covers_exactly`), so what is known of the order says which classes remain.
-/

namespace ValueLattice.Constraint

variable {r : Registry} {id : HierarchyId} {p : String → Prop}

theorem normal_exactly (r : Registry) (id : HierarchyId) (t : String) :
    (exactly id t).Normal r id fun _ => True :=
  ⟨rfl, trivial, fun _ _ => trivial⟩

theorem normal_instanceOf (r : Registry) (id : HierarchyId) (t : String) :
    (instanceOf r id t).Normal r id fun _ => True :=
  normal_ofBounds fun _ _ _ => trivial

/-! ## Classes -/

/-- A class satisfies a constraint exactly if the constraint covers that class alone. -/
theorem admits_iff_covers_exactly {c : Constraint} (hc : c.Over id p) (t : String) :
    c.Admits r t ↔ c.covers r (exactly id t) = true := by
  match c with
  | .top => simp [Admits]
  | .bottom => simp [Admits, covers, exactly, isBottom]
  | .nominal j (.exact e) =>
    obtain rfl := hc.1
    simp [Admits, covers, exactly, Nominal.covers]
  | .nominal j (.bounds names) =>
    obtain rfl := hc.1
    simp [Admits, covers, exactly, Nominal.covers, Nominal.implied, Hierarchy.isSubtype]

/-- A meet leaves exactly the classes that satisfy both operands. -/
theorem admits_meet_iff (hw : (r.hierarchy id).WellFormed) {x y : Constraint}
    (hx : x.Normal r id p) (hy : y.Normal r id p) (t : String) :
    (x.meet r y).Admits r t ↔ x.Admits r t ∧ y.Admits r t := by
  rw [admits_iff_covers_exactly (normal_meet hx hy).over, admits_iff_covers_exactly hx.over,
    admits_iff_covers_exactly hy.over]
  exact meet_covers_iff hw hx.weaken hy.weaken (normal_exactly r id t)

/-! ## Instances of types -/

/-- The instances of a type are known to be instances of exactly its supertypes. -/
theorem implies_instanceOf_iff (hw : (r.hierarchy id).WellFormed) (s t : String) :
    (instanceOf r id s).Implies r id t ↔ t ∈ (r.hierarchy id).supertypes s := by
  have hnormal := normal_instanceOf r id s
  have hexact := normal_exactly r id s
  constructor
  · intro h
    -- The exact class is one of the instances.
    have hcovers : (instanceOf r id s).covers r (exactly id s) = true := by
      rw [instanceOf, ofBounds_covers_iff hw hexact]
      intro name hname
      rw [List.mem_singleton.1 hname]
      exact Hierarchy.mem_supertypes_self _ _
    exact implies_of_covers hw hnormal hexact hcovers h
  · intro h
    have hself : (instanceOf r id s).Implies r id s :=
      (ofBounds_covers_iff hw hnormal [s]).1 (covers_self r _) s (List.mem_singleton_self s)
    exact hnormal.implies_of_mem_supertypes hw hself h

theorem instanceOf_covers_iff (hw : (r.hierarchy id).WellFormed) (s t : String) :
    (instanceOf r id t).covers r (instanceOf r id s) = true ↔
      (r.hierarchy id).isSubtype s t = true := by
  have hcovers := ofBounds_covers_iff hw (normal_instanceOf r id s) [t]
  simp only [List.mem_singleton, forall_eq] at hcovers
  rw [Hierarchy.isSubtype, List.contains_iff_mem, ← implies_instanceOf_iff hw]
  exact hcovers

/-! ## A hierarchy of numbers -/

/-- A class with a final subclass and another one; both are comparable. -/
def numbers : Hierarchy :=
  { declarations :=
      [("Serializable", { isInterface := true }), ("Comparable", { isInterface := true }),
        ("Number", { supertypes := ["Serializable"] }),
        ("Integer", { supertypes := ["Number", "Comparable"], final := true }),
        ("Ratio", { supertypes := ["Comparable", "Number"] })] }

/-- The registry of that hierarchy. -/
def numberRegistry : Registry := ⟨[numbers]⟩

theorem wellFormed_numbers : (numberRegistry.hierarchy 0).WellFormed :=
  .of_declared
    (fun name => if name = "Number" then 1 else if name ∈ ["Integer", "Ratio"] then 2 else 0)
    (by decide) (by decide) (by decide) (by decide) (by decide)

/-! ## The laws -/

/-- The join of two constraints covers both, and is covered by every constraint that covers both. It
is `bottom` only if both are. -/
theorem join_least (hw : (r.hierarchy id).WellFormed) {x y : Constraint}
    (hx : Built r id (fun _ => True) x) (hy : Built r id (fun _ => True) y) :
    (x.join r y).covers r x = true ∧ (x.join r y).covers r y = true ∧
      (∀ z, Built r id (fun _ => True) z → z.covers r x = true → z.covers r y = true →
        z.covers r (x.join r y) = true) ∧
      ((x.join r y).isBottom = true → x.isBottom = true ∧ y.isBottom = true) := by
  have hs : (r.hierarchy id).Spelled fun _ => True := fun _ _ _ => trivial
  have hnx := hx.normal hs
  have hny := hy.normal hs
  obtain ⟨hjx, hjy⟩ := join_covers hw hnx hny
  refine ⟨hjx, hjy, ?least, ?bottom⟩
  case least =>
    intro z hz hzx hzy
    exact (covers_join_iff hw hnx hny (hz.normal hs)).2 ⟨hzx, hzy⟩
  case bottom =>
    intro hbottom
    -- Nothing but `bottom` is covered by `bottom`.
    rw [isBottom_iff.1 hbottom] at hjx hjy
    exact ⟨hjx, hjy⟩

theorem join_least_numbers :
    let x : Constraint := exactly 0 "Integer"
    let y : Constraint := instanceOf numberRegistry 0 "Ratio"
    let z : Constraint := instanceOf numberRegistry 0 "Number"
    (numberRegistry.hierarchy 0).WellFormed ∧ Built numberRegistry 0 (fun _ => True) x ∧
      Built numberRegistry 0 (fun _ => True) y ∧ Built numberRegistry 0 (fun _ => True) z ∧
      x.join numberRegistry y = nominal 0 (.bounds ["Comparable", "Number"]) ∧
      (x.join numberRegistry y).covers numberRegistry x = true ∧
      z.covers numberRegistry (x.join numberRegistry y) = true := by
  intro x y z
  have hx : Built numberRegistry 0 (fun _ => True) x := .exactly trivial
  have hy : Built numberRegistry 0 (fun _ => True) y := .instanceOf trivial
  have hz : Built numberRegistry 0 (fun _ => True) z := .instanceOf trivial
  obtain ⟨hjx, _, hleast, _⟩ := join_least wellFormed_numbers hx hy
  exact ⟨wellFormed_numbers, hx, hy, hz, by decide, hjx, hleast z hz (by decide) (by decide)⟩

/-- A class satisfies the meet of two constraints exactly if it satisfies both. Both cover their
meet, and it covers every constraint that both cover. -/
theorem meet_exact (hw : (r.hierarchy id).WellFormed) {x y : Constraint}
    (hx : Built r id (fun _ => True) x) (hy : Built r id (fun _ => True) y) :
    (∀ t, (x.meet r y).Admits r t ↔ x.Admits r t ∧ y.Admits r t) ∧
      x.covers r (x.meet r y) = true ∧ y.covers r (x.meet r y) = true ∧
      ∀ z, Built r id (fun _ => True) z → x.covers r z = true → y.covers r z = true →
        (x.meet r y).covers r z = true := by
  have hs : (r.hierarchy id).Spelled fun _ => True := fun _ _ _ => trivial
  have hnx := hx.normal hs
  have hny := hy.normal hs
  obtain ⟨hxm, hym⟩ := covers_meet hw hnx hny
  refine ⟨admits_meet_iff hw hnx hny, hxm, hym, ?_⟩
  intro z hz hxz hyz
  exact (meet_covers_iff hw hnx hny (hz.normal hs)).2 ⟨hxz, hyz⟩

theorem meet_exact_numbers :
    let x : Constraint := instanceOf numberRegistry 0 "Number"
    let y : Constraint := instanceOf numberRegistry 0 "Comparable"
    let z : Constraint := exactly 0 "Ratio"
    (numberRegistry.hierarchy 0).WellFormed ∧ Built numberRegistry 0 (fun _ => True) x ∧
      Built numberRegistry 0 (fun _ => True) y ∧ Built numberRegistry 0 (fun _ => True) z ∧
      (x.meet numberRegistry y).Admits numberRegistry "Ratio" ∧
      ¬ (x.meet numberRegistry y).Admits numberRegistry "Comparable" ∧
      (x.meet numberRegistry y).covers numberRegistry z = true := by
  intro x y z
  have hx : Built numberRegistry 0 (fun _ => True) x := .instanceOf trivial
  have hy : Built numberRegistry 0 (fun _ => True) y := .instanceOf trivial
  have hz : Built numberRegistry 0 (fun _ => True) z := .exactly trivial
  obtain ⟨hadmits, _, _, hgreatest⟩ := meet_exact wellFormed_numbers hx hy
  have hnumber (t : String) : x.Admits numberRegistry t ↔ x.covers numberRegistry (exactly 0 t) :=
    admits_iff_covers_exactly (normal_instanceOf numberRegistry 0 "Number").over t
  have hcomparable (t : String) :
      y.Admits numberRegistry t ↔ y.covers numberRegistry (exactly 0 t) :=
    admits_iff_covers_exactly (normal_instanceOf numberRegistry 0 "Comparable").over t
  refine ⟨wellFormed_numbers, hx, hy, hz, ?_, ?_, hgreatest z hz (by decide) (by decide)⟩
  · exact (hadmits "Ratio").2 ⟨(hnumber "Ratio").2 (by decide), (hcomparable "Ratio").2 (by decide)⟩
  · intro h
    exact absurd ((hnumber "Comparable").1 ((hadmits "Comparable").1 h).1) (by decide)

/-- Names without `&`, which separates the names in a key. -/
def Unjoined (name : String) : Prop := '&' ∉ name.toList

instance (name : String) : Decidable (Unjoined name) :=
  inferInstanceAs (Decidable (_ ∉ _))

/-- Over names without `&`, `covers` is a partial order in which constraints that cover each other
are those with the same key. The instances of one type cover those of another one exactly if the
latter is a subtype. -/
theorem order_canonical (hw : (r.hierarchy id).WellFormed) (hs : (r.hierarchy id).Spelled Unjoined)
    {x y z : Constraint} (hx : Built r id Unjoined x) (hy : Built r id Unjoined y)
    (hz : Built r id Unjoined z) :
    x.covers r x = true ∧
      (x.covers r y = true → y.covers r z = true → x.covers r z = true) ∧
      (x.covers r y = true ∧ y.covers r x = true ↔ x.key = y.key) ∧
      ∀ s t, (instanceOf r id t).covers r (instanceOf r id s) = true ↔
        (r.hierarchy id).isSubtype s t = true := by
  have hnx := hx.normal hs
  have hny := hy.normal hs
  refine ⟨covers_self r x, covers_trans hw hnx hny (hz.normal hs), ?keys, instanceOf_covers_iff hw⟩
  case keys =>
    constructor
    · rintro ⟨hxy, hyx⟩
      rw [covers_antisymm hw hnx hny hxy hyx]
    · intro hkey
      obtain rfl := key_inj (fun _ hname => hname) hnx.over hny.over hkey
      exact ⟨covers_self r x, covers_self r x⟩

theorem spelled_numbers : (numberRegistry.hierarchy 0).Spelled Unjoined := by
  intro name sup hsup
  have hall : ∀ d ∈ numbers.declarations, ∀ sup ∈ numbers.directSupertypes d.1, Unjoined sup := by
    decide
  obtain ⟨d, hd, rfl⟩ := Hierarchy.exists_declaration hsup
  exact hall d hd sup hsup

theorem order_canonical_numbers :
    let number : Constraint := instanceOf numberRegistry 0 "Number"
    let comparable : Constraint := instanceOf numberRegistry 0 "Comparable"
    let x : Constraint := number.meet numberRegistry comparable
    let y : Constraint := (exactly 0 "Integer").join numberRegistry (exactly 0 "Ratio")
    (numberRegistry.hierarchy 0).WellFormed ∧ (numberRegistry.hierarchy 0).Spelled Unjoined ∧
      Built numberRegistry 0 Unjoined x ∧ Built numberRegistry 0 Unjoined y ∧
      x.key = y.key ∧ x.covers numberRegistry (exactly 0 "Integer") = true ∧
      (instanceOf numberRegistry 0 "Number").covers numberRegistry
        (instanceOf numberRegistry 0 "Integer") = true := by
  intro number comparable x y
  have hx : Built numberRegistry 0 Unjoined x :=
    .meet (.instanceOf (by decide)) (.instanceOf (by decide))
  have hinteger : Built numberRegistry 0 Unjoined (exactly 0 "Integer") := .exactly (by decide)
  have hy : Built numberRegistry 0 Unjoined y := .join hinteger (.exactly (by decide))
  obtain ⟨_, htrans, hkeys, hinstances⟩ :=
    order_canonical wellFormed_numbers spelled_numbers hx hy hinteger
  exact ⟨wellFormed_numbers, spelled_numbers, hx, hy, hkeys.1 ⟨by decide, by decide⟩,
    htrans (by decide) (by decide), (hinstances "Integer" "Number").2 (by decide)⟩

end ValueLattice.Constraint
