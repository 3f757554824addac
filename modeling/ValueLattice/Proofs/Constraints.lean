import ValueLattice.Constraint.Algebra
import ValueLattice.Proofs.Antichains
import ValueLattice.Proofs.Hierarchies
import ValueLattice.Proofs.TextOrder
import ValueLattice.Proofs.Texts

/-!
# The lattice of constraints

Over a well-formed hierarchy the constraints that the operations make are in normal form, and a
normal constraint is determined by the names it implies. So the constraints are a lattice:

* `covers_trans`, `covers_antisymm`: `covers` is a partial order;
* `ofBounds_covers_iff`: the constraint of some bounds is the greatest one that implies them;
* `covers_join_iff`, `meet_covers_iff`: joins are least upper bounds, meets greatest lower bounds;
* `join_forms`, `meet_forms`: what joins and meets are made of, whatever the hierarchy looks like;
* `Built.normal`: whatever the operations make is in normal form.
-/

namespace ValueLattice

/-! ## Normal forms -/

/-- Bounds in normal form: none implies another one, at most one is a class, and it is not final. -/
structure Nominal.Reduced (h : Hierarchy) (names : List String) : Prop where
  ne_nil : names ≠ []
  root_notMem : h.root ∉ names
  ascending : Text.Ascending (fun name => name) names
  apart : ∀ a ∈ names, ∀ b ∈ names, a ∈ h.supertypes b → a = b
  one_class : ∀ a ∈ names, h.isInterface a = false → ∀ b ∈ names, h.isInterface b = false → a = b
  none_final : ∀ a ∈ names, h.isInterface a = false → h.isFinal a = false

namespace Nominal

/-- The names that a requirement is made of. -/
def names : Nominal → List String
  | exact name => [name]
  | bounds names => names

/-- Bounds are reduced; an exact class may be any name. -/
def Normal (h : Hierarchy) : Nominal → Prop
  | exact _ => True
  | bounds names => Reduced h names

theorem mem_implied_iff {h : Hierarchy} {x : Nominal} {t : String} :
    t ∈ x.implied h ↔ ∃ name ∈ x.names, t ∈ h.supertypes name := by
  cases x with
  | exact name => simp [implied, names]
  | bounds names => simp [implied, Nominal.names]

theorem Normal.names_ne_nil {h : Hierarchy} {x : Nominal} (hx : x.Normal h) : x.names ≠ [] := by
  cases x with
  | exact name => exact List.cons_ne_nil _ _
  | bounds names => exact hx.ne_nil

theorem Normal.root_implied {h : Hierarchy} {x : Nominal} (hx : x.Normal h) :
    h.root ∈ x.implied h := by
  obtain ⟨name, hname⟩ := List.exists_mem_of_ne_nil _ hx.names_ne_nil
  exact mem_implied_iff.2 ⟨name, hname, h.root_mem_supertypes name⟩

theorem implied_of_mem_supertypes {h : Hierarchy} (hw : h.WellFormed) {x : Nominal} {t u : String}
    (ht : t ∈ x.implied h) (hu : u ∈ h.supertypes t) : u ∈ x.implied h := by
  obtain ⟨name, hname, hnt⟩ := mem_implied_iff.1 ht
  exact mem_implied_iff.2 ⟨name, hname, hw.supertypes_trans hnt hu⟩

/-- The classes that a requirement implies, other than the root, form a chain: all of them lie above
its only class. -/
theorem Normal.classes_comparable {h : Hierarchy} (hw : h.WellFormed) {x : Nominal}
    (hx : x.Normal h) {a b : String} (ha : a ∈ x.implied h) (hac : h.isInterface a = false)
    (har : a ≠ h.root) (hb : b ∈ x.implied h) (hbc : h.isInterface b = false)
    (hbr : b ≠ h.root) : a ∈ h.supertypes b ∨ b ∈ h.supertypes a := by
  obtain ⟨m, hm, hma⟩ := mem_implied_iff.1 ha
  obtain ⟨n, hn, hnb⟩ := mem_implied_iff.1 hb
  -- Below a class there are only classes, and only one of the names is a class.
  have hmn : m = n := by
    cases x with
    | exact name => rw [List.mem_singleton.1 hm, List.mem_singleton.1 hn]
    | bounds names =>
      exact hx.one_class m hm (hw.class_of_class_mem_supertypes hma hac har) n hn
        (hw.class_of_class_mem_supertypes hnb hbc hbr)
  subst hmn
  exact hw.superclasses_comparable hma hac har hnb hbc hbr

/-- Only the exact class itself implies a final class. -/
theorem Normal.eq_exact_of_final_implied {h : Hierarchy} (hw : h.WellFormed) {x : Nominal}
    (hx : x.Normal h) {f : String} (hf : f ∈ x.implied h) (hfc : h.isInterface f = false)
    (hff : h.isFinal f = true) (hfr : f ≠ h.root) : x = exact f := by
  obtain ⟨n, hn, hnf⟩ := mem_implied_iff.1 hf
  have hfn := hw.eq_of_final_mem_supertypes hnf hff hfc hfr
  subst hfn
  cases x with
  | exact name => rw [List.mem_singleton.1 hn]
  | bounds names =>
    -- Bounds do not list a final class: `ofBounds` turns it into the exact one.
    have hnot := hx.none_final f hn hfc
    rw [hff] at hnot
    exact Bool.noConfusion hnot

/-- Of two lists of bounds that imply each other, a reduced one is contained in the other one. -/
theorem Reduced.subset {h : Hierarchy} (hw : h.WellFormed) {xs ys : List String}
    (hxs : Reduced h xs) (hxy : ∀ a ∈ xs, ∃ b ∈ ys, a ∈ h.supertypes b)
    (hyx : ∀ b ∈ ys, ∃ a ∈ xs, b ∈ h.supertypes a) : ∀ a ∈ xs, a ∈ ys := by
  intro a ha
  -- The bound lies above one of the other list, which lies above one of its own list again.
  obtain ⟨b, hb, hab⟩ := hxy a ha
  obtain ⟨c, hc, hbc⟩ := hyx b hb
  obtain rfl : a = c := hxs.apart a ha c hc (hw.supertypes_trans hbc hab)
  rw [hw.supertypes_antisymm hbc hab]
  exact hb

end Nominal

namespace Constraint

/-- The invariant of the constraints of one hierarchy, whose names are spelled as `p` allows. -/
def Normal (r : Registry) (id : HierarchyId) (p : String → Prop) : Constraint → Prop
  | nominal i x => i = id ∧ x.Normal (r.hierarchy id) ∧ ∀ name ∈ x.names, p name
  | _ => True

/-- Every class that satisfies the constraint is known to be or extend the name. -/
def Implies (r : Registry) (id : HierarchyId) : Constraint → String → Prop
  | top, name => name = (r.hierarchy id).root
  | bottom, _ => True
  | nominal i x, name => name ∈ x.implied (r.hierarchy i)

theorem Normal.weaken {r : Registry} {id : HierarchyId} {p : String → Prop} {c : Constraint}
    (hc : c.Normal r id p) : c.Normal r id fun _ => True := by
  cases c with
  | top => trivial
  | bottom => trivial
  | nominal i x => exact ⟨hc.1, hc.2.1, fun _ _ => trivial⟩

/-- A constraint over a hierarchy, whatever is declared there: it asks nothing, everything, or some
names that `p` allows. -/
def Over (id : HierarchyId) (p : String → Prop) : Constraint → Prop
  | nominal i x => i = id ∧ x.names ≠ [] ∧ ∀ name ∈ x.names, p name
  | _ => True

theorem Normal.over {r : Registry} {id : HierarchyId} {p : String → Prop} {c : Constraint}
    (hc : c.Normal r id p) : c.Over id p := by
  cases c with
  | top => trivial
  | bottom => trivial
  | nominal i x => exact ⟨hc.1, hc.2.1.names_ne_nil, hc.2.2⟩

theorem isBottom_iff {c : Constraint} : c.isBottom = true ↔ c = bottom := by
  cases c <;> simp [isBottom]

/-! ## Reduced bounds -/

section

variable {h : Hierarchy}

theorem reducedBounds_eq (h : Hierarchy) (names : List String) :
    reducedBounds h names =
      Antichain.maximal (fun a b => (h.supertypes b).contains a)
        (names.eraseDups.filter (· ≠ h.root)) := by
  rw [reducedBounds, Antichain.maximal_map, List.map_map]
  exact List.map_id _

theorem nodup_reducedBounds (h : Hierarchy) (names : List String) :
    (reducedBounds h names).Nodup := by
  rw [reducedBounds_eq]
  exact ((nodup_eraseDups names).filter _).sublist (Antichain.maximal_sublist _)

theorem mem_of_mem_reducedBounds {names : List String} {name : String}
    (hname : name ∈ reducedBounds h names) : name ∈ names ∧ name ≠ h.root := by
  rw [reducedBounds_eq] at hname
  simpa using (Antichain.maximal_sublist _).subset hname

/-- No reduced bound is a supertype of another one. -/
theorem eq_of_mem_reducedBounds {names : List String} {a b : String}
    (ha : a ∈ reducedBounds h names) (hb : b ∈ reducedBounds h names)
    (hab : a ∈ h.supertypes b) : a = b := by
  rw [reducedBounds_eq] at ha hb
  by_contra hne
  have hnot := Antichain.not_subsumes_maximal ha hb hne
  exact absurd (List.contains_iff_mem.2 hab) (by rw [hnot]; exact Bool.false_ne_true)

/-- Every bound is the root or implied by a reduced one. -/
theorem exists_mem_reducedBounds (hw : h.WellFormed) {names : List String} {name : String}
    (hname : name ∈ names) (hne : name ≠ h.root) :
    ∃ b ∈ reducedBounds h names, name ∈ h.supertypes b := by
  rw [reducedBounds_eq]
  have hmem : name ∈ names.eraseDups.filter (· ≠ h.root) := by simp [hname, hne]
  have hself (a : String) : (h.supertypes a).contains a = true :=
    List.contains_iff_mem.2 (h.mem_supertypes_self a)
  have htrans (a b c : String) (hab : (h.supertypes b).contains a = true)
      (hbc : (h.supertypes c).contains b = true) : (h.supertypes c).contains a = true := by
    rw [List.contains_iff_mem] at hab hbc ⊢
    exact hw.supertypes_trans hbc hab
  obtain ⟨b, hb, hnb⟩ := Antichain.exists_mem_maximal
    (fun a b => (h.supertypes b).contains a) hself htrans hmem
  exact ⟨b, hb, List.contains_iff_mem.1 hnb⟩

end

/-- What becomes of reduced bounds: nothing, a contradiction between two classes or between a final
class and another bound, the final class, or the bounds in their order. -/
inductive BoundsForm (h : Hierarchy) (id : HierarchyId) (reduced : List String) : Constraint → Prop
    where
  | none : reduced = [] → BoundsForm h id reduced top
  | classes {a b : String} : a ∈ reduced → b ∈ reduced → h.isInterface a = false →
      h.isInterface b = false → a ≠ b → BoundsForm h id reduced bottom
  | final {f : String} : reduced = [f] → h.isInterface f = false → h.isFinal f = true →
      BoundsForm h id reduced (nominal id (.exact f))
  | finalAmong {f b : String} : f ∈ reduced → b ∈ reduced → h.isInterface f = false →
      h.isFinal f = true → b ≠ f → BoundsForm h id reduced bottom
  | bounds {names : List String} : reduced ≠ [] → (∀ name, name ∈ names ↔ name ∈ reduced) →
      Text.Ascending (fun name => name) names →
      (∀ a ∈ reduced, h.isInterface a = false → ∀ b ∈ reduced, h.isInterface b = false → a = b) →
      (∀ a ∈ reduced, h.isInterface a = false → h.isFinal a = false) →
      BoundsForm h id reduced (nominal id (.bounds names))

/-- A list without duplicates has two members exactly if it is longer than one. -/
theorem one_lt_length_iff {l : List String} (hl : l.Nodup) :
    1 < l.length ↔ ∃ a ∈ l, ∃ b ∈ l, a ≠ b := by
  match l with
  | [] => simp
  | [a] => simp
  | a :: b :: rest =>
    have hne : a ≠ b := by
      rintro rfl
      simp at hl
    simp only [List.length_cons, Nat.lt_add_left_iff_pos, Nat.zero_lt_succ, true_iff]
    exact ⟨a, by simp, b, by simp, hne⟩

theorem boundsForm_ofBounds (r : Registry) (id : HierarchyId) (names : List String) :
    BoundsForm (r.hierarchy id) id (reducedBounds (r.hierarchy id) names)
      (ofBounds r id names) := by
  have hnodup := nodup_reducedBounds (r.hierarchy id) names
  simp only [ofBounds]
  generalize reducedBounds (r.hierarchy id) names = reduced at hnodup ⊢
  -- The forms in the order in which `ofBounds` looks for them.
  have hclasses := hnodup.filter fun name => !(r.hierarchy id).isInterface name
  have hmem {a : String} : a ∈ reduced.filter (fun name => !(r.hierarchy id).isInterface name) ↔
      a ∈ reduced ∧ (r.hierarchy id).isInterface a = false := by simp
  by_cases hempty : reduced = []
  · rw [if_pos (List.isEmpty_iff.2 hempty)]
    exact .none hempty
  rw [if_neg (by simpa using hempty)]
  by_cases hmany : 1 < (reduced.filter fun name => !(r.hierarchy id).isInterface name).length
  · rw [if_pos hmany]
    obtain ⟨a, ha, b, hb, hne⟩ := (one_lt_length_iff hclasses).1 hmany
    exact .classes (hmem.1 ha).1 (hmem.1 hb).1 (hmem.1 ha).2 (hmem.1 hb).2 hne
  rw [if_neg hmany]
  have hone : ∀ a ∈ reduced, (r.hierarchy id).isInterface a = false →
      ∀ b ∈ reduced, (r.hierarchy id).isInterface b = false → a = b := by
    intro a ha hac b hb hbc
    by_contra hne
    exact hmany ((one_lt_length_iff hclasses).2 ⟨a, hmem.2 ⟨ha, hac⟩, b, hmem.2 ⟨hb, hbc⟩, hne⟩)
  split
  · next f hfind =>
    have hf := hmem.1 (List.mem_of_find?_eq_some hfind)
    have hfinal := List.find?_some hfind
    split
    · next hlength =>
      obtain ⟨g, hg⟩ := List.length_eq_one_iff.1 hlength
      have hfg : f = g := List.mem_singleton.1 (hg ▸ hf.1)
      exact .final (hfg ▸ hg) hf.2 hfinal
    · next hlength =>
      have hpos := List.length_pos_of_mem hf.1
      obtain ⟨a, ha, b, hb, hne⟩ := (one_lt_length_iff hnodup).1 (by omega)
      by_cases haf : a = f
      · exact .finalAmong hf.1 hb hf.2 hfinal fun hbf => hne (haf.trans hbf.symm)
      · exact .finalAmong hf.1 ha hf.2 hfinal haf
  · next hfind =>
    apply BoundsForm.bounds hempty (fun name => Text.mem_sortByText)
      (Text.ascending_sortByText _ _) hone
    intro a ha hac
    simpa using List.find?_eq_none.1 hfind a (hmem.2 ⟨ha, hac⟩)

/-! ## The order -/

section

variable {r : Registry} {id : HierarchyId} {p : String → Prop}

theorem normal_ofBounds {names : List String}
    (hp : ∀ name ∈ names, name ≠ (r.hierarchy id).root → p name) :
    (ofBounds r id names).Normal r id p := by
  have hspelled : ∀ name ∈ reducedBounds (r.hierarchy id) names, p name := by
    intro name hname
    obtain ⟨hmem, hroot⟩ := mem_of_mem_reducedBounds hname
    exact hp name hmem hroot
  have hform := boundsForm_ofBounds r id names
  generalize ofBounds r id names = c at hform ⊢
  cases hform with
  | none h => trivial
  | classes ha hb hac hbc hne => trivial
  | finalAmong hf hb hfc hff hne => trivial
  | final h hfc hff =>
    refine ⟨rfl, trivial, ?_⟩
    intro name hname
    rw [List.mem_singleton.1 hname]
    exact hspelled _ (h ▸ List.mem_singleton_self _)
  | bounds hne hmem hasc hone hfinal =>
    refine ⟨rfl, ⟨?_, ?_, hasc, ?_, ?_, ?_⟩, fun name hname => hspelled name ((hmem name).1 hname)⟩
    · obtain ⟨b, hb⟩ := List.exists_mem_of_ne_nil _ hne
      exact List.ne_nil_of_mem ((hmem b).2 hb)
    · intro hroot
      exact (mem_of_mem_reducedBounds ((hmem _).1 hroot)).2 rfl
    · intro a ha b hb
      exact eq_of_mem_reducedBounds ((hmem a).1 ha) ((hmem b).1 hb)
    · intro a ha hac b hb
      exact hone a ((hmem a).1 ha) hac b ((hmem b).1 hb)
    · intro a ha
      exact hfinal a ((hmem a).1 ha)

theorem Normal.implies_root {c : Constraint} (hc : c.Normal r id p) :
    c.Implies r id (r.hierarchy id).root := by
  cases c with
  | top => rfl
  | bottom => trivial
  | nominal i x =>
    obtain ⟨rfl, hx, _⟩ := hc
    exact hx.root_implied

theorem Normal.implies_of_mem_supertypes (hw : (r.hierarchy id).WellFormed) {c : Constraint}
    (hc : c.Normal r id p) {t u : String} (ht : c.Implies r id t)
    (hu : u ∈ (r.hierarchy id).supertypes t) : c.Implies r id u := by
  cases c with
  | top =>
    obtain rfl : t = (r.hierarchy id).root := ht
    exact hw.eq_root_of_mem_supertypes_root hu
  | bottom => trivial
  | nominal i x =>
    obtain ⟨rfl, _, _⟩ := hc
    exact Nominal.implied_of_mem_supertypes hw ht hu

theorem bounds_covers_iff {names : List String} {c : Constraint}
    (hnames : Nominal.Reduced (r.hierarchy id) names) (hc : c.Normal r id p) :
    (nominal id (.bounds names)).covers r c = true ↔ ∀ name ∈ names, c.Implies r id name := by
  cases c with
  | top =>
    obtain ⟨b, hb⟩ := List.exists_mem_of_ne_nil _ hnames.ne_nil
    simp only [covers, Bool.false_eq_true, false_iff]
    intro h
    exact hnames.root_notMem ((show b = _ from h b hb) ▸ hb)
  | bottom => simp [covers, Implies]
  | nominal i x =>
    obtain ⟨rfl, _, _⟩ := hc
    simp [covers, Nominal.covers, Implies]

/-- A constraint implies bounds exactly if it implies the reduced ones. -/
theorem forall_implies_iff (hw : (r.hierarchy id).WellFormed) {c : Constraint}
    (hc : c.Normal r id p) (names : List String) :
    (∀ name ∈ names, c.Implies r id name) ↔
      ∀ name ∈ reducedBounds (r.hierarchy id) names, c.Implies r id name := by
  constructor
  · intro h name hname
    exact h name (mem_of_mem_reducedBounds hname).1
  · intro h name hname
    by_cases hroot : name = (r.hierarchy id).root
    · rw [hroot]
      exact hc.implies_root
    · obtain ⟨b, hb, hnb⟩ := exists_mem_reducedBounds hw hname hroot
      exact hc.implies_of_mem_supertypes hw (h b hb) hnb

/-- The constraint of some bounds is the greatest one that implies them. -/
theorem ofBounds_covers_iff (hw : (r.hierarchy id).WellFormed) {c : Constraint}
    (hc : c.Normal r id p) (names : List String) :
    (ofBounds r id names).covers r c = true ↔ ∀ name ∈ names, c.Implies r id name := by
  rw [forall_implies_iff hw hc]
  have hroot {name : String} (hname : name ∈ reducedBounds (r.hierarchy id) names) :
      name ≠ (r.hierarchy id).root := (mem_of_mem_reducedBounds hname).2
  have hnormal : (ofBounds r id names).Normal r id fun _ => True :=
    normal_ofBounds fun _ _ _ => trivial
  have hform := boundsForm_ofBounds r id names
  generalize ofBounds r id names = bounds at hform hnormal ⊢
  cases hform with
  | none h => simp [h]
  | classes ha hb hac hbc hne =>
    -- Two classes that a constraint implies are comparable, but reduced bounds are not.
    match c, hc with
    | .top, _ => exact iff_of_false Bool.false_ne_true fun h => hroot ha (h _ ha)
    | .bottom, _ => exact iff_of_true rfl fun _ _ => trivial
    | .nominal _ x, ⟨rfl, hx, _⟩ =>
      apply iff_of_false Bool.false_ne_true
      intro h
      rcases hx.classes_comparable hw (h _ ha) hac (hroot ha) (h _ hb) hbc (hroot hb) with hab | hba
      · exact hne (eq_of_mem_reducedBounds ha hb hab)
      · exact hne (eq_of_mem_reducedBounds hb ha hba).symm
  | @final f h hfc hff =>
    rw [h] at hroot ⊢
    have hf : f ≠ (r.hierarchy id).root := hroot (List.mem_singleton_self f)
    simp only [List.mem_singleton, forall_eq]
    match c, hc with
    | .top, _ => exact iff_of_false Bool.false_ne_true hf
    | .bottom, _ => exact iff_of_true rfl trivial
    | .nominal _ x, ⟨rfl, hx, _⟩ =>
      constructor
      · intro h
        have hxf : x = .exact f := by simpa [covers, Nominal.covers] using h
        rw [hxf]
        exact Hierarchy.mem_supertypes_self _ _
      · intro h
        rw [hx.eq_exact_of_final_implied hw h hfc hff hf]
        exact covers_self r _
  | @finalAmong f b hf hb hfc hff hne =>
    -- Only the exact class implies a final class, and it implies no other reduced bound.
    match c, hc with
    | .top, _ => exact iff_of_false Bool.false_ne_true fun h => hroot hf (h _ hf)
    | .bottom, _ => exact iff_of_true rfl fun _ _ => trivial
    | .nominal _ x, ⟨rfl, hx, _⟩ =>
      apply iff_of_false Bool.false_ne_true
      intro h
      have hxb := h b hb
      rw [hx.eq_exact_of_final_implied hw (h f hf) hfc hff (hroot hf)] at hxb
      exact hne (eq_of_mem_reducedBounds hb hf hxb)
  | bounds hne hmem hasc hone hfinal =>
    rw [bounds_covers_iff hnormal.2.1 hc]
    simp only [hmem]

theorem implies_of_covers (hw : (r.hierarchy id).WellFormed) {x y : Constraint}
    (hx : x.Normal r id p) (hy : y.Normal r id p) (hxy : x.covers r y = true) {name : String}
    (hname : x.Implies r id name) : y.Implies r id name := by
  match x, y with
  | .top, _ =>
    obtain rfl : name = (r.hierarchy id).root := hname
    exact hy.implies_root
  | _, .bottom => trivial
  | .bottom, .top => exact Bool.noConfusion hxy
  | .bottom, .nominal _ _ => exact Bool.noConfusion hxy
  | .nominal _ _, .top => exact Bool.noConfusion hxy
  | .nominal _ (.exact a), .nominal _ y =>
    simp only [covers, Nominal.covers, Bool.and_eq_true, beq_iff_eq] at hxy
    rw [← hxy.1, hxy.2]
    exact hname
  | .nominal _ (.bounds names), .nominal _ y =>
    obtain ⟨rfl, hreduced, _⟩ := hx
    obtain ⟨b, hb, hnb⟩ := Nominal.mem_implied_iff.1 hname
    exact hy.implies_of_mem_supertypes hw ((bounds_covers_iff hreduced hy).1 hxy b hb) hnb

theorem covers_trans (hw : (r.hierarchy id).WellFormed) {x y z : Constraint}
    (hx : x.Normal r id p) (hy : y.Normal r id p) (hz : z.Normal r id p)
    (hxy : x.covers r y = true) (hyz : y.covers r z = true) : x.covers r z = true := by
  match x, y with
  | .top, _ => rfl
  | .bottom, .bottom => exact hyz
  | .bottom, .top => exact Bool.noConfusion hxy
  | .bottom, .nominal _ _ => exact Bool.noConfusion hxy
  | .nominal _ _, .top => exact Bool.noConfusion hxy
  | .nominal _ x, .bottom =>
    rw [isBottom_iff.1 hyz]
    exact covers_bottom r _
  | .nominal _ (.exact a), .nominal _ y =>
    simp only [covers, Nominal.covers, Bool.and_eq_true, beq_iff_eq] at hxy
    rw [← hxy.1, hxy.2] at hyz
    exact hyz
  | .nominal _ (.bounds names), .nominal _ y =>
    obtain ⟨rfl, hreduced, _⟩ := hx
    rw [bounds_covers_iff hreduced hy] at hxy
    rw [bounds_covers_iff hreduced hz]
    intro b hb
    exact implies_of_covers hw hy hz hyz (hxy b hb)

/-- Two constraints in normal form that cover each other are the same one. -/
theorem covers_antisymm (hw : (r.hierarchy id).WellFormed) {x y : Constraint}
    (hx : x.Normal r id p) (hy : y.Normal r id p) (hxy : x.covers r y = true)
    (hyx : y.covers r x = true) : x = y := by
  match x, y with
  | .top, .top => rfl
  | .bottom, .bottom => rfl
  | .top, .bottom => exact Bool.noConfusion hyx
  | .top, .nominal _ _ => exact Bool.noConfusion hyx
  | .bottom, .top => exact Bool.noConfusion hxy
  | .bottom, .nominal _ _ => exact Bool.noConfusion hxy
  | .nominal _ _, .top => exact Bool.noConfusion hxy
  | .nominal _ _, .bottom => exact Bool.noConfusion hyx
  | .nominal _ (.exact a), .nominal _ y =>
    simp only [covers, Nominal.covers, Bool.and_eq_true, beq_iff_eq] at hxy
    rw [← hxy.1, hxy.2]
  | .nominal _ x, .nominal _ (.exact b) =>
    simp only [covers, Nominal.covers, Bool.and_eq_true, beq_iff_eq] at hyx
    rw [← hyx.1, hyx.2]
  | .nominal _ (.bounds xs), .nominal _ (.bounds ys) =>
    have hxs := hx.2.1
    have hys := hy.2.1
    obtain rfl := hx.1
    obtain rfl := hy.1
    rw [bounds_covers_iff hxs hy] at hxy
    rw [bounds_covers_iff hys hx] at hyx
    -- Both lists ascend, so it is enough that they have the same members.
    have hxs' : ∀ a ∈ xs, a ∈ ys := hxs.subset hw
      (fun a ha => Nominal.mem_implied_iff.1 (hxy a ha))
      (fun b hb => Nominal.mem_implied_iff.1 (hyx b hb))
    have hys' : ∀ b ∈ ys, b ∈ xs := hys.subset hw
      (fun b hb => Nominal.mem_implied_iff.1 (hyx b hb))
      (fun a ha => Nominal.mem_implied_iff.1 (hxy a ha))
    rw [Text.eq_of_ascending hxs.ascending hys.ascending fun a => ⟨hxs' a, hys' a⟩]

end

/-! ## Joins and meets -/

section

variable {r : Registry} {id : HierarchyId} {p : String → Prop}

/-- The join of two requirements: an exact class joined with itself, or the bounds that both imply,
where the requirements differ or neither is an exact class. -/
theorem join_nominal_cases (r : Registry) (id : HierarchyId) (x y : Nominal) :
    (x = y ∧ (nominal id x).join r (nominal id y) = nominal id x) ∨
      ((∀ a, x = .exact a → y ≠ .exact a) ∧ (nominal id x).join r (nominal id y) =
        ofBounds r id (Nominal.common (r.hierarchy id) x y)) := by
  cases x with
  | exact a =>
    cases y with
    | exact b =>
      by_cases hab : a = b
      · exact .inl ⟨by rw [hab], by simp [join, hab]⟩
      · refine .inr ⟨?_, by simp [join, hab]⟩
        intro c hc hb
        exact hab ((Nominal.exact.inj hc).trans (Nominal.exact.inj hb).symm)
    | bounds ys => exact .inr ⟨fun _ _ hb => Nominal.noConfusion hb, by simp [join]⟩
  | bounds xs => exact .inr ⟨fun _ ha => Nominal.noConfusion ha, by simp [join]⟩

theorem mem_common_iff {h : Hierarchy} {x y : Nominal} {name : String} :
    name ∈ Nominal.common h x y ↔ name ∈ x.implied h ∧ name ∈ y.implied h := by
  simp [Nominal.common]

/-- A join is an operand, or made of names that lie above those of the first one. -/
theorem join_forms (hs : (r.hierarchy id).Spelled p) {x y : Constraint} (hx : x.Over id p)
    (hy : y.Over id p) : x.join r y = x ∨ x.join r y = y ∨
      ∃ names, (∀ name ∈ names, name ≠ (r.hierarchy id).root → p name) ∧
        x.join r y = ofBounds r id names := by
  match x, y with
  | .top, _ => exact .inl rfl
  | .bottom, _ => exact .inr (.inl rfl)
  | .nominal _ _, .bottom => exact .inl rfl
  | .nominal _ _, .top => exact .inr (.inl rfl)
  | .nominal i x, .nominal j y =>
    obtain rfl := hx.1
    obtain rfl := hy.1
    rcases join_nominal_cases r j x y with ⟨_, hjoin⟩ | ⟨_, hjoin⟩
    · exact .inl hjoin
    · refine .inr (.inr ⟨_, ?_, hjoin⟩)
      intro t ht hroot
      obtain ⟨name, hname, hnt⟩ := Nominal.mem_implied_iff.1 (mem_common_iff.1 ht).1
      exact hs.of_mem_supertypes (hx.2.2 name hname) hnt hroot

theorem normal_join (hs : (r.hierarchy id).Spelled p) {x y : Constraint}
    (hx : x.Normal r id p) (hy : y.Normal r id p) : (x.join r y).Normal r id p := by
  rcases join_forms hs hx.over hy.over with hjoin | hjoin | ⟨names, hnames, hjoin⟩
  · rw [hjoin]
    exact hx
  · rw [hjoin]
    exact hy
  · rw [hjoin]
    exact normal_ofBounds hnames

/-- The join is the least constraint that covers both. -/
theorem covers_join_iff (hw : (r.hierarchy id).WellFormed) {x y z : Constraint}
    (hx : x.Normal r id p) (hy : y.Normal r id p) (hz : z.Normal r id p) :
    z.covers r (x.join r y) = true ↔ z.covers r x = true ∧ z.covers r y = true := by
  match x, y with
  | .top, _ =>
    refine ⟨fun h => ⟨h, ?_⟩, And.left⟩
    match z, h with
    | .top, _ => rfl
  | .bottom, _ => exact ⟨fun h => ⟨covers_bottom r z, h⟩, And.right⟩
  | .nominal _ _, .bottom => exact ⟨fun h => ⟨h, covers_bottom r z⟩, And.left⟩
  | .nominal _ _, .top =>
    refine ⟨fun h => ⟨?_, h⟩, And.right⟩
    match z, h with
    | .top, _ => rfl
  | .nominal i x, .nominal j y =>
    obtain rfl := hx.1
    obtain rfl := hy.1
    rcases join_nominal_cases r j x y with ⟨rfl, hjoin⟩ | ⟨hne, hjoin⟩
    · rw [hjoin, and_self]
    rw [hjoin]
    have hnormal : (ofBounds r j (Nominal.common (r.hierarchy j) x y)).Normal r j fun _ => True :=
      normal_ofBounds fun _ _ _ => trivial
    have hjx := (ofBounds_covers_iff hw hx (Nominal.common (r.hierarchy j) x y)).2
      fun name hname => (mem_common_iff.1 hname).1
    have hjy := (ofBounds_covers_iff hw hy (Nominal.common (r.hierarchy j) x y)).2
      fun name hname => (mem_common_iff.1 hname).2
    constructor
    · intro hzj
      have hx' := hx.weaken
      have hy' := hy.weaken
      have hz' := hz.weaken
      exact ⟨covers_trans hw hz' hnormal hx' hzj hjx, covers_trans hw hz' hnormal hy' hzj hjy⟩
    · rintro ⟨hzx, hzy⟩
      match z, hz with
      | .top, _ => rfl
      | .bottom, _ => exact Bool.noConfusion hzx
      | .nominal _ (.exact a), _ =>
        -- An exact class covers nothing but itself.
        simp only [covers, Nominal.covers, Bool.and_eq_true, beq_iff_eq] at hzx hzy
        exact absurd hzy.2 (hne a hzx.2)
      | .nominal _ (.bounds zs), hz =>
        obtain rfl := hz.1
        have hreduced := hz.2.1
        rw [bounds_covers_iff hreduced hx] at hzx
        rw [bounds_covers_iff hreduced hy] at hzy
        rw [bounds_covers_iff hreduced hnormal]
        intro b hb
        -- The bound is implied by both, so the join requires it.
        have hmem := mem_common_iff.2 ⟨hzx b hb, hzy b hb⟩
        exact (ofBounds_covers_iff hw hnormal _).1 (covers_self r _) b hmem

theorem join_covers (hw : (r.hierarchy id).WellFormed) {x y : Constraint}
    (hx : x.Normal r id p) (hy : y.Normal r id p) :
    (x.join r y).covers r x = true ∧ (x.join r y).covers r y = true := by
  have hnormal : (x.join r y).Normal r id fun _ => True :=
    normal_join (fun _ _ _ => trivial) hx.weaken hy.weaken
  exact (covers_join_iff hw hx.weaken hy.weaken hnormal).1 (covers_self r _)

/-- A constraint that covers another one is their join. -/
theorem join_eq_left (hw : (r.hierarchy id).WellFormed) {x y : Constraint}
    (hx : x.Normal r id p) (hy : y.Normal r id p) (hxy : x.covers r y = true) :
    x.join r y = x := by
  have hnormal : (x.join r y).Normal r id fun _ => True :=
    normal_join (fun _ _ _ => trivial) hx.weaken hy.weaken
  have hcovers := (covers_join_iff hw hx hy hx).2 ⟨covers_self r x, hxy⟩
  exact covers_antisymm hw hnormal hx.weaken (join_covers hw hx hy).1 hcovers

theorem join_comm (hw : (r.hierarchy id).WellFormed) {x y : Constraint}
    (hx : x.Normal r id p) (hy : y.Normal r id p) : x.join r y = y.join r x := by
  have hnormal {x y : Constraint} (hx : x.Normal r id p) (hy : y.Normal r id p) :
      (x.join r y).Normal r id fun _ => True :=
    normal_join (fun _ _ _ => trivial) hx.weaken hy.weaken
  have hxy := hnormal hx hy
  have hyx := hnormal hy hx
  refine covers_antisymm hw hxy hyx ?_ ?_
  · exact (covers_join_iff hw hy.weaken hx.weaken hxy).2 (join_covers hw hx hy).symm
  · exact (covers_join_iff hw hx.weaken hy.weaken hyx).2 (join_covers hw hy hx).symm

theorem exactWithin_eq (r : Registry) (id : HierarchyId) (name : String) (names : List String) :
    exactWithin r id name names = exactly id name ∨ exactWithin r id name names = bottom := by
  unfold exactWithin
  split
  · exact .inl rfl
  · exact .inr rfl

theorem exactWithin_covers_iff {name : String} {names : List String} {c : Constraint}
    (hnames : Nominal.Reduced (r.hierarchy id) names) (hc : c.Normal r id p) :
    (exactWithin r id name names).covers r c = true ↔
      (exactly id name).covers r c = true ∧ (nominal id (.bounds names)).covers r c = true := by
  match c with
  | .top =>
    refine iff_of_false ?_ fun h => Bool.noConfusion h.1
    intro h
    unfold exactWithin at h
    split at h <;> exact Bool.noConfusion h
  | .bottom => simp
  | .nominal j x =>
    obtain rfl := hc.1
    rw [bounds_covers_iff hnames hc]
    unfold exactWithin
    -- Of all requirements, the exact class covers only itself.
    by_cases hx : x = .exact name
    · subst hx
      have hmem : (names.all ((r.hierarchy j).isSubtype name) = true) ↔
          ∀ b ∈ names, Implies r j (nominal j (.exact name)) b := by
        simp [Hierarchy.isSubtype, Implies, Nominal.implied]
      rw [← hmem]
      split
      · next h => simp [exactly, h]
      · next h => simp [exactly, covers, h, isBottom]
    · have hnot : (exactly j name).covers r (nominal j x) = false := by
        simpa [exactly, covers, Nominal.covers] using hx
      rw [hnot]
      refine iff_of_false ?_ fun h => Bool.noConfusion h.1
      intro h
      split at h
      · exact Bool.noConfusion (hnot.symm.trans h)
      · exact Bool.noConfusion h

/-- A meet is an operand, `bottom`, or made of the names of both. -/
theorem meet_forms {x y : Constraint} (hx : x.Over id p) (hy : y.Over id p) :
    x.meet r y = x ∨ x.meet r y = y ∨ x.meet r y = bottom ∨
      ∃ names, (∀ name ∈ names, name ≠ (r.hierarchy id).root → p name) ∧
        x.meet r y = ofBounds r id names := by
  match x, y with
  | .top, _ => exact .inr (.inl rfl)
  | .bottom, _ => exact .inl rfl
  | .nominal _ _, .bottom => exact .inr (.inl rfl)
  | .nominal _ _, .top => exact .inl rfl
  | .nominal i (.exact a), .nominal j y =>
    obtain rfl := hx.1
    obtain rfl := hy.1
    cases y with
    | exact b =>
      by_cases hab : a = b
      · exact .inl (by simp [meet, hab, exactly])
      · exact .inr (.inr (.inl (by simp [meet, hab])))
    | bounds ys =>
      have hmeet : (nominal j (.exact a)).meet r (nominal j (.bounds ys)) =
          exactWithin r j a ys := by simp [meet]
      rcases exactWithin_eq r j a ys with h | h
      · exact .inl (hmeet.trans h)
      · exact .inr (.inr (.inl (hmeet.trans h)))
  | .nominal i (.bounds xs), .nominal j y =>
    obtain rfl := hx.1
    obtain rfl := hy.1
    cases y with
    | exact b =>
      have hmeet : (nominal j (.bounds xs)).meet r (nominal j (.exact b)) =
          exactWithin r j b xs := by simp [meet]
      rcases exactWithin_eq r j b xs with h | h
      · exact .inr (.inl (hmeet.trans h))
      · exact .inr (.inr (.inl (hmeet.trans h)))
    | bounds ys =>
      refine .inr (.inr (.inr ⟨xs ++ ys, ?_, by simp [meet]⟩))
      intro name hname _
      exact (List.mem_append.1 hname).elim (hx.2.2 name) (hy.2.2 name)

theorem normal_meet {x y : Constraint} (hx : x.Normal r id p) (hy : y.Normal r id p) :
    (x.meet r y).Normal r id p := by
  rcases meet_forms hx.over hy.over with hmeet | hmeet | hmeet | ⟨names, hnames, hmeet⟩
  · rw [hmeet]
    exact hx
  · rw [hmeet]
    exact hy
  · rw [hmeet]
    trivial
  · rw [hmeet]
    exact normal_ofBounds hnames

/-- The meet is the greatest constraint that both cover. -/
theorem meet_covers_iff (hw : (r.hierarchy id).WellFormed) {x y z : Constraint}
    (hx : x.Normal r id p) (hy : y.Normal r id p) (hz : z.Normal r id p) :
    (x.meet r y).covers r z = true ↔ x.covers r z = true ∧ y.covers r z = true := by
  match x, y with
  | .top, _ => simp
  | .nominal _ _, .top => simp [meet]
  | .bottom, _ =>
    refine ⟨fun h => ⟨h, ?_⟩, And.left⟩
    match z, h with
    | .bottom, _ => exact covers_bottom r _
  | .nominal _ _, .bottom =>
    refine ⟨fun h => ⟨?_, h⟩, And.right⟩
    match z, h with
    | .bottom, _ => exact covers_bottom r _
  | .nominal i x, .nominal j y =>
    obtain rfl := hx.1
    obtain rfl := hy.1
    have hxn := hx.2.1
    have hyn := hy.2.1
    match x, y with
    | .exact a, .exact b =>
      by_cases hab : a = b
      · simp [meet, hab, exactly]
      · simp only [meet, hab, ne_eq, not_true_eq_false, if_false]
        cases z with
        | top => simp [covers, isBottom]
        | bottom => simp
        | nominal i z =>
          apply iff_of_false Bool.false_ne_true
          intro h
          apply hab
          simp only [covers, Nominal.covers, Bool.and_eq_true, beq_iff_eq] at h
          exact Nominal.exact.inj (h.1.2.symm.trans h.2.2)
    | .exact a, .bounds ys =>
      have hmeet : (nominal j (.exact a)).meet r (nominal j (.bounds ys)) =
          exactWithin r j a ys := by simp [meet]
      rw [hmeet]
      exact exactWithin_covers_iff hyn hz
    | .bounds xs, .exact b =>
      have hmeet : (nominal j (.bounds xs)).meet r (nominal j (.exact b)) =
          exactWithin r j b xs := by simp [meet]
      rw [hmeet, and_comm]
      exact exactWithin_covers_iff hxn hz
    | .bounds xs, .bounds ys =>
      have hmeet : (nominal j (.bounds xs)).meet r (nominal j (.bounds ys)) =
          ofBounds r j (xs ++ ys) := by simp [meet]
      rw [hmeet, ofBounds_covers_iff hw hz, bounds_covers_iff hxn hz, bounds_covers_iff hyn hz]
      simp only [List.mem_append, or_imp, forall_and]

theorem covers_meet (hw : (r.hierarchy id).WellFormed) {x y : Constraint}
    (hx : x.Normal r id p) (hy : y.Normal r id p) :
    x.covers r (x.meet r y) = true ∧ y.covers r (x.meet r y) = true :=
  (meet_covers_iff hw hx hy (normal_meet hx hy)).1 (covers_self r _)

theorem meet_comm (hw : (r.hierarchy id).WellFormed) {x y : Constraint}
    (hx : x.Normal r id p) (hy : y.Normal r id p) : x.meet r y = y.meet r x := by
  refine covers_antisymm hw (normal_meet hx hy) (normal_meet hy hx) ?_ ?_
  · exact (meet_covers_iff hw hx hy (normal_meet hy hx)).2 (covers_meet hw hy hx).symm
  · exact (meet_covers_iff hw hy hx (normal_meet hx hy)).2 (covers_meet hw hx hy).symm

end

/-! ## Built constraints -/

/-- The constraints that one hierarchy and the algebra make, from names that `p` allows. -/
inductive Built (r : Registry) (id : HierarchyId) (p : String → Prop) : Constraint → Prop where
  | top : Built r id p top
  | bottom : Built r id p bottom
  | instanceOf {name : String} : p name → Built r id p (instanceOf r id name)
  | exactly {name : String} : p name → Built r id p (exactly id name)
  | join {x y : Constraint} : Built r id p x → Built r id p y → Built r id p (x.join r y)
  | meet {x y : Constraint} : Built r id p x → Built r id p y → Built r id p (x.meet r y)

theorem Built.normal {r : Registry} {id : HierarchyId} {p : String → Prop}
    (hs : (r.hierarchy id).Spelled p) {c : Constraint} (hc : Built r id p c) :
    c.Normal r id p := by
  induction hc with
  | top => trivial
  | bottom => trivial
  | instanceOf hname =>
    exact normal_ofBounds fun n hn _ => (List.mem_singleton.1 hn) ▸ hname
  | exactly hname => exact ⟨rfl, trivial, fun n hn => (List.mem_singleton.1 hn) ▸ hname⟩
  | join _ _ hx hy => exact normal_join hs hx hy
  | meet _ _ hx hy => exact normal_meet hx hy

end Constraint

end ValueLattice
