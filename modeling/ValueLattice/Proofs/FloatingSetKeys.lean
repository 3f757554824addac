import Mathlib.Data.List.Forall2
import ValueLattice.Proofs.FloatingSets

/-!
# Sets of floating-point numbers with equal keys

Numbers are told apart by their keys only, so the operations on sets of numbers do not distinguish
sets that are `Alike`.

* `map_sortByText_congr`: lists with the same keys are sorted into lists with the same keys;
* `Alike.contains_eq`, `Alike.covers_eq`: membership and the order;
* `Alike.join`, `Alike.meet?`, `Alike.negate?`: what the operations return is alike.
-/

namespace ValueLattice

namespace Text

variable {α : Type} {key : α → String}

theorem map_eq_map_iff {xs ys : List α} :
    xs.map key = ys.map key ↔ List.Forall₂ (fun x y => key x = key y) xs ys := by
  rw [← List.forall₂_eq_eq_eq, List.forall₂_map_left_iff, List.forall₂_map_right_iff]

theorem insertByText_congr {a b : α} (hab : key a = key b) {l m : List α}
    (h : List.Forall₂ (fun x y => key x = key y) l m) :
    List.Forall₂ (fun x y => key x = key y) (insertByText key a l) (insertByText key b m) := by
  induction h with
  | nil => exact .cons hab .nil
  | cons hxy htail ih =>
    simp only [insertByText, hab, hxy]
    split
    · exact .cons hab (.cons hxy htail)
    split
    · exact .cons hab htail
    · exact .cons hxy ih

theorem map_sortByText_congr {xs ys : List α} (h : xs.map key = ys.map key) :
    (sortByText key xs).map key = (sortByText key ys).map key := by
  rw [map_eq_map_iff] at h ⊢
  induction h with
  | nil => exact .nil
  | cons hxy _ ih => exact insertByText_congr hxy ih

end Text

namespace FloatingSet

theorem alike_refl (s : FloatingSet) : s.Alike s := by
  cases s with
  | any => exact .any
  | zeros => exact .zeros
  | only x => exact .only rfl
  | allBut xs => exact .allBut rfl

/-! ## Membership and the order -/

theorem any_same_congr {xs ys : List Double} (h : xs.map Double.key = ys.map Double.key)
    (z : Double) : xs.any (·.same z) = ys.any (·.same z) := by
  have hany (l : List Double) : l.any (·.same z) = (l.map Double.key).any (· == z.key) := by
    rw [List.any_map]
    rfl
  rw [hany, hany, h]

theorem Alike.contains_eq {s t : FloatingSet} (h : s.Alike t) (x : Double) :
    s.contains x = t.contains x := by
  cases h with
  | any => rfl
  | zeros => rfl
  | only h => simp only [contains, Double.same, h]
  | allBut h => simp only [contains, any_same_congr h]

theorem listedIn_same_congr {xs xs' ys ys' : List Double}
    (hxs : xs.map Double.key = xs'.map Double.key) (hys : ys.map Double.key = ys'.map Double.key) :
    listedIn Double.same xs ys = listedIn Double.same xs' ys' := by
  have hlisted (l m : List Double) : listedIn Double.same l m =
      (l.map Double.key).all fun k => (m.map Double.key).any (k == ·) := by
    simp only [listedIn, List.all_map, List.any_map]
    rfl
  rw [hlisted, hlisted, hxs, hys]

theorem Alike.covers_eq {s s' t t' : FloatingSet} (hs : s.Alike s') (ht : t.Alike t') :
    s.covers t = s'.covers t' := by
  cases ht with
  | any => cases hs <;> rfl
  | zeros =>
    show Double.zeros.all (s.contains ·) = Double.zeros.all (s'.contains ·)
    rw [funext hs.contains_eq]
  | only h => exact (hs.contains_eq _).trans (contains_congr h)
  | allBut h =>
    cases hs with
    | allBut h' => exact listedIn_same_congr h' h
    | _ => rfl

/-! ## Operations -/

theorem alike_excluding {xs ys : List Double} (h : xs.map Double.key = ys.map Double.key) :
    (excluding xs).Alike (excluding ys) := by
  have hsorted := Text.map_sortByText_congr h
  unfold excluding
  generalize Text.sortByText Double.key xs = l at hsorted
  generalize Text.sortByText Double.key ys = m at hsorted
  cases l with
  | nil =>
    obtain rfl := List.map_eq_nil_iff.1 hsorted.symm
    exact .any
  | cons x l =>
    cases m with
    | nil => exact nomatch hsorted
    | cons y m => exact .allBut hsorted

theorem map_filter_congr {xs ys : List Double} {s t : FloatingSet} (hst : s.Alike t)
    (h : xs.map Double.key = ys.map Double.key) :
    (xs.filter (!s.contains ·)).map Double.key = (ys.filter (!t.contains ·)).map Double.key := by
  refine Text.map_eq_map_iff.2 (List.rel_filter ?_ (Text.map_eq_map_iff.1 h))
  intro x y hxy
  show (!s.contains x) = true ↔ (!t.contains y) = true
  rw [hst.contains_eq, contains_congr hxy]

theorem Alike.joinApart {s s' t t' : FloatingSet} (hs : s.Alike s') (ht : t.Alike t') :
    (s.joinApart t).Alike (s'.joinApart t') := by
  cases hs with
  | allBut h => exact alike_excluding (map_filter_congr ht h)
  | any =>
    cases ht with
    | allBut h => exact alike_excluding (map_filter_congr .any h)
    | _ => exact .any
  | zeros =>
    cases ht with
    | allBut h => exact alike_excluding (map_filter_congr .zeros h)
    | _ => exact .any
  | only h =>
    cases ht with
    | allBut h' => exact alike_excluding (map_filter_congr (.only h) h')
    | only h' =>
      simp only [FloatingSet.joinApart, Double.isZero_eq_of_key_eq h, Double.isZero_eq_of_key_eq h']
      exact alike_refl _
    | _ => exact .any

theorem Alike.join {s s' t t' : FloatingSet} (hs : s.Alike s') (ht : t.Alike t') :
    (s.join t).Alike (s'.join t') := by
  unfold FloatingSet.join
  rw [hs.covers_eq ht, ht.covers_eq hs]
  split
  · exact hs
  split
  · exact ht
  · exact hs.joinApart ht

theorem Alike.zerosOf? {s t : FloatingSet} (h : s.Alike t) :
    Option.Rel Alike s.zerosOf? t.zerosOf? := by
  have heq : s.zerosOf? = t.zerosOf? := by
    unfold FloatingSet.zerosOf?
    rw [funext h.contains_eq]
  rw [heq]
  cases t.zerosOf? with
  | none => exact .none
  | some u => exact .some (alike_refl u)

theorem Alike.meetApart? {s s' t t' : FloatingSet} (hs : s.Alike s') (ht : t.Alike t') :
    Option.Rel Alike (s.meetApart? t) (s'.meetApart? t') := by
  cases hs with
  | allBut h =>
    cases ht with
    | allBut h' =>
      refine .some (alike_excluding ?_)
      rw [List.map_append, List.map_append, h, h']
    | zeros => exact (Alike.allBut h).zerosOf?
    | _ => exact .none
  | zeros => exact ht.zerosOf?
  | any =>
    cases ht with
    | zeros => exact Alike.any.zerosOf?
    | _ => exact .none
  | only h =>
    cases ht with
    | zeros => exact (Alike.only h).zerosOf?
    | _ => exact .none

theorem Alike.meet? {s s' t t' : FloatingSet} (hs : s.Alike s') (ht : t.Alike t') :
    Option.Rel Alike (s.meet? t) (s'.meet? t') := by
  unfold FloatingSet.meet?
  rw [hs.covers_eq ht, ht.covers_eq hs]
  split
  · exact .some ht
  split
  · exact .some hs
  · exact hs.meetApart? ht

theorem Alike.negate? {s t : FloatingSet} (h : s.Alike t) :
    Option.Rel Alike s.negate? t.negate? := by
  cases h with
  | any => exact .none
  | zeros => exact .some (alike_refl _)
  | only h =>
    refine .some (alike_excluding ?_)
    simp only [List.map_cons, List.map_nil, h]
  | allBut h =>
    -- What is returned depends on whether one, two or more numbers are excluded.
    cases Text.map_eq_map_iff.1 h with
    | nil => exact .none
    | cons hx htail =>
      cases htail with
      | nil => exact .some (.only hx)
      | cons hx' htail =>
        cases htail with
        | nil =>
          simp only [FloatingSet.negate?, Double.isZero_eq_of_key_eq hx,
            Double.isZero_eq_of_key_eq hx']
          split
          · exact .some .zeros
          · exact .none
        | cons _ _ => exact .none

end FloatingSet

end ValueLattice
