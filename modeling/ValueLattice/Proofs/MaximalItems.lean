import Mathlib.Data.List.FinRange
import ValueLattice.Proofs.Antichains

/-!
# Maximal items of a preorder

Where `subsumes` is reflexive and transitive only, some items may subsume each other, and a reduction
leaves the last one of them.

* `Stays`: no other item is strictly above the one at a position, and no later one is equivalent;
* `sift_eq_staying`: a reduction decides for each item by all items of the list, although those that
  were dropped before are not compared with it any more;
* `maximal_eq_filter`: so it leaves exactly the items at the positions that stay;
* `reduction_keeps_maximal`: these subsume each other nowhere, subsume everything together, and for a
  partial order do not depend on the order of the list.
-/

namespace ValueLattice.Antichain

section

variable {α : Type} (subsumes : α → α → Bool)

/-! ## Positions that stay -/

/-- Whether a list has no item strictly above the one at a position, and no later one that is
equivalent to it. -/
def Stays (items : List α) (i : Fin items.length) : Prop :=
  (∀ j : Fin items.length, subsumes items[i] items[j] = true → subsumes items[j] items[i] = true) ∧
    ∀ j : Fin items.length, i < j →
      ¬(subsumes items[i] items[j] = true ∧ subsumes items[j] items[i] = true)

instance (items : List α) : DecidablePred (Stays subsumes items) := fun i =>
  inferInstanceAs (Decidable ((∀ _ : Fin items.length, _) ∧ ∀ j : Fin items.length, i < j → _))

/-- Whether an item stays between the items before it and those behind it: one before it may be
equivalent to it, one behind it does not subsume it. -/
def StaysBetween (before : List α) (a : α) (behind : List α) : Prop :=
  (∀ b ∈ before, subsumes a b = true → subsumes b a = true) ∧ ∀ b ∈ behind, subsumes a b = false

instance (before : List α) (a : α) (behind : List α) :
    Decidable (StaysBetween subsumes before a behind) :=
  inferInstanceAs (Decidable (_ ∧ _))

/-- The items of the second list that stay in both lists together. -/
def staying (before : List α) : List α → List α
  | [] => []
  | a :: rest =>
    if StaysBetween subsumes before a rest then a :: staying (before ++ [a]) rest
    else staying (before ++ [a]) rest

variable {subsumes}

theorem stays_iff {items : List α} {i : Fin items.length} :
    Stays subsumes items i ↔
      StaysBetween subsumes (items.take i) items[i] (items.drop (i + 1)) := by
  constructor
  · rintro ⟨habove, hlater⟩
    constructor
    · intro b hb
      obtain ⟨j, hj, rfl⟩ := List.mem_take_iff_getElem.1 hb
      exact habove ⟨j, by omega⟩
    · intro b hb
      obtain ⟨j, hj, rfl⟩ := List.mem_drop_iff_getElem.1 hb
      rw [← Bool.not_eq_true]
      intro hij
      exact hlater ⟨i + 1 + j, by omega⟩ (Fin.lt_def.2 (by simp only; omega)) ⟨hij, habove _ hij⟩
  · rintro ⟨hbefore, hbehind⟩
    have hlater (j : Fin items.length) (hij : i < j) : subsumes items[i] items[j] = false := by
      refine hbehind _ (List.mem_drop_iff_getElem.2 ⟨j - (i + 1), ?_, ?_⟩)
      · omega
      · congr 1
        omega
    refine ⟨fun j hij => ?_, fun j hij hboth => ?_⟩
    · rcases Nat.lt_trichotomy i j with h | h | h
      · rw [hlater j h] at hij
        exact Bool.noConfusion hij
      · obtain rfl := Fin.ext h
        exact hij
      · exact hbefore _ (List.mem_take_iff_getElem.2 ⟨j, by omega, rfl⟩) hij
    · rw [hlater j hij] at hboth
      exact Bool.noConfusion hboth.1

/-- The items that stay are those at the positions that stay. -/
theorem staying_eq (before rest : List α) :
    staying subsumes before rest =
      ((List.finRange rest.length).filter fun i : Fin rest.length =>
        StaysBetween subsumes (before ++ rest.take i) rest[i] (rest.drop (i + 1))).map rest.get := by
  induction rest generalizing before with
  | nil => rfl
  | cons a rest ih =>
    have hbehind := ih (before ++ [a])
    simp only [List.append_assoc, List.singleton_append] at hbehind
    rw [staying, hbehind]
    simp only [List.length_cons, List.finRange_succ, List.filter_cons, List.filter_map]
    -- the first position is the one of `a`, the others are those of `rest`, one further
    split
    · next hstays =>
      rw [if_pos (by simpa using hstays), List.map_cons, List.map_map]
      rfl
    · next hstays =>
      rw [if_neg (by simpa using hstays), List.map_map]
      rfl

/-! ## Reductions -/

/-- Whether an item is dropped may be decided with or without the items that were dropped before:
each of these is subsumed by one that was kept or is still to come. -/
theorem any_subsumes_iff
    (htrans : ∀ a b c, subsumes a b = true → subsumes b c = true → subsumes a c = true)
    {before kept rest : List α} {a : α} (hsub : ∀ k ∈ kept, k ∈ before)
    (hcovered : ∀ b ∈ before, ∃ c ∈ kept ++ a :: rest, subsumes b c = true)
    (hkept : ∀ k ∈ kept, subsumes k a = false) :
    (kept ++ rest).any (subsumes a) = true ↔ ¬StaysBetween subsumes before a rest := by
  constructor
  · rintro hany ⟨hbefore, hbehind⟩
    obtain ⟨c, hc, hac⟩ := List.any_eq_true.1 hany
    rcases List.mem_append.1 hc with hc | hc
    · -- what was kept is not subsumed by the item, so it is strictly above it
      have hca := hbefore c (hsub c hc) hac
      rw [hkept c hc] at hca
      exact Bool.noConfusion hca
    · rw [hbehind c hc] at hac
      exact Bool.noConfusion hac
  · intro hnot
    by_contra hnone
    have hfalse : ∀ c ∈ kept ++ rest, subsumes a c = false := by
      simpa only [List.any_eq_true, not_exists, not_and, Bool.not_eq_true] using hnone
    refine hnot ⟨fun b hb hab => ?_, fun b hb => hfalse b (List.mem_append_right _ hb)⟩
    obtain ⟨c, hc, hbc⟩ := hcovered b hb
    have hac := htrans _ _ _ hab hbc
    rcases List.mem_append.1 hc with hc | hc
    · rw [hfalse c (List.mem_append_left _ hc)] at hac
      exact Bool.noConfusion hac
    · rcases List.mem_cons.1 hc with rfl | hc
      · exact hbc
      · rw [hfalse c (List.mem_append_right _ hc)] at hac
        exact Bool.noConfusion hac

/-- A reduction keeps the items that stay, as long as the items before were reduced to those that
are kept. -/
theorem sift_eq_staying (hrefl : ∀ a, subsumes a a = true)
    (htrans : ∀ a b c, subsumes a b = true → subsumes b c = true → subsumes a c = true)
    {before kept rest : List α} (hsub : ∀ k ∈ kept, k ∈ before)
    (hcovered : ∀ b ∈ before, ∃ c ∈ kept ++ rest, subsumes b c = true)
    (hkept : ∀ k ∈ kept, ∀ b ∈ rest, subsumes k b = false) :
    sift subsumes kept rest = kept ++ staying subsumes before rest := by
  induction rest generalizing before kept with
  | nil => exact (List.append_nil kept).symm
  | cons a rest ih =>
    have hdrop := any_subsumes_iff htrans hsub hcovered fun k hk => hkept k hk a List.mem_cons_self
    have hrest : ∀ k ∈ kept, ∀ b ∈ rest, subsumes k b = false :=
      fun k hk b hb => hkept k hk b (List.mem_cons_of_mem a hb)
    rw [sift_cons, staying]
    by_cases hany : (kept ++ rest).any (subsumes a) = true
    · rw [if_pos hany, if_neg (hdrop.1 hany)]
      obtain ⟨d, hd, had⟩ := List.any_eq_true.1 hany
      refine ih (fun k hk => List.mem_append_left _ (hsub k hk)) (fun b hb => ?_) hrest
      rcases List.mem_append.1 hb with hb | hb
      · obtain ⟨c, hc, hbc⟩ := hcovered b hb
        rcases List.mem_append.1 hc with hc | hc
        · exact ⟨c, List.mem_append_left _ hc, hbc⟩
        · rcases List.mem_cons.1 hc with rfl | hc
          · exact ⟨d, hd, htrans _ _ _ hbc had⟩
          · exact ⟨c, List.mem_append_right _ hc, hbc⟩
      · exact ⟨d, hd, List.mem_singleton.1 hb ▸ had⟩
    · have hstays : StaysBetween subsumes before a rest := not_not.1 fun h => hany (hdrop.2 h)
      have hsub' : ∀ k ∈ kept ++ [a], k ∈ before ++ [a] := by
        intro k hk
        rcases List.mem_append.1 hk with hk | hk
        · exact List.mem_append_left _ (hsub k hk)
        · exact List.mem_append_right _ hk
      have hcovered' : ∀ b ∈ before ++ [a], ∃ c ∈ kept ++ [a] ++ rest, subsumes b c = true := by
        intro b hb
        rcases List.mem_append.1 hb with hb | hb
        · simpa using hcovered b hb
        · rw [List.mem_singleton.1 hb]
          exact ⟨a, by simp, hrefl a⟩
      have hkept' : ∀ k ∈ kept ++ [a], ∀ b ∈ rest, subsumes k b = false := by
        intro k hk
        rcases List.mem_append.1 hk with hk | hk
        · exact hrest k hk
        · rw [List.mem_singleton.1 hk]
          exact hstays.2
      rw [if_neg hany, if_pos hstays, ih hsub' hcovered' hkept', List.append_assoc,
        List.singleton_append]

/-- A preorder leaves exactly the items at the positions that stay. -/
theorem maximal_eq_filter (hrefl : ∀ a, subsumes a a = true)
    (htrans : ∀ a b c, subsumes a b = true → subsumes b c = true → subsumes a c = true)
    (items : List α) :
    maximal subsumes items =
      ((List.finRange items.length).filter (Stays subsumes items)).map items.get := by
  have hnothing : ∀ b ∈ ([] : List α), ∃ c ∈ [] ++ items, subsumes b c = true :=
    fun b hb => absurd hb List.not_mem_nil
  rw [maximal_eq_sift, sift_eq_staying hrefl htrans (fun k hk => absurd hk List.not_mem_nil) hnothing
    fun k hk => absurd hk List.not_mem_nil, List.nil_append, staying_eq]
  simp only [List.nil_append, ← stays_iff]

theorem nodup_maximal (hrefl : ∀ a, subsumes a a = true) (items : List α) :
    (maximal subsumes items).Nodup := by
  refine (pairwise_maximal items).imp fun {a b} hab heq => ?_
  rw [heq, hrefl] at hab
  exact Bool.noConfusion hab.1

/-- What a partial order on the items leaves does not depend on their order. -/
theorem maximal_perm (hrefl : ∀ a, subsumes a a = true)
    (htrans : ∀ a b c, subsumes a b = true → subsumes b c = true → subsumes a c = true)
    {items items' : List α}
    (hantisymm : ∀ a ∈ items, ∀ b ∈ items, subsumes a b = true → subsumes b a = true → a = b)
    (hperm : items'.Perm items) : (maximal subsumes items').Perm (maximal subsumes items) := by
  have hantisymm' : ∀ a ∈ items', ∀ b ∈ items', subsumes a b = true → subsumes b a = true → a = b :=
    fun a ha b hb => hantisymm a (hperm.mem_iff.1 ha) b (hperm.mem_iff.1 hb)
  rw [List.perm_ext_iff_of_nodup (nodup_maximal hrefl items') (nodup_maximal hrefl items)]
  intro a
  simp only [mem_maximal_iff hrefl htrans hantisymm, mem_maximal_iff hrefl htrans hantisymm',
    hperm.mem_iff]

/-- A reduction by a reflexive and transitive relation leaves, in their order, the items at the
positions that stay. None of them subsumes another one, every item is subsumed by one of them, and
for a partial order on the items the same ones are left of every rearrangement. -/
theorem reduction_keeps_maximal (hrefl : ∀ a, subsumes a a = true)
    (htrans : ∀ a b c, subsumes a b = true → subsumes b c = true → subsumes a c = true)
    (items : List α) :
    (ofList subsumes none items).stopped = false ∧
      (ofList subsumes none items).items =
        ((List.finRange items.length).filter (Stays subsumes items)).map items.get ∧
      (ofList subsumes none items).items.Pairwise
        (fun a b => subsumes a b = false ∧ subsumes b a = false) ∧
      (∀ a ∈ items, ∃ b ∈ (ofList subsumes none items).items, subsumes a b = true) ∧
      ((∀ a ∈ items, ∀ b ∈ items, subsumes a b = true → subsumes b a = true → a = b) →
        ∀ items' : List α, items'.Perm items →
          (ofList subsumes none items').items.Perm (ofList subsumes none items).items) :=
  ⟨stopped_ofList_none items, maximal_eq_filter hrefl htrans items,
    pairwise_maximal items, fun _ ha => exists_mem_maximal subsumes hrefl htrans ha,
    fun hantisymm _ hperm => maximal_perm hrefl htrans hantisymm hperm⟩

end

/-- Whether the first integer divides the second one; an integer and its opposite divide each
other. -/
def divides (a b : Int) : Bool := decide (a ∣ b)

theorem divides_refl (a : Int) : divides a a = true := decide_eq_true (Int.dvd_refl a)

theorem divides_trans (a b c : Int) (hab : divides a b = true) (hbc : divides b c = true) :
    divides a c = true :=
  decide_eq_true (Int.dvd_trans (of_decide_eq_true hab) (of_decide_eq_true hbc))

theorem reduction_keeps_maximal_divisors :
    (∀ a, divides a a = true) ∧
      (∀ a b c, divides a b = true → divides b c = true → divides a c = true) ∧
      (∀ a ∈ [2, 3, -4, 9, 5], ∀ b ∈ [2, 3, -4, 9, 5],
        divides a b = true → divides b a = true → a = b) ∧
      List.Perm [9, 5, -4, 3, 2] [2, 3, -4, 9, 5] ∧
      (ofList divides none [2, 3, -4, 9, 5]).stopped = false ∧
      (ofList divides none [2, 3, -4, 9, 5]).items = [-4, 9, 5] ∧
      [-4, 9, 5].Pairwise (fun a b => divides a b = false ∧ divides b a = false) ∧
      (∀ a ∈ [2, 3, -4, 9, 5], ∃ b ∈ [-4, 9, 5], divides a b = true) ∧
      (ofList divides none [9, 5, -4, 3, 2]).items.Perm [-4, 9, 5] := by
  obtain ⟨hend, hitems, hpairwise, hcovered, hperm⟩ :=
    reduction_keeps_maximal divides_refl divides_trans [2, 3, -4, 9, 5]
  have hfilter : ((List.finRange 5).filter (Stays divides [2, 3, -4, 9, 5])).map
      [2, 3, -4, 9, 5].get = [-4, 9, 5] := by decide
  have hleft := hitems.trans hfilter
  have hantisymm : ∀ a ∈ [2, 3, -4, 9, 5], ∀ b ∈ [2, 3, -4, 9, 5],
      divides a b = true → divides b a = true → a = b := by decide
  have hrearranged : List.Perm [9, 5, -4, 3, 2] [2, 3, -4, 9, 5] := by decide
  rw [hleft] at hpairwise hcovered hperm
  exact ⟨divides_refl, divides_trans, hantisymm, hrearranged, hend, hleft, hpairwise, hcovered,
    hperm hantisymm _ hrearranged⟩

/-- Of integers that divide each other the last one is left. -/
example : maximal divides [2, -4, 3, 4] = [3, 4] := by decide

end ValueLattice.Antichain
