import Mathlib.Data.List.Pairwise
import Mathlib.Data.List.ReduceOption
import ValueLattice.Antichain

/-!
# What a reduction leaves

A run looks at one item after the other and compares it with the items kept before it and those
still behind it (`siftUntil`), and an item that a set does not find identical to itself, which we
call loose, with itself as well. `siftUntil_cons` says what one step does, and `siftUntil_none` what
a run leaves that nothing stops. In a list no item is loose, and the run drops an item exactly if
one of the others subsumes it (`maximal_eq_sift`). For a partial order on distinct items this leaves
the maximal ones:

* `Settled`: what has been kept so far stays, as nothing that it is compared with subsumes it;
* `mem_maximal_iff`: an item is left if nothing but itself subsumes it;
* `exists_mem_maximal`: every item is subsumed by one that is left.
-/

namespace ValueLattice.Antichain

/-! ## Steps -/

/-- Scans the slots of a collection for an item that subsumes `left`. In a slot that is `none` the
signal is looked at, and nothing is compared. -/
def scan {α : Type} (subsumes : α → α → Bool) (signal : Signal) (left : α) :
    List (Option α) → Nat → Verdict × List (α × α)
  | [], _ => (.kept, [])
  | slot :: slots, made =>
    if signal.fired made then (.stopped, [])
    else
      match slot with
      | none => scan subsumes signal left slots made
      | some right =>
        if subsumes left right then (.subsumed, [(left, right)])
        else
          let (verdict, calls) := scan subsumes signal left slots (made + 1)
          (verdict, (left, right) :: calls)

/-- The slots of `kept ++ a :: rest`, seen from `a`. -/
def slots {α : Type} (loose : α → Bool) (kept : List α) (a : α) (rest : List α) :
    List (Option α) :=
  kept.map some ++ (if loose a then some a else none) :: rest.map some

/-- The items of `kept ++ a :: rest` that `a` is compared with. -/
def compared {α : Type} (loose : α → Bool) (kept : List α) (a : α) (rest : List α) : List α :=
  kept ++ (if loose a then a :: rest else rest)

/-- The run on `kept ++ rest` when the items of `kept` stay and those of `rest` are still to be
looked at, after a number of comparisons that were made before. -/
def siftUntil {α : Type} (subsumes : α → α → Bool) (loose : α → Bool) (signal : Signal)
    (kept : List α) : List α → Nat → Run α
  | [], _ => ⟨kept, [], false⟩
  | a :: rest, made =>
    match scan subsumes signal a (slots loose kept a rest) made with
    | (.stopped, calls) => ⟨kept ++ a :: rest, calls, true⟩
    | (.subsumed, calls) =>
      (siftUntil subsumes loose signal kept rest (made + calls.length)).after calls
    | (.kept, calls) =>
      (siftUntil subsumes loose signal (kept ++ [a]) rest (made + calls.length)).after calls

/-- The items that are left of `kept ++ rest` when those of `kept` stay and those of `rest` are
still to be looked at. -/
def siftLoose {α : Type} (subsumes : α → α → Bool) (loose : α → Bool) (kept : List α) :
    List α → List α
  | [] => kept
  | a :: rest =>
    if (compared loose kept a rest).any (subsumes a) then siftLoose subsumes loose kept rest
    else siftLoose subsumes loose (kept ++ [a]) rest

/-- The items that are left of `kept ++ rest` when none of them is loose. -/
def sift {α : Type} (subsumes : α → α → Bool) (kept rest : List α) : List α :=
  siftLoose subsumes (fun _ => false) kept rest

section

variable {α : Type} {subsumes : α → α → Bool} {loose : α → Bool}

theorem mem_compared {kept rest : List α} {a b : α} :
    b ∈ compared loose kept a rest ↔ b ∈ kept ++ rest ∨ loose a = true ∧ b = a := by
  unfold compared
  split
  · next h => simp [h, or_left_comm, or_comm]
  · next h => simp [h]

theorem sift_nil (kept : List α) : sift subsumes kept [] = kept := rfl

theorem sift_cons (kept : List α) (a : α) (rest : List α) :
    sift subsumes kept (a :: rest) =
      if (kept ++ rest).any (subsumes a) then sift subsumes kept rest
      else sift subsumes (kept ++ [a]) rest := rfl

/-! ## Scans -/

/-- A scan that the signal does not stop answers whether one of the slots holds an item that
subsumes the given one. -/
theorem scan_fst (subsumes : α → α → Bool) (signal : Signal) (a : α) (slots : List (Option α))
    (made : Nat) :
    ((∃ n, signal.fired n = true) ∧ (scan subsumes signal a slots made).1 = .stopped) ∨
      (scan subsumes signal a slots made).1 =
        if slots.reduceOption.any (subsumes a) then .subsumed else .kept := by
  induction slots generalizing made with
  | nil => exact .inr rfl
  | cons slot slots ih =>
    cases hfired : signal.fired made with
    | true => exact .inl ⟨⟨made, hfired⟩, by simp [scan, hfired]⟩
    | false =>
      cases slot with
      | none => simpa [scan, hfired] using ih made
      | some b =>
        cases hb : subsumes a b with
        | true => exact .inr (by simp [scan, hfired, hb])
        | false => simpa [scan, hfired, hb] using ih (made + 1)

/-- A scan compares with the items in the slots, in their order, until it ends. -/
theorem scan_snd_prefix (subsumes : α → α → Bool) (signal : Signal) (a : α)
    (slots : List (Option α)) (made : Nat) :
    (scan subsumes signal a slots made).2 <+: slots.reduceOption.map (a, ·) := by
  induction slots generalizing made with
  | nil => exact List.nil_prefix
  | cons slot slots ih =>
    cases hfired : signal.fired made with
    | true => simp [scan, hfired]
    | false =>
      cases slot with
      | none => simpa [scan, hfired] using ih made
      | some b =>
        cases hb : subsumes a b with
        | true => simp [scan, hfired, hb]
        | false => simpa [scan, hfired, hb] using ih (made + 1)

theorem reduceOption_slots (kept : List α) (a : α) (rest : List α) :
    (slots loose kept a rest).reduceOption = compared loose kept a rest := by
  unfold slots compared
  split <;> simp [List.reduceOption]

/-- Behind the position of its own item the scan of a list compares with all items. -/
theorem scanAt_of_lt (signal : Signal) {left : α} {position index : Nat} (h : position < index)
    (items : List α) (made : Nat) :
    scanAt subsumes signal left position index items made =
      scan subsumes signal left (items.map some) made := by
  induction items generalizing index made with
  | nil => rfl
  | cons b items ih =>
    have hindex : index ≠ position := Nat.ne_of_gt h
    rw [scanAt, List.map_cons, scan, if_neg hindex, ih (Nat.lt_succ_of_lt h)]

/-- The scan of a list compares with the items before and behind its own one. -/
theorem scanAt_append (signal : Signal) {position index : Nat} (kept : List α) (a : α)
    (rest : List α) (h : position = index + kept.length) (made : Nat) :
    scanAt subsumes signal a position index (kept ++ a :: rest) made =
      scan subsumes signal a (slots (fun _ => false) kept a rest) made := by
  induction kept generalizing index made with
  | nil =>
    have hindex : index = position := h.symm
    rw [List.nil_append, scanAt, if_pos hindex, scanAt_of_lt signal (by omega)]
    rfl
  | cons b kept ih =>
    have hindex : index ≠ position := by
      rw [h, List.length_cons]
      omega
    have hposition : position = index + 1 + kept.length := by
      rw [h, List.length_cons]
      omega
    rw [List.cons_append, scanAt, if_neg hindex, ih hposition]
    rfl

/-! ## Runs -/

/-- What a run does with the item that it looks at next: it makes some of the comparisons that are
to be made, and then it is stopped, or it drops the item because one of the compared ones subsumes
it, or it keeps the item because none does. -/
theorem siftUntil_cons (subsumes : α → α → Bool) (loose : α → Bool) (signal : Signal)
    (kept : List α) (a : α) (rest : List α) (made : Nat) :
    ∃ calls, calls <+: (compared loose kept a rest).map (a, ·) ∧
      (((∃ n, signal.fired n = true) ∧
          siftUntil subsumes loose signal kept (a :: rest) made =
            ⟨kept ++ a :: rest, calls, true⟩) ∨
        ((compared loose kept a rest).any (subsumes a) = true ∧
          siftUntil subsumes loose signal kept (a :: rest) made =
            (siftUntil subsumes loose signal kept rest (made + calls.length)).after calls) ∨
        ((compared loose kept a rest).any (subsumes a) = false ∧
          siftUntil subsumes loose signal kept (a :: rest) made =
            (siftUntil subsumes loose signal (kept ++ [a]) rest (made + calls.length)).after
              calls)) := by
  have hcalls := scan_snd_prefix subsumes signal a (slots loose kept a rest) made
  have hverdict := scan_fst subsumes signal a (slots loose kept a rest) made
  rw [reduceOption_slots] at hcalls hverdict
  rw [siftUntil]
  rcases hscan : scan subsumes signal a (slots loose kept a rest) made with ⟨verdict, calls⟩
  rw [hscan] at hcalls hverdict
  refine ⟨calls, hcalls, ?_⟩
  rcases hverdict with ⟨hfired, rfl⟩ | rfl
  · exact .inl ⟨hfired, rfl⟩
  · cases (compared loose kept a rest).any (subsumes a) with
    | true => exact .inr (.inl ⟨rfl, rfl⟩)
    | false => exact .inr (.inr ⟨rfl, rfl⟩)

/-- Reducing a list by position looks at one item after the other: the cursor stands behind the kept
items. -/
theorem reduceFrom_eq_siftUntil (signal : Signal) (kept rest : List α) (made : Nat) :
    reduceFrom subsumes signal rest.length kept.length made (kept ++ rest) =
      siftUntil subsumes (fun _ => false) signal kept rest made := by
  induction rest generalizing kept made with
  | nil => simp [reduceFrom, siftUntil]
  | cons a rest ih =>
    have hget : (kept ++ a :: rest)[kept.length]? = some a := by simp
    have herase : (kept ++ a :: rest).eraseIdx kept.length = kept ++ rest := by
      rw [List.eraseIdx_append_of_length_le (Nat.le_refl _), Nat.sub_self]
      rfl
    have hscanAt : scanAt subsumes signal a kept.length 0 (kept ++ a :: rest) made =
        scan subsumes signal a (slots (fun _ => false) kept a rest) made :=
      scanAt_append signal kept a rest (Nat.zero_add _).symm made
    rw [List.length_cons, reduceFrom, hget, siftUntil, ← hscanAt]
    rcases hscan : scanAt subsumes signal a kept.length 0 (kept ++ a :: rest) made with
      ⟨verdict, calls⟩
    simp only [hscan]
    cases verdict with
    | stopped => rfl
    | subsumed => simp only [herase, ih kept]
    | kept =>
      have hkept := ih (kept ++ [a]) (made + calls.length)
      rw [List.length_append, List.append_assoc] at hkept
      exact congrArg (Run.after calls) hkept

theorem ofList_eq_siftUntil (signal : Signal) (items : List α) :
    ofList subsumes signal items = siftUntil subsumes (fun _ => false) signal [] items 0 :=
  reduceFrom_eq_siftUntil signal [] items 0

/-- A run leaves the items in their order. -/
theorem siftUntil_sublist (signal : Signal) (kept rest : List α) (made : Nat) :
    (siftUntil subsumes loose signal kept rest made).items.Sublist (kept ++ rest) := by
  induction rest generalizing kept made with
  | nil => simp [siftUntil]
  | cons a rest ih =>
    obtain ⟨calls, _, ⟨_, hrun⟩ | ⟨_, hrun⟩ | ⟨_, hrun⟩⟩ :=
      siftUntil_cons subsumes loose signal kept a rest made
    · rw [hrun]
    · rw [hrun]
      exact (ih kept _).trans (List.Sublist.append_left (List.sublist_cons_self a rest) kept)
    · have hkept := ih (kept ++ [a]) (made + calls.length)
      rw [List.append_assoc] at hkept
      rw [hrun]
      exact hkept

/-! ## Runs without a signal -/

/-- A run that has no signal goes on to its end and leaves what `siftLoose` leaves. -/
theorem siftUntil_none (kept rest : List α) (made : Nat) :
    (siftUntil subsumes loose none kept rest made).stopped = false ∧
      (siftUntil subsumes loose none kept rest made).items =
        siftLoose subsumes loose kept rest := by
  induction rest generalizing kept made with
  | nil => exact ⟨rfl, rfl⟩
  | cons a rest ih =>
    rw [siftLoose]
    obtain ⟨calls, _, ⟨⟨n, hfired⟩, _⟩ | ⟨hany, hrun⟩ | ⟨hany, hrun⟩⟩ :=
      siftUntil_cons subsumes loose none kept a rest made
    · exact Bool.noConfusion hfired
    · rw [hrun, if_pos hany]
      exact ih kept _
    · rw [hrun, if_neg (Bool.eq_false_iff.1 hany)]
      exact ih (kept ++ [a]) _

/-- A run on a list that nothing stops goes on to its end. -/
theorem stopped_ofList_none (items : List α) : (ofList subsumes none items).stopped = false := by
  rw [ofList_eq_siftUntil]
  exact (siftUntil_none [] items 0).1

/-- A run that nothing stops leaves what `sift` leaves. -/
theorem maximal_eq_sift (items : List α) : maximal subsumes items = sift subsumes [] items := by
  rw [maximal, ofList_eq_siftUntil]
  exact (siftUntil_none [] items 0).2

/-- Reducing items that stand for others gives what stands for the reduced ones. -/
theorem sift_map {β : Type} (f : β → α) (kept rest : List β) :
    sift subsumes (kept.map f) (rest.map f) =
      (sift (fun a b => subsumes (f a) (f b)) kept rest).map f := by
  induction rest generalizing kept with
  | nil => rfl
  | cons a rest ih =>
    rw [List.map_cons, sift_cons, sift_cons, ← List.map_append, List.any_map]
    rw [show (subsumes (f a) ∘ f) = fun b => subsumes (f a) (f b) from rfl]
    split
    · exact ih kept
    · simpa using ih (kept ++ [a])

theorem maximal_map {β : Type} (f : β → α) (items : List β) :
    maximal subsumes (items.map f) =
      (maximal (fun a b => subsumes (f a) (f b)) items).map f := by
  rw [maximal_eq_sift, maximal_eq_sift]
  exact sift_map f [] items

/-! ## Settled items -/

/-- The items of `kept` stay beside one another and beside those of `rest`: none of them is subsumed
by another one, and no loose one by itself. -/
structure Settled (subsumes : α → α → Bool) (loose : α → Bool) (kept rest : List α) : Prop where
  /-- No kept item is subsumed by another kept one. -/
  apart : kept.Pairwise fun a b => subsumes a b = false ∧ subsumes b a = false
  /-- No kept item that is loose is subsumed by itself. -/
  itself : ∀ k ∈ kept, loose k = true → subsumes k k = false
  /-- No kept item is subsumed by one that is still to be looked at. -/
  free : ∀ k ∈ kept, ∀ b ∈ rest, subsumes k b = false

theorem settled_nil (rest : List α) : Settled subsumes loose [] rest :=
  ⟨.nil, fun _ hk => absurd hk List.not_mem_nil, fun _ hk => absurd hk List.not_mem_nil⟩

theorem any_compared_eq_false_iff {kept rest : List α} {a : α} :
    (compared loose kept a rest).any (subsumes a) = false ↔
      (∀ b ∈ kept ++ rest, subsumes a b = false) ∧ (loose a = true → subsumes a a = false) := by
  simp only [List.any_eq_false, Bool.not_eq_true, mem_compared]
  constructor
  · exact fun h => ⟨fun b hb => h b (.inl hb), fun ha => h a (.inr ⟨ha, rfl⟩)⟩
  · rintro ⟨hothers, hself⟩ b (hb | ⟨ha, rfl⟩)
    · exact hothers b hb
    · exact hself ha

theorem Settled.drop {kept rest : List α} {a : α} (h : Settled subsumes loose kept (a :: rest)) :
    Settled subsumes loose kept rest :=
  ⟨h.apart, h.itself, fun k hk b hb => h.free k hk b (List.mem_cons_of_mem a hb)⟩

theorem Settled.keep {kept rest : List α} {a : α} (h : Settled subsumes loose kept (a :: rest))
    (hnone : (compared loose kept a rest).any (subsumes a) = false) :
    Settled subsumes loose (kept ++ [a]) rest := by
  obtain ⟨hothers, hself⟩ := any_compared_eq_false_iff.1 hnone
  constructor
  · refine List.pairwise_append.2 ⟨h.apart, List.pairwise_singleton _ a, fun k hk b hb => ?_⟩
    rw [List.mem_singleton.1 hb]
    exact ⟨h.free k hk a List.mem_cons_self, hothers k (List.mem_append_left _ hk)⟩
  · intro k hk
    rcases List.mem_append.1 hk with hk | hk
    · exact h.itself k hk
    · rw [List.mem_singleton.1 hk]
      exact hself
  · intro k hk b hb
    rcases List.mem_append.1 hk with hk | hk
    · exact h.drop.free k hk b hb
    · rw [List.mem_singleton.1 hk]
      exact hothers b (List.mem_append_right _ hb)

/-- What a finished run leaves is settled. -/
theorem settled_siftLoose {kept rest : List α} (h : Settled subsumes loose kept rest) :
    Settled subsumes loose (siftLoose subsumes loose kept rest) [] := by
  induction rest generalizing kept with
  | nil => exact h
  | cons a rest ih =>
    rw [siftLoose]
    cases hany : (compared loose kept a rest).any (subsumes a) with
    | true =>
      rw [if_pos rfl]
      exact ih h.drop
    | false =>
      rw [if_neg Bool.false_ne_true]
      exact ih (h.keep hany)

/-- No two items that are left subsume one another, however the items are related. -/
theorem pairwise_maximal (items : List α) :
    (maximal subsumes items).Pairwise fun a b => subsumes a b = false ∧ subsumes b a = false := by
  rw [maximal_eq_sift]
  exact (settled_siftLoose (settled_nil items)).apart

theorem not_subsumes_maximal {items : List α} {a b : α} (ha : a ∈ maximal subsumes items)
    (hb : b ∈ maximal subsumes items) (hne : a ≠ b) : subsumes a b = false := by
  have hsymm : Std.Symm fun a b => subsumes a b = false ∧ subsumes b a = false :=
    ⟨fun _ _ h => h.symm⟩
  exact ((pairwise_maximal items).forall ha hb hne).1

/-! ## Partial orders -/

theorem sift_sublist (kept rest : List α) : (sift subsumes kept rest).Sublist (kept ++ rest) := by
  rw [sift, ← (siftUntil_none kept rest 0).2]
  exact siftUntil_sublist none kept rest 0

theorem maximal_sublist (items : List α) : (maximal subsumes items).Sublist items := by
  rw [maximal_eq_sift]
  exact sift_sublist [] items

/-- Every item is subsumed by one that is left, however the items are related: what is dropped is
subsumed by an item that is looked at later or stays. -/
theorem exists_mem_sift (hrefl : ∀ a, subsumes a a = true)
    (htrans : ∀ a b c, subsumes a b = true → subsumes b c = true → subsumes a c = true)
    {kept rest : List α} {a : α} (ha : a ∈ kept ++ rest) :
    ∃ b ∈ sift subsumes kept rest, subsumes a b = true := by
  induction rest generalizing kept a with
  | nil => exact ⟨a, by simpa [sift_nil] using ha, hrefl a⟩
  | cons c rest ih =>
    rw [sift_cons]
    split
    · next hany =>
      obtain ⟨d, hd, hcd⟩ := List.any_eq_true.1 hany
      rcases List.mem_append.1 ha with hak | har
      · exact ih (List.mem_append_left _ hak)
      · rcases List.mem_cons.1 har with rfl | har
        · obtain ⟨b, hb, hdb⟩ := ih hd
          exact ⟨b, hb, htrans _ _ _ hcd hdb⟩
        · exact ih (List.mem_append_right _ har)
    · exact ih (by simpa using ha)

theorem exists_mem_maximal (subsumes : α → α → Bool) (hrefl : ∀ a, subsumes a a = true)
    (htrans : ∀ a b c, subsumes a b = true → subsumes b c = true → subsumes a c = true)
    {items : List α} {a : α} (ha : a ∈ items) :
    ∃ b ∈ maximal subsumes items, subsumes a b = true := by
  rw [maximal_eq_sift]
  exact exists_mem_sift hrefl htrans ha

/-- A partial order on the items leaves those that nothing else subsumes. -/
theorem mem_maximal_iff (hrefl : ∀ a, subsumes a a = true)
    (htrans : ∀ a b c, subsumes a b = true → subsumes b c = true → subsumes a c = true)
    {items : List α}
    (hantisymm : ∀ a ∈ items, ∀ b ∈ items, subsumes a b = true → subsumes b a = true → a = b)
    {a : α} :
    a ∈ maximal subsumes items ↔ a ∈ items ∧ ∀ b ∈ items, subsumes a b = true → b = a := by
  have hmem {b : α} (hb : b ∈ maximal subsumes items) : b ∈ items :=
    (maximal_sublist items).subset hb
  constructor
  · intro ha
    refine ⟨hmem ha, ?_⟩
    intro b hb hab
    obtain ⟨c, hc, hbc⟩ := exists_mem_maximal subsumes hrefl htrans hb
    have hac := htrans _ _ _ hab hbc
    by_cases hne : a = c
    · subst hne
      exact hantisymm b hb a (hmem ha) hbc hab
    · rw [not_subsumes_maximal ha hc hne] at hac
      exact Bool.noConfusion hac
  · rintro ⟨ha, hmax⟩
    obtain ⟨c, hc, hac⟩ := exists_mem_maximal subsumes hrefl htrans ha
    exact hmax c (hmem hc) hac ▸ hc

end

end ValueLattice.Antichain
