import Mathlib.Data.List.Sort
import ValueLattice.Text.Units

/-!
# The order of texts

Texts are ordered by their units, and units are read back into the text (`ofUnits_units`), so the
order is a strict total order on texts: `before_trans`, `before_or_before`.

* `pairwise_sortByText`: a sorted list is strictly ascending;
* `exists_key_sortByText`: sorting keeps the keys, `mem_sortByText` the texts themselves;
* `eq_of_ascending`: an ascending list of texts is determined by its members.
-/

namespace ValueLattice.Text

/-! ## Units and characters -/

theorem char_toNat_cases (c : Char) : c.toNat < 0xD800 ∨ 0xDFFF < c.toNat ∧ c.toNat < 0x110000 :=
  c.valid

theorem unitChar_toNat {c : Char} : unitChar c.toNat = c := by
  have hc := char_toNat_cases c
  unfold unitChar
  rw [if_neg (by omega), Char.ofNat_toNat]

/-- The units of a character are read back whatever follows them. -/
theorem ofUnits_charUnits_append (c : Char) (l : List Nat) :
    ofUnits (charUnits c ++ l) = c :: ofUnits l := by
  have hc := char_toNat_cases c
  unfold charUnits
  split
  · cases l with
    | nil => simp [ofUnits, unitChar_toNat]
    | cons v l =>
      -- A single unit of a character is never the first half of a pair.
      rw [List.singleton_append, ofUnits, if_neg (by omega), unitChar_toNat]
  · rw [List.cons_append, List.singleton_append, ofUnits, if_pos (by omega)]
    rw [show 0x10000 + (0xD800 + (c.toNat - 0x10000) / 0x400 - 0xD800) * 0x400
      + (0xDC00 + (c.toNat - 0x10000) % 0x400 - 0xDC00) = c.toNat by omega, Char.ofNat_toNat]

/-- The units of a text read back as the text. -/
theorem ofUnits_units (s : String) : ofUnits (units s) = s.toList := by
  unfold units
  induction s.toList with
  | nil => rfl
  | cons c l ih => rw [List.flatMap_cons, ofUnits_charUnits_append, ih]

theorem units_inj {s t : String} (h : units s = units t) : s = t := by
  rw [← String.toList_inj, ← ofUnits_units s, h, ofUnits_units]

/-! ## A strict total order -/

theorem unitsBefore_trans {l m n : List Nat} (hlm : unitsBefore l m = true)
    (hmn : unitsBefore m n = true) : unitsBefore l n = true := by
  induction l generalizing m n with
  | nil =>
    cases n with
    | nil => cases m <;> simp [unitsBefore] at hmn
    | cons w n => rfl
  | cons u l ih =>
    cases m with
    | nil => simp [unitsBefore] at hlm
    | cons v m =>
      cases n with
      | nil => simp [unitsBefore] at hmn
      | cons w n =>
        simp only [unitsBefore, Bool.or_eq_true, Bool.and_eq_true, decide_eq_true_eq,
          beq_iff_eq] at hlm hmn ⊢
        rcases hlm with huv | ⟨huv, hlm⟩ <;> rcases hmn with hvw | ⟨hvw, hmn⟩
        · exact .inl (by omega)
        · exact .inl (by omega)
        · exact .inl (by omega)
        · exact .inr ⟨by omega, ih hlm hmn⟩

theorem unitsBefore_or_unitsBefore {l m : List Nat} (hne : l ≠ m) :
    unitsBefore l m = true ∨ unitsBefore m l = true := by
  induction l generalizing m with
  | nil =>
    cases m with
    | nil => exact absurd rfl hne
    | cons v m => exact .inl rfl
  | cons u l ih =>
    cases m with
    | nil => exact .inr rfl
    | cons v m =>
      simp only [unitsBefore, Bool.or_eq_true, Bool.and_eq_true, decide_eq_true_eq, beq_iff_eq]
      by_cases huv : u = v
      · have hlm : l ≠ m := fun h => hne (by rw [huv, h])
        rcases ih hlm with h | h
        · exact .inl (.inr ⟨huv, h⟩)
        · exact .inr (.inr ⟨huv.symm, h⟩)
      · omega

theorem before_trans {s t u : String} (hst : before s t = true) (htu : before t u = true) :
    before s u = true :=
  unitsBefore_trans hst htu

theorem before_or_before {s t : String} (hne : s ≠ t) : before s t = true ∨ before t s = true :=
  unitsBefore_or_unitsBefore fun h => hne (units_inj h)

theorem ne_of_before {s t : String} (h : before s t = true) : s ≠ t := by
  rintro rfl
  rw [before_irrefl] at h
  exact Bool.noConfusion h

/-! ## Ascending lists -/

/-- The keys of a list ascend strictly. -/
def Ascending {α : Type} (key : α → String) (l : List α) : Prop :=
  l.Pairwise fun a b => before (key a) (key b) = true

theorem ascending_map {α : Type} {key : α → String} {l : List α} :
    Ascending (fun s => s) (l.map key) ↔ Ascending key l :=
  List.pairwise_map

/-- An ascending list of texts is determined by its members. -/
theorem eq_of_ascending {l m : List String} (hl : Ascending (fun s => s) l)
    (hm : Ascending (fun s => s) m) (h : ∀ s, s ∈ l ↔ s ∈ m) : l = m := by
  have : Std.Irrefl fun s t : String => before s t = true :=
    ⟨fun s hs => ne_of_before hs rfl⟩
  have : Std.Antisymm fun s t : String => before s t = true :=
    ⟨fun s t hst hts => absurd rfl (ne_of_before (before_trans hst hts))⟩
  exact hl.eq_of_mem_iff hm h

/-- Two ascending lists with the same keys list the same keys in the same order. -/
theorem map_key_eq_of_ascending {α : Type} {key : α → String} {l m : List α}
    (hl : Ascending key l) (hm : Ascending key m)
    (h : ∀ k, (∃ a ∈ l, key a = k) ↔ ∃ a ∈ m, key a = k) : l.map key = m.map key :=
  eq_of_ascending (ascending_map.2 hl) (ascending_map.2 hm)
    (by simpa only [List.mem_map] using h)

/-! ## Sorting -/

theorem mem_of_mem_insertByText {α : Type} {key : α → String} {a b : α} {l : List α}
    (h : b ∈ insertByText key a l) : b = a ∨ b ∈ l := by
  induction l with
  | nil => simpa [insertByText] using h
  | cons c l ih =>
    unfold insertByText at h
    split at h
    · simpa using h
    · split at h
      · rcases List.mem_cons.1 h with rfl | h
        · exact .inl rfl
        · exact .inr (List.mem_cons_of_mem _ h)
      · rcases List.mem_cons.1 h with rfl | h
        · exact .inr List.mem_cons_self
        · exact (ih h).imp_right (List.mem_cons_of_mem _)

theorem exists_key_insertByText {α : Type} {key : α → String} {a : α} {l : List α} {k : String} :
    (∃ b ∈ insertByText key a l, key b = k) ↔ key a = k ∨ ∃ b ∈ l, key b = k := by
  induction l with
  | nil => simp [insertByText]
  | cons c l ih =>
    unfold insertByText
    split
    · simp only [List.mem_cons, exists_eq_or_imp]
    · split
      · next hac =>
        -- The new element takes the place of one with the same key.
        simp only [List.mem_cons, exists_eq_or_imp, hac]
        exact or_self_left.symm
      · simp only [List.mem_cons, exists_eq_or_imp, ih]
        exact or_left_comm

theorem ascending_insertByText {α : Type} {key : α → String} {a : α} {l : List α}
    (h : Ascending key l) : Ascending key (insertByText key a l) := by
  induction l with
  | nil => exact List.pairwise_singleton _ _
  | cons c l ih =>
    obtain ⟨hc, hl⟩ := List.pairwise_cons.1 h
    unfold insertByText
    split
    · next hac =>
      refine List.pairwise_cons.2 ⟨?_, h⟩
      intro b hb
      rcases List.mem_cons.1 hb with rfl | hb
      · exact hac
      · exact before_trans hac (hc b hb)
    · next hac =>
      split
      · next heq => exact List.pairwise_cons.2 ⟨fun b hb => heq ▸ hc b hb, hl⟩
      · next hne =>
        have hca : before (key c) (key a) = true := (before_or_before hne).resolve_left hac
        refine List.pairwise_cons.2 ⟨?_, ih hl⟩
        intro b hb
        rcases mem_of_mem_insertByText hb with rfl | hb
        · exact hca
        · exact hc b hb

theorem ascending_sortByText {α : Type} (key : α → String) (l : List α) :
    Ascending key (sortByText key l) := by
  induction l with
  | nil => exact .nil
  | cons a l ih => exact ascending_insertByText ih

theorem mem_of_mem_sortByText {α : Type} {key : α → String} {a : α} {l : List α}
    (h : a ∈ sortByText key l) : a ∈ l := by
  induction l with
  | nil => exact h
  | cons b l ih =>
    rcases mem_of_mem_insertByText h with rfl | h
    · exact List.mem_cons_self
    · exact List.mem_cons_of_mem _ (ih h)

/-- Sorting keeps every key. -/
theorem exists_key_sortByText {α : Type} (key : α → String) (l : List α) {k : String} :
    (∃ a ∈ sortByText key l, key a = k) ↔ ∃ a ∈ l, key a = k := by
  induction l with
  | nil => rfl
  | cons b l ih =>
    rw [show sortByText key (b :: l) = insertByText key b (sortByText key l) from rfl,
      exists_key_insertByText, ih]
    simp only [List.mem_cons, exists_eq_or_imp]

theorem mem_sortByText {s : String} {l : List String} :
    s ∈ sortByText (fun t => t) l ↔ s ∈ l := by
  simpa using exists_key_sortByText (fun t => t) l (k := s)

end ValueLattice.Text
