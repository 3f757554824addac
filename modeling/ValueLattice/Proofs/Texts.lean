import ValueLattice.Text.Quoted
import ValueLattice.Text.Scalar

/-!
# Texts that can be read back

Keys are built by writing texts one after the other with a mark between them. A mark that occurs in
none of the parts tells where they end, so equal texts have equal parts:

* `append_mark_inj`, `append_mark_inj_last`: two parts around a mark that one of them is free of;
* `intercalate_inj`: any number of parts between separators;
* `integer_inj`: numerals; `quoted_inj`: texts between quotes.
-/

namespace ValueLattice.Text

/-! ## Separators -/

theorem append_cons_inj {α : Type} {x : α} {l l' m m' : List α} (hl : x ∉ l) (hl' : x ∉ l')
    (h : l ++ x :: m = l' ++ x :: m') : l = l' ∧ m = m' := by
  induction l generalizing l' with
  | nil =>
    cases l' with
    | nil => exact ⟨rfl, (List.cons.inj h).2⟩
    | cons y l' => exact absurd ((List.cons.inj h).1 ▸ List.mem_cons_self) hl'
  | cons y l ih =>
    cases l' with
    | nil => exact absurd ((List.cons.inj h).1 ▸ List.mem_cons_self) hl
    | cons z l' =>
      obtain ⟨hyz, hrest⟩ := List.cons.inj h
      obtain ⟨hll, hmm⟩ := ih (fun hx => hl (List.mem_cons_of_mem _ hx))
        (fun hx => hl' (List.mem_cons_of_mem _ hx)) hrest
      exact ⟨by rw [hyz, hll], hmm⟩

/-- The mark may also be missing from the parts behind it. -/
theorem append_cons_inj_last {α : Type} {x : α} {l l' m m' : List α} (hm : x ∉ m) (hm' : x ∉ m')
    (h : l ++ x :: m = l' ++ x :: m') : l = l' ∧ m = m' := by
  have hrev : m.reverse ++ x :: l.reverse = m'.reverse ++ x :: l'.reverse := by
    simpa using congrArg List.reverse h
  obtain ⟨hmm, hll⟩ := append_cons_inj (by simpa using hm) (by simpa using hm') hrev
  exact ⟨List.reverse_inj.1 hll, List.reverse_inj.1 hmm⟩

theorem append_mark_inj {mark : String} {c : Char} (hmark : mark.toList = [c])
    {s s' t t' : String} (hs : c ∉ s.toList) (hs' : c ∉ s'.toList)
    (h : s ++ mark ++ t = s' ++ mark ++ t') : s = s' ∧ t = t' := by
  have hlist := congrArg String.toList h
  simp only [String.toList_append, hmark, List.append_assoc, List.singleton_append] at hlist
  obtain ⟨hss, htt⟩ := append_cons_inj hs hs' hlist
  exact ⟨String.toList_inj.1 hss, String.toList_inj.1 htt⟩

theorem append_mark_inj_last {mark : String} {c : Char} (hmark : mark.toList = [c])
    {s s' t t' : String} (ht : c ∉ t.toList) (ht' : c ∉ t'.toList)
    (h : s ++ mark ++ t = s' ++ mark ++ t') : s = s' ∧ t = t' := by
  have hlist := congrArg String.toList h
  simp only [String.toList_append, hmark, List.append_assoc, List.singleton_append] at hlist
  obtain ⟨hss, htt⟩ := append_cons_inj_last ht ht' hlist
  exact ⟨String.toList_inj.1 hss, String.toList_inj.1 htt⟩

/-- Parts that are free of the first character of the separator are told apart, as long as there is
one: no parts and one empty part are written the same. -/
theorem intercalate_inj {sep : String} {c : Char} (hsep : sep.toList.head? = some c)
    {l m : List String} (hl : l ≠ []) (hm : m ≠ []) (hlc : ∀ s ∈ l, c ∉ s.toList)
    (hmc : ∀ s ∈ m, c ∉ s.toList) (h : sep.intercalate l = sep.intercalate m) : l = m := by
  obtain ⟨rest, hrest⟩ : ∃ rest, sep.toList = c :: rest := List.head?_eq_some_iff.1 hsep
  induction l generalizing m with
  | nil => exact absurd rfl hl
  | cons s l ih =>
    cases m with
    | nil => exact absurd rfl hm
    | cons t m =>
      have hs := hlc s List.mem_cons_self
      have ht := hmc t List.mem_cons_self
      have hlist := congrArg String.toList h
      cases l with
      | nil =>
        cases m with
        | nil => simpa using h
        | cons t' m =>
          -- The separator occurs on one side only.
          rw [String.intercalate_singleton, String.intercalate_cons_cons] at hlist
          exact absurd (by rw [hlist]; simp [hrest]) hs
      | cons s' l =>
        cases m with
        | nil =>
          rw [String.intercalate_singleton, String.intercalate_cons_cons] at hlist
          exact absurd (by rw [← hlist]; simp [hrest]) ht
        | cons t' m =>
          rw [String.intercalate_cons_cons, String.intercalate_cons_cons] at hlist
          simp only [String.toList_append, hrest, List.append_assoc, List.cons_append] at hlist
          obtain ⟨hst, htail⟩ := append_cons_inj hs ht hlist
          have hparts := ih (List.cons_ne_nil _ _) (List.cons_ne_nil _ _)
            (fun u hu => hlc u (List.mem_cons_of_mem _ hu))
            (fun u hu => hmc u (List.mem_cons_of_mem _ hu))
            (String.toList_inj.1 (List.append_cancel_left htail))
          rw [String.toList_inj.1 hst, hparts]

theorem mem_intercalate {sep : String} {l : List String} {c : Char}
    (h : c ∈ (sep.intercalate l).toList) : c ∈ sep.toList ∨ ∃ s ∈ l, c ∈ s.toList := by
  induction l with
  | nil => simp at h
  | cons s l ih =>
    cases l with
    | nil => exact .inr ⟨s, List.mem_cons_self, by simpa using h⟩
    | cons t l =>
      rw [String.intercalate_cons_cons, String.toList_append, String.toList_append,
        List.mem_append, List.mem_append] at h
      rcases h with (h | h) | h
      · exact .inr ⟨s, List.mem_cons_self, h⟩
      · exact .inl h
      · rcases ih h with h | ⟨u, hu, h⟩
        · exact .inl h
        · exact .inr ⟨u, List.mem_cons_of_mem _ hu, h⟩

theorem intercalate_ne_empty {sep : String} {l : List String} (hl : l ≠ [])
    (h : ∀ s ∈ l, s ≠ "") : sep.intercalate l ≠ "" := by
  cases l with
  | nil => exact absurd rfl hl
  | cons s l =>
    have hs := h s List.mem_cons_self
    cases l with
    | nil => simpa using hs
    | cons t l =>
      intro hempty
      rw [String.intercalate_cons_cons, String.append_assoc] at hempty
      exact hs (String.append_eq_empty_iff.1 hempty).1

/-- Parts that are not empty are told apart also when there are none. -/
theorem intercalate_inj_of_ne_empty {sep : String} {c : Char} (hsep : sep.toList.head? = some c)
    {l m : List String} (hl : ∀ s ∈ l, s ≠ "") (hm : ∀ s ∈ m, s ≠ "")
    (hlc : ∀ s ∈ l, c ∉ s.toList) (hmc : ∀ s ∈ m, c ∉ s.toList)
    (h : sep.intercalate l = sep.intercalate m) : l = m := by
  by_cases hln : l = []
  · by_cases hmn : m = []
    · rw [hln, hmn]
    · rw [hln, String.intercalate_nil] at h
      exact absurd h.symm (intercalate_ne_empty hmn hm)
  · by_cases hmn : m = []
    · rw [hmn, String.intercalate_nil] at h
      exact absurd h (intercalate_ne_empty hln hl)
    · exact intercalate_inj hsep hln hmn hlc hmc h

/-! ## Numerals -/

theorem natural_inj {m n : Nat} (h : natural m = natural n) : m = n := by
  have hdigits : Nat.toDigits 10 m = Nat.toDigits 10 n := by
    simpa [natural] using congrArg String.toList h
  rw [← Nat.ofDigitChars_ten_toDigits (n := m), hdigits, Nat.ofDigitChars_ten_toDigits]

/-- Only the numeral of zero begins with a zero. -/
theorem head?_toDigits_ne_zero {n : Nat} (hn : n ≠ 0) :
    (Nat.toDigits 10 n).head? ≠ some '0' := by
  induction n using Nat.strongRecOn with
  | ind n ih =>
    rw [Nat.toDigits_eq_if (by omega)]
    split
    · next hlt =>
      have hall : ∀ m < 10, m ≠ 0 → [Nat.digitChar m].head? ≠ some '0' := by decide
      exact hall n hlt hn
    · intro hhead
      rcases Option.or_eq_some_iff.1 (List.head?_append ▸ hhead) with hhead | ⟨hnone, _⟩
      · exact ih (n / 10) (by omega) (by omega) hhead
      · exact Nat.toDigits_ne_nil (List.head?_eq_none_iff.1 hnone)

theorem natural_ne_empty (n : Nat) : natural n ≠ "" := by
  intro h
  have hdigits : Nat.toDigits 10 n = [] := by simpa [natural] using congrArg String.toList h
  exact Nat.toDigits_ne_nil hdigits

theorem isDigit_of_mem_natural {n : Nat} {c : Char} (h : c ∈ (natural n).toList) :
    c.isDigit = true := by
  refine Nat.isDigit_of_mem_toDigits (b := 10) (n := n) (by omega) (by omega) ?_
  simpa [natural] using h

/-- A numeral consists of digits, behind a minus sign if the integer is negative. -/
theorem mem_integer {n : Int} {c : Char} (h : c ∈ (integer n).toList) :
    c = '-' ∨ c.isDigit = true := by
  unfold integer sign at h
  rw [String.toList_append, List.mem_append] at h
  rcases h with h | h
  · split at h
    · exact .inl (by simpa using h)
    · exact absurd h (by simp)
  · exact .inr (isDigit_of_mem_natural h)

theorem integer_ne_empty (n : Int) : integer n ≠ "" := by
  intro h
  unfold integer at h
  exact natural_ne_empty n.natAbs (String.append_eq_empty_iff.1 h).2

/-- The minus sign shows on negative integers only. -/
theorem head?_integer (n : Int) : (integer n).toList.head? = some '-' ↔ n < 0 := by
  unfold integer sign
  by_cases hn : n < 0
  · simp [hn]
  · simp only [hn, decide_false, Bool.false_eq_true, if_false, iff_false]
    intro h
    have hmem : '-' ∈ (natural n.natAbs).toList := by
      rw [String.toList_append] at h
      exact List.mem_of_mem_head? (by simpa using h)
    exact absurd (isDigit_of_mem_natural hmem) (by decide)

theorem integer_inj {m n : Int} (h : integer m = integer n) : m = n := by
  have hsign : m < 0 ↔ n < 0 := by rw [← head?_integer m, ← head?_integer n, h]
  unfold integer at h
  rw [show decide (m < 0) = decide (n < 0) from decide_eq_decide.2 hsign] at h
  have habs : m.natAbs = n.natAbs := by
    refine natural_inj (String.toList_inj.1 ?_)
    have hlist := congrArg String.toList h
    rw [String.toList_append, String.toList_append] at hlist
    exact List.append_cancel_left hlist
  omega

/-! ## Quotes -/

/-- The characters with a letter of their own after a backslash, each with its letter. -/
def shortForms : List (Char × Char) :=
  [('"', '"'), ('\\', '\\'), ('\x08', 'b'), ('\t', 't'), ('\n', 'n'), ('\x0c', 'f'), ('\r', 'r')]

theorem mem_shortForms {c letter : Char} (h : shortEscape? c = some letter) :
    (c, letter) ∈ shortForms := by
  unfold shortEscape? at h
  split at h <;> cases h <;> decide

/-- A character is written as itself only if no escape is needed. -/
theorem quotedChar_cases (c : Char) :
    (∃ letter, (c, letter) ∈ shortForms ∧ quotedChar isControl c = ['\\', letter]) ∨
    (isControl c.toNat = true ∧ quotedChar isControl c = '\\' :: 'u' :: hexUnit c.toNat) ∨
    (c ≠ '\\' ∧ quotedChar isControl c = [c]) := by
  unfold quotedChar
  split
  · next letter h => exact .inl ⟨letter, mem_shortForms h, rfl⟩
  · next h =>
    have hc : c ≠ '\\' := by
      rintro rfl
      exact absurd h (by decide)
    by_cases hcontrol : isControl c.toNat = true
    · exact .inr (.inl ⟨hcontrol, if_pos hcontrol⟩)
    · exact .inr (.inr ⟨hc, if_neg hcontrol⟩)

/-- A control character is found by its four digits. -/
theorem eq_of_hexUnit_append {c d : Char} {l m : List Char} (hc : isControl c.toNat = true)
    (hd : isControl d.toNat = true) (h : hexUnit c.toNat ++ l = hexUnit d.toNat ++ m) :
    c = d ∧ l = m := by
  have hall : ∀ i < 0x20, ∀ j < 0x20, hexUnit i = hexUnit j → i = j := by decide
  obtain ⟨hunit, hrest⟩ := List.append_inj h rfl
  have hnat := hall c.toNat (by simpa [isControl] using hc) d.toNat (by simpa [isControl] using hd)
    hunit
  exact ⟨Char.ext (UInt32.toNat_inj.1 hnat), hrest⟩

/-- No written form of a character is the beginning of another one. -/
theorem quotedChar_append_inj {c d : Char} {l m : List Char}
    (h : quotedChar isControl c ++ l = quotedChar isControl d ++ m) : c = d ∧ l = m := by
  have hletters : ∀ p ∈ shortForms, ∀ q ∈ shortForms, p.2 = q.2 → p.1 = q.1 := by decide
  have hu : ∀ p ∈ shortForms, p.2 ≠ 'u' := by decide
  rcases quotedChar_cases c with ⟨x, hx, hc⟩ | ⟨hxc, hc⟩ | ⟨hne, hc⟩ <;>
    rcases quotedChar_cases d with ⟨y, hy, hd⟩ | ⟨hyc, hd⟩ | ⟨hne', hd⟩ <;>
    simp only [hc, hd, List.cons_append, List.nil_append, List.cons.injEq, true_and] at h
  · exact ⟨hletters _ hx _ hy h.1, h.2⟩
  · exact absurd h.1 (hu _ hx)
  · exact absurd h.1.symm hne'
  · exact absurd h.1.symm (hu _ hy)
  -- Two numbered escapes have digits of the same length.
  · exact eq_of_hexUnit_append hxc hyc h
  · exact absurd h.1.symm hne'
  · exact absurd h.1 hne
  · exact absurd h.1 hne
  · exact h

theorem quoted_inj {s t : String} (h : quoted isControl s = quoted isControl t) : s = t := by
  have hlist : s.toList.flatMap (quotedChar isControl) =
      t.toList.flatMap (quotedChar isControl) := by
    simpa [quoted] using congrArg String.toList h
  apply String.toList_inj.1
  -- The written characters are compared one after the other.
  generalize s.toList = l at hlist
  generalize t.toList = m at hlist
  have hne (c : Char) : quotedChar isControl c ≠ [] := by
    rcases quotedChar_cases c with ⟨x, hx, hc⟩ | ⟨hxc, hc⟩ | ⟨hne, hc⟩ <;> simp [hc]
  induction l generalizing m with
  | nil =>
    cases m with
    | nil => rfl
    | cons d m => exact absurd hlist.symm (by simp [hne d])
  | cons c l ih =>
    cases m with
    | nil => exact absurd hlist (by simp [hne c])
    | cons d m =>
      rw [List.flatMap_cons, List.flatMap_cons] at hlist
      obtain ⟨hcd, hrest⟩ := quotedChar_append_inj hlist
      rw [hcd, ih m hrest]

end ValueLattice.Text
