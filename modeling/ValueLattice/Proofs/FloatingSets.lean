import ValueLattice.Element.Floating
import ValueLattice.Proofs.Doubles
import ValueLattice.Proofs.TextOrder

/-!
# The lattice of sets of floating-point numbers

* `contains_congr`: membership depends on the key of a number only;
* `covers_trans`, `covers_antisymm`: the order is a partial order up to keys;
* `key_inj`: sets with one key are `Alike`;
* `excluding_covers_iff`: a set excludes some numbers exactly if the complement of these covers it;
* `join_covers`, `key_join_comm`: joins are upper bounds;
* `exists_meet?_covers`, `covers_meet?`, `key_meet?_comm`: meets are greatest lower bounds.
-/

namespace ValueLattice

/-- Two operations that prefer one operand each agree under `f` where their other results do. -/
theorem apply_choice_comm {α β : Type} {f : α → β} {p q : Prop} [Decidable p] [Decidable q]
    {a b c d : α} (hboth : p → q → f a = f b) (hnone : ¬ p → ¬ q → f c = f d) :
    f (if p then a else if q then b else c) = f (if q then b else if p then a else d) := by
  by_cases hp : p
  · rw [if_pos hp]
    by_cases hq : q
    · rw [if_pos hq]
      exact hboth hp hq
    · rw [if_neg hq, if_pos hp]
  · rw [if_neg hp]
    by_cases hq : q
    · rw [if_pos hq, if_pos hq]
    · rw [if_neg hq, if_neg hq, if_neg hp]
      exact hnone hp hq

namespace FloatingSet

/-! ## Membership -/

theorem same_iff {x y : Double} : x.same y = true ↔ x.key = y.key := beq_iff_eq

theorem contains_congr {s : FloatingSet} {x y : Double} (h : x.key = y.key) :
    s.contains x = s.contains y := by
  cases s with
  | any => rfl
  | zeros => exact Double.isZero_eq_of_key_eq h
  | only z => simp only [contains, Double.same, h]
  | allBut zs => simp only [contains, Double.same, h]

theorem contains_allBut_eq_false {xs : List Double} {y : Double} :
    (allBut xs).contains y = false ↔ ∃ x ∈ xs, x.key = y.key := by
  simp [contains, same_iff]

theorem covers_zeros_iff {s : FloatingSet} :
    s.covers zeros = true ↔ s.contains .zero = true ∧ s.contains .negativeZero = true := by
  simp [covers, Double.zeros]

theorem any_covers (t : FloatingSet) : any.covers t = true := by
  cases t <;> rfl

theorem contains_of_covers {s t : FloatingSet} (hst : s.covers t = true) {x : Double}
    (hx : t.contains x = true) : s.contains x = true := by
  cases t with
  | any =>
    obtain rfl : s = any := by simpa [covers] using hst
    rfl
  | zeros => exact List.all_eq_true.1 hst x (Double.mem_zeros hx)
  | only y => rwa [← contains_congr (same_iff.1 hx)]
  | allBut ys =>
    match s with
    | any => rfl
    | allBut xs =>
      rw [← Bool.not_eq_false, contains_allBut_eq_false] at hx ⊢
      rintro ⟨z, hz, hzx⟩
      obtain ⟨y, hy, hzy⟩ := listedIn_iff.1 hst z hz
      exact hx ⟨y, hy, (same_iff.1 hzy).symm.trans hzx⟩

/-! ## The order -/

theorem covers_trans {s t u : FloatingSet} (hst : s.covers t = true) (htu : t.covers u = true) :
    s.covers u = true := by
  cases u with
  | any =>
    obtain rfl : t = any := by simpa [covers] using htu
    exact hst
  | zeros =>
    obtain ⟨hpos, hneg⟩ := covers_zeros_iff.1 htu
    exact covers_zeros_iff.2 ⟨contains_of_covers hst hpos, contains_of_covers hst hneg⟩
  | only x => exact contains_of_covers hst htu
  | allBut zs =>
    match s, t with
    | any, _ => rfl
    | allBut xs, allBut ys =>
      apply listedIn_iff.2
      intro x hx
      obtain ⟨y, hy, hxy⟩ := listedIn_iff.1 hst x hx
      obtain ⟨z, hz, hyz⟩ := listedIn_iff.1 htu y hy
      exact ⟨z, hz, same_iff.2 ((same_iff.1 hxy).trans (same_iff.1 hyz))⟩

/-- A set of all numbers but some covers the sets that have none of these. -/
theorem allBut_covers_iff {xs : List Double} (hxs : xs ≠ []) {t : FloatingSet} :
    (allBut xs).covers t = true ↔ ∀ x ∈ xs, t.contains x = false := by
  cases t with
  | any =>
    obtain ⟨x, hx⟩ := List.exists_mem_of_ne_nil _ hxs
    exact iff_of_false Bool.false_ne_true fun h => Bool.noConfusion (h x hx)
  | zeros =>
    constructor
    · intro h x hx
      rw [← Bool.not_eq_true]
      intro hzero
      have hmem := List.all_eq_true.1 h x (Double.mem_zeros hzero)
      rw [contains_allBut_eq_false.2 ⟨x, hx, rfl⟩] at hmem
      exact Bool.noConfusion hmem
    · intro h
      apply List.all_eq_true.2
      intro z hz
      rw [← Bool.not_eq_false, contains_allBut_eq_false]
      rintro ⟨x, hx, hxz⟩
      have hzero : z.isZero = true := by
        rcases List.mem_cons.1 hz with rfl | hz
        · rfl
        · rw [List.mem_singleton.1 hz]
          rfl
      rw [← Double.isZero_eq_of_key_eq hxz] at hzero
      exact Bool.noConfusion ((h x hx).symm.trans hzero)
  | only y =>
    rw [show (allBut xs).covers (only y) = (allBut xs).contains y from rfl, ← Bool.not_eq_false,
      contains_allBut_eq_false, not_exists]
    apply forall_congr'
    intro x
    rw [not_and]
    apply imp_congr_right
    intro _
    rw [← Bool.not_eq_true]
    exact not_congr ⟨fun h => same_iff.2 h.symm, fun h => (same_iff.1 h).symm⟩
  | allBut ys =>
    rw [show (allBut xs).covers (allBut ys) = listedIn Double.same xs ys from rfl, listedIn_iff]
    apply forall_congr'
    intro x
    apply imp_congr_right
    intro _
    rw [contains_allBut_eq_false]
    exact exists_congr fun y => and_congr_right fun _ => by rw [same_iff, eq_comm]

/-! ## Complements -/

theorem valid_excluding (xs : List Double) : (excluding xs).Valid := by
  have hsorted := Text.ascending_sortByText Double.key xs
  unfold excluding
  split
  · trivial
  · next hl => exact ⟨List.cons_ne_nil _ _, hl ▸ hsorted⟩

theorem excluding_covers_iff {xs : List Double} {t : FloatingSet} :
    (excluding xs).covers t = true ↔ ∀ x ∈ xs, t.contains x = false := by
  have hkey {k : String} := Text.exists_key_sortByText Double.key xs (k := k)
  have hsorted : (∀ x ∈ Text.sortByText Double.key xs, t.contains x = false) ↔
      ∀ x ∈ xs, t.contains x = false := by
    constructor
    · intro h x hx
      obtain ⟨y, hy, hyx⟩ := hkey.2 ⟨x, hx, rfl⟩
      rw [← contains_congr hyx]
      exact h y hy
    · intro h x hx
      exact h x (Text.mem_of_mem_sortByText hx)
  rw [← hsorted]
  unfold excluding
  split
  · next hl =>
    rw [hl]
    exact iff_of_true (any_covers t) fun _ hx => absurd hx List.not_mem_nil
  · next hl =>
    rw [hl]
    exact allBut_covers_iff (List.cons_ne_nil _ _)

theorem contains_excluding_eq_false {xs : List Double} {y : Double} :
    (excluding xs).contains y = false ↔ ∃ x ∈ xs, x.key = y.key := by
  rw [← Text.exists_key_sortByText Double.key]
  unfold excluding
  split
  · next hl => simp [hl, contains]
  · next hl => rw [hl, contains_allBut_eq_false]

/-! ## Keys -/

theorem covers_antisymm {s t : FloatingSet} (hs : s.Valid) (ht : t.Valid)
    (hst : s.covers t = true) (hts : t.covers s = true) (w : FloatingWidth) :
    s.key w = t.key w := by
  match s, t with
  | any, any => rfl
  | zeros, zeros => rfl
  | only x, only y => rw [key, key, same_iff.1 hst]
  | only x, zeros =>
    -- The keys of the zeros differ, so no single number covers both.
    have hzeros := covers_zeros_iff.1 hst
    have hkeys := (same_iff.1 hzeros.1).symm.trans (same_iff.1 hzeros.2)
    exact absurd hkeys (by decide)
  | zeros, only y =>
    have hzeros := covers_zeros_iff.1 hts
    have hkeys := (same_iff.1 hzeros.1).symm.trans (same_iff.1 hzeros.2)
    exact absurd hkeys (by decide)
  | allBut xs, allBut ys =>
    have hmap : xs.map Double.key = ys.map Double.key := by
      refine Text.map_key_eq_of_ascending hs.2 ht.2 fun k => ⟨?_, ?_⟩
      · rintro ⟨x, hx, rfl⟩
        obtain ⟨y, hy, hxy⟩ := listedIn_iff.1 hst x hx
        exact ⟨y, hy, (same_iff.1 hxy).symm⟩
      · rintro ⟨y, hy, rfl⟩
        obtain ⟨x, hx, hyx⟩ := listedIn_iff.1 hts y hy
        exact ⟨x, hx, (same_iff.1 hyx).symm⟩
    rw [key, key, hmap]

/-- The part of a key behind the name of the width. -/
def keyTail : FloatingSet → String
  | any => ""
  | zeros => "|zero"
  | only x => "|" ++ x.key
  | allBut xs => "|not|" ++ ",".intercalate (xs.map Double.key)

theorem key_eq (w : FloatingWidth) (s : FloatingSet) : s.key w = w.name ++ s.keyTail := by
  cases s with
  | any => exact String.append_empty.symm
  | zeros => rfl
  | only x => exact String.append_assoc
  | allBut xs => exact String.append_assoc

/-- Whether two sets have one form with numbers of the same keys. -/
inductive Alike : FloatingSet → FloatingSet → Prop where
  | any : Alike any any
  | zeros : Alike zeros zeros
  | only {x y : Double} : x.key = y.key → Alike (only x) (only y)
  | allBut {xs ys : List Double} : xs.map Double.key = ys.map Double.key →
      Alike (allBut xs) (allBut ys)

theorem Alike.covers {s t : FloatingSet} (h : s.Alike t) : s.covers t = true := by
  cases h with
  | any => rfl
  | zeros => exact covers_self _
  | only h => exact same_iff.2 h
  | allBut h =>
    apply listedIn_iff.2
    intro x hx
    obtain ⟨y, hy, hyx⟩ := List.mem_map.1 (h ▸ List.mem_map_of_mem hx)
    exact ⟨y, hy, same_iff.2 hyx.symm⟩

theorem Alike.keyTail_eq {s t : FloatingSet} (h : s.Alike t) : s.keyTail = t.keyTail := by
  cases h with
  | any => rfl
  | zeros => rfl
  | only h => rw [keyTail, keyTail, h]
  | allBut h => rw [keyTail, keyTail, h]

/-- The forms have different keys, and the keys of the numbers can be told from the key of a set. -/
theorem alike_of_keyTail_eq {s t : FloatingSet} (hs : s.Valid) (ht : t.Valid)
    (h : s.keyTail = t.keyTail) : s.Alike t := by
  have hz (x : Double) : 'z' ∉ x.key.toList := Double.notMem_key (by decide) rfl
  have hbar (x : Double) : '|' ∉ x.key.toList := Double.notMem_key (by decide) rfl
  have hcomma (xs : List Double) : ∀ k ∈ xs.map Double.key, ',' ∉ k.toList := by
    intro k hk
    obtain ⟨x, _, rfl⟩ := List.mem_map.1 hk
    exact Double.notMem_key (by decide) rfl
  have hlist := congrArg String.toList h
  match s, t with
  | any, any => exact .any
  | zeros, zeros => exact .zeros
  | any, zeros | any, only _ | any, allBut _ | zeros, any | only _, any | allBut _, any =>
    simp [keyTail] at hlist
  | zeros, only y =>
    -- `zero` is no key of a number.
    have hy : y.key.toList = ['z', 'e', 'r', 'o'] := by simpa [keyTail] using hlist.symm
    exact absurd (by rw [hy]; decide) (hz y)
  | only x, zeros =>
    have hx : x.key.toList = ['z', 'e', 'r', 'o'] := by simpa [keyTail] using hlist
    exact absurd (by rw [hx]; decide) (hz x)
  | zeros, allBut _ => simp [keyTail] at hlist
  | allBut _, zeros => simp [keyTail] at hlist
  | only x, only y =>
    exact .only (by simpa [keyTail] using h)
  | only x, allBut ys =>
    -- The bar behind `not` occurs in no key of a number.
    have hx : "not|".toList ++ (",".intercalate (ys.map Double.key)).toList = x.key.toList := by
      simpa [keyTail] using hlist.symm
    exact absurd (by rw [← hx]; simp) (hbar x)
  | allBut xs, only y =>
    have hy : "not|".toList ++ (",".intercalate (xs.map Double.key)).toList = y.key.toList := by
      simpa [keyTail] using hlist
    exact absurd (by rw [← hy]; simp) (hbar y)
  | allBut xs, allBut ys =>
    have hjoined : ",".intercalate (xs.map Double.key) = ",".intercalate (ys.map Double.key) := by
      simpa [keyTail] using h
    exact .allBut (Text.intercalate_inj (c := ',') rfl (by simpa using hs.1) (by simpa using ht.1)
      (hcomma xs) (hcomma ys) hjoined)

theorem key_inj {s t : FloatingSet} (hs : s.Valid) (ht : t.Valid) {w v : FloatingWidth}
    (h : s.key w = t.key v) : w = v ∧ s.Alike t := by
  rw [key_eq, key_eq] at h
  have hwv : w = v := by
    have hlist := congrArg String.toList h
    cases w <;> cases v <;> simp [FloatingWidth.name] at hlist ⊢
  subst hwv
  exact ⟨rfl, alike_of_keyTail_eq hs ht (String.append_right_inj _ |>.1 h)⟩

/-! ## Joins -/

theorem valid_join {s t : FloatingSet} (hs : s.Valid) (ht : t.Valid) : (s.join t).Valid := by
  unfold join
  split
  · exact hs
  · split
    · exact ht
    · unfold joinApart
      split
      · exact valid_excluding _
      · exact valid_excluding _
      · split <;> trivial
      · trivial

theorem joinApart_covers {s t : FloatingSet} (hs : s.Valid) (ht : t.Valid) :
    (joinApart s t).covers s = true ∧ (joinApart s t).covers t = true := by
  unfold joinApart
  split
  · next xs t =>
    constructor
    · apply excluding_covers_iff.2
      intro x hx
      exact contains_allBut_eq_false.2 ⟨x, (List.mem_filter.1 hx).1, rfl⟩
    · exact excluding_covers_iff.2 fun x hx => by simpa using (List.mem_filter.1 hx).2
  · next s ys _ =>
    constructor
    · exact excluding_covers_iff.2 fun x hx => by simpa using (List.mem_filter.1 hx).2
    · apply excluding_covers_iff.2
      intro x hx
      exact contains_allBut_eq_false.2 ⟨x, (List.mem_filter.1 hx).1, rfl⟩
  · next x y =>
    split
    · next hzeros => exact Bool.and_eq_true_iff.1 hzeros
    · exact ⟨any_covers _, any_covers _⟩
  · exact ⟨any_covers _, any_covers _⟩

theorem join_covers {s t : FloatingSet} (hs : s.Valid) (ht : t.Valid) :
    (s.join t).covers s = true ∧ (s.join t).covers t = true := by
  unfold join
  split
  · next hst => exact ⟨covers_self s, hst⟩
  · split
    · next hts => exact ⟨hts, covers_self t⟩
    · exact joinApart_covers hs ht

/-- Of two lists of excluded numbers, each one keeps the numbers that the other one lists too. -/
theorem excluding_filter_covers (xs ys : List Double) :
    (excluding (xs.filter (!(allBut ys).contains ·))).covers
      (excluding (ys.filter (!(allBut xs).contains ·))) = true := by
  apply excluding_covers_iff.2
  intro x hx
  obtain ⟨hx, hnot⟩ := List.mem_filter.1 hx
  obtain ⟨y, hy, hyx⟩ := contains_allBut_eq_false.1 (by simpa using hnot)
  refine contains_excluding_eq_false.2 ⟨y, List.mem_filter.2 ⟨hy, ?_⟩, hyx⟩
  simpa using contains_allBut_eq_false.2 ⟨x, hx, hyx.symm⟩

theorem key_joinApart_comm (s t : FloatingSet) (w : FloatingWidth) :
    (joinApart s t).key w = (joinApart t s).key w := by
  cases s with
  | allBut xs =>
    cases t with
    | allBut ys =>
      exact covers_antisymm (valid_excluding _) (valid_excluding _) (excluding_filter_covers xs ys)
        (excluding_filter_covers ys xs) w
    | any => rfl
    | zeros => rfl
    | only y => rfl
  | any => cases t <;> rfl
  | zeros => cases t <;> rfl
  | only x =>
    cases t with
    | only y => rw [joinApart, joinApart, Bool.and_comm]
    | any => rfl
    | zeros => rfl
    | allBut ys => rfl

theorem key_join_comm {s t : FloatingSet} (hs : s.Valid) (ht : t.Valid) (w : FloatingWidth) :
    (s.join t).key w = (t.join s).key w := by
  unfold join
  apply apply_choice_comm (f := key w)
  · intro hst hts
    exact covers_antisymm hs ht hst hts w
  · intro _ _
    exact key_joinApart_comm s t w

/-! ## Meets -/

/-- The zeros among the members of a set, by what the set covers. -/
theorem zerosOf?_eq_some {s u : FloatingSet} (h : zerosOf? s = some u) :
    (∃ x, u = only x ∧ x.isZero = true ∧ s.contains x = true) ∨
      (u = zeros ∧ s.covers zeros = true) := by
  unfold zerosOf? at h
  have hmem {x : Double} : x ∈ Double.zeros.filter (s.contains ·) ↔
      x ∈ Double.zeros ∧ s.contains x = true := List.mem_filter
  split at h
  · exact nomatch h
  · next x hx =>
    obtain ⟨hzero, hx⟩ := hmem.1 (hx ▸ List.mem_singleton_self x)
    refine .inl ⟨x, (Option.some.inj h).symm, ?_, hx⟩
    rcases List.mem_cons.1 hzero with rfl | hzero
    · rfl
    · rw [List.mem_singleton.1 hzero]
      rfl
  · next hnil hone =>
    refine .inr ⟨(Option.some.inj h).symm, covers_zeros_iff.2 ?_⟩
    cases hpos : s.contains .zero <;> cases hneg : s.contains .negativeZero
    · exact absurd (by simp [Double.zeros, hpos, hneg]) hnil
    · exact absurd (by simp [Double.zeros, hpos, hneg]) (hone .negativeZero)
    · exact absurd (by simp [Double.zeros, hpos, hneg]) (hone .zero)
    · exact ⟨rfl, rfl⟩

theorem exists_zerosOf?_covers {s : FloatingSet} {x : Double} (hzero : x.isZero = true)
    (hx : s.contains x = true) : ∃ u, zerosOf? s = some u ∧ u.contains x = true := by
  have hmem : x ∈ Double.zeros.filter (s.contains ·) :=
    List.mem_filter.2 ⟨Double.mem_zeros hzero, hx⟩
  unfold zerosOf?
  split
  · next hnil => exact absurd (hnil ▸ hmem) List.not_mem_nil
  · next y hy =>
    rw [hy, List.mem_singleton] at hmem
    exact ⟨only y, rfl, by rw [hmem]; exact Double.same_self y⟩
  · exact ⟨zeros, rfl, hzero⟩

theorem valid_meet? {s t u : FloatingSet} (hs : s.Valid) (ht : t.Valid) (h : s.meet? t = some u) :
    u.Valid := by
  have hzeros {s : FloatingSet} (h : zerosOf? s = some u) : u.Valid := by
    rcases zerosOf?_eq_some h with ⟨x, rfl, _⟩ | ⟨rfl, _⟩ <;> trivial
  unfold meet? at h
  split at h
  · exact Option.some.inj h ▸ ht
  · split at h
    · exact Option.some.inj h ▸ hs
    · unfold meetApart? at h
      split at h
      · exact Option.some.inj h ▸ valid_excluding _
      · exact hzeros h
      · exact hzeros h
      · exact nomatch h

theorem zeros_covers_of_zerosOf? {s u : FloatingSet} (h : zerosOf? s = some u) :
    zeros.covers u = true ∧ s.covers u = true := by
  rcases zerosOf?_eq_some h with ⟨x, rfl, hzero, hx⟩ | ⟨rfl, hs⟩
  · exact ⟨hzero, hx⟩
  · exact ⟨covers_self zeros, hs⟩

theorem covers_meet? {s t u : FloatingSet} (hs : s.Valid) (ht : t.Valid) (h : s.meet? t = some u) :
    s.covers u = true ∧ t.covers u = true := by
  unfold meet? at h
  split at h
  · next hst => exact Option.some.inj h ▸ ⟨hst, covers_self t⟩
  · split at h
    · next hts => exact Option.some.inj h ▸ ⟨covers_self s, hts⟩
    · unfold meetApart? at h
      split at h
      · next xs ys =>
        obtain rfl := Option.some.inj h
        constructor
        · apply (allBut_covers_iff hs.1).2
          intro x hx
          exact contains_excluding_eq_false.2 ⟨x, List.mem_append_left _ hx, rfl⟩
        · apply (allBut_covers_iff ht.1).2
          intro y hy
          exact contains_excluding_eq_false.2 ⟨y, List.mem_append_right _ hy, rfl⟩
      · exact zeros_covers_of_zerosOf? h
      · exact (zeros_covers_of_zerosOf? h).symm
      · exact nomatch h

/-- A set that covers what a single number covers also covers that number. -/
theorem covers_only_of_covers {t z : FloatingSet} {x : Double} (hz : (only x).covers z = true)
    (ht : t.covers z = true) : t.covers (only x) = true := by
  match z with
  | zeros =>
    have hzeros := covers_zeros_iff.1 hz
    exact absurd ((same_iff.1 hzeros.1).symm.trans (same_iff.1 hzeros.2)) (by decide)
  | only y =>
    rw [show t.covers (only x) = t.contains x from rfl, contains_congr (same_iff.1 hz)]
    exact ht

theorem exists_zerosOf?_of_covers {s z : FloatingSet} (hzeros : zeros.covers z = true)
    (hs : s.covers z = true) : ∃ u, zerosOf? s = some u ∧ u.covers z = true := by
  match z with
  | zeros =>
    obtain ⟨hpos, hneg⟩ := covers_zeros_iff.1 hs
    exact ⟨zeros, by simp [zerosOf?, Double.zeros, hpos, hneg], covers_self zeros⟩
  | only y => exact exists_zerosOf?_covers hzeros hs

/-- The meet is the greatest set that both cover. -/
theorem exists_meet?_covers {s t z : FloatingSet} (hs : s.Valid) (ht : t.Valid)
    (hsz : s.covers z = true) (htz : t.covers z = true) :
    ∃ u, s.meet? t = some u ∧ u.covers z = true := by
  unfold meet?
  by_cases hst : s.covers t = true
  · exact ⟨t, if_pos hst, htz⟩
  rw [if_neg hst]
  by_cases hts : t.covers s = true
  · exact ⟨s, if_pos hts, hsz⟩
  rw [if_neg hts]
  -- `any` and single numbers are comparable with every set that has a member in common with them.
  match s, t with
  | any, t => exact absurd (any_covers t) hst
  | s, any => exact absurd (any_covers s) hts
  | only x, _ => exact absurd (covers_only_of_covers hsz htz) hts
  | _, only y => exact absurd (covers_only_of_covers htz hsz) hst
  | zeros, t => exact exists_zerosOf?_of_covers hsz htz
  | allBut xs, zeros => exact exists_zerosOf?_of_covers htz hsz
  | allBut xs, allBut ys =>
    refine ⟨_, rfl, excluding_covers_iff.2 ?_⟩
    intro x hx
    rcases List.mem_append.1 hx with hx | hx
    · exact (allBut_covers_iff hs.1).1 hsz x hx
    · exact (allBut_covers_iff ht.1).1 htz x hx

theorem meet?_comm {s t u : FloatingSet} (hs : s.Valid) (ht : t.Valid) (h : s.meet? t = some u)
    (w : FloatingWidth) : ∃ v, t.meet? s = some v ∧ u.key w = v.key w := by
  -- Both meets are greatest lower bounds, so each of them covers the other one.
  obtain ⟨hsu, htu⟩ := covers_meet? hs ht h
  obtain ⟨v, hv, hvu⟩ := exists_meet?_covers ht hs htu hsu
  obtain ⟨htv, hsv⟩ := covers_meet? ht hs hv
  obtain ⟨u', hu', huv⟩ := exists_meet?_covers hs ht hsv htv
  obtain rfl : u = u' := Option.some.inj (h.symm.trans hu')
  exact ⟨v, hv, covers_antisymm (valid_meet? hs ht h) (valid_meet? ht hs hv) huv hvu w⟩

theorem key_meet?_comm {s t : FloatingSet} (hs : s.Valid) (ht : t.Valid) (w : FloatingWidth) :
    (s.meet? t).map (key w) = (t.meet? s).map (key w) := by
  cases hst : s.meet? t with
  | none =>
    cases hts : t.meet? s with
    | none => rfl
    | some v =>
      obtain ⟨u, hu, _⟩ := meet?_comm ht hs hts w
      exact nomatch hst.symm.trans hu
  | some u =>
    obtain ⟨v, hv, hkey⟩ := meet?_comm hs ht hst w
    rw [hv, Option.map_some, Option.map_some, hkey]

/-! ## Complements of sets -/

theorem valid_negate? {s u : FloatingSet} (h : s.negate? = some u) : u.Valid := by
  unfold negate? at h
  split at h
  · exact nomatch h
  · exact Option.some.inj h ▸ valid_excluding _
  · exact Option.some.inj h ▸ valid_excluding _
  · exact Option.some.inj h ▸ trivial
  · split at h
    · exact Option.some.inj h ▸ trivial
    · exact nomatch h
  · exact nomatch h

end FloatingSet

end ValueLattice
