import Mathlib.Data.Set.Card
import Mathlib.Order.Interval.Finset.Nat
import ValueLattice.Proofs.Elements.Widening

/-!
# Iterations that widen

An iteration widens its state by one new element after another. It ends when its states stop to
ascend, so what matters is how many of its steps can.

* `widenRun`: the states of an iteration, `ascents`: the steps that ascend;
* `encard_ascents_le`: steps that are paid for by a rank are no more than the rank at the start;
* `ascents_domain`: at most two steps ascend where growing sets of integers jump to the domain;
* `ascents_wideRange`: where they jump to recorded wide ranges, each recorded range may cost a step
  and the domain one more, and so may the wide range recorded at the start;
* `not_bounded_wideRange`: so wide ranges that grow themselves are climbed one by one.
-/

namespace ValueLattice.Element

variable {r : Registry} {strategy : Strategy}

/-! ## Runs and their ranks -/

/-- The states of an iteration that begins with an element and widens by one new element at each
step. -/
def widenRun (r : Registry) (strategy : Strategy) (start : Element) (new : ℕ → Element) :
    ℕ → Element
  | 0 => start
  | n + 1 => widen r strategy (widenRun r strategy start new n) (new n)

/-- The steps that ascend: the state before does not contain the state after. -/
def ascents (r : Registry) (states : ℕ → Element) : Set ℕ :=
  {n | ¬ covers r (states n) (states (n + 1)) = true}

/-- A step from one state to the next one lowers the rank, or it does not ascend and leaves the rank
no higher. -/
def Paid (r : Registry) (rank : Element → ℕ) (before after : Element) : Prop :=
  rank after < rank before ∨ covers r before after = true ∧ rank after ≤ rank before

/-- A rank that falls at every step of a set bounds the number of these steps. -/
theorem encard_le_of_antitone {rank : ℕ → ℕ} {steps : Set ℕ} (hrank : Antitone rank)
    (hfall : ∀ n ∈ steps, rank (n + 1) < rank n) : steps.encard ≤ rank 0 := by
  have hstrict : StrictAntiOn rank steps := fun m hm n _ hmn =>
    (hrank (Nat.succ_le_of_lt hmn)).trans_lt (hfall m hm)
  have himage : rank '' steps ⊆ (Finset.Icc 1 (rank 0) : Finset ℕ) := by
    rintro _ ⟨n, hn, rfl⟩
    exact Finset.mem_coe.2 (Finset.mem_Icc.2
      ⟨(Nat.zero_le _).trans_lt (hfall n hn), hrank (Nat.zero_le n)⟩)
  calc steps.encard = (rank '' steps).encard := hstrict.injOn.encard_image.symm
    _ ≤ ((Finset.Icc 1 (rank 0) : Finset ℕ) : Set ℕ).encard := Set.encard_le_encard himage
    _ = rank 0 := by
      rw [Set.encard_coe_eq_coe_finsetCard, Nat.card_Icc, Nat.add_sub_cancel]

/-- There are at least as many steps as come before one, if all of these are steps. -/
theorem le_encard_of_forall_lt {steps : Set ℕ} {k : ℕ} (h : ∀ n < k, n ∈ steps) :
    (k : ℕ∞) ≤ steps.encard := by
  have hsub : ((Finset.range k : Finset ℕ) : Set ℕ) ⊆ steps := fun n hn =>
    h n (Finset.mem_range.1 (Finset.mem_coe.1 hn))
  calc (k : ℕ∞) = ((Finset.range k : Finset ℕ) : Set ℕ).encard := by
        rw [Set.encard_coe_eq_coe_finsetCard, Finset.card_range]
    _ ≤ steps.encard := Set.encard_le_encard hsub

theorem encard_ascents_le {rank : Element → ℕ} {states : ℕ → Element}
    (h : ∀ n, Paid r rank (states n) (states (n + 1))) :
    (ascents r states).encard ≤ rank (states 0) := by
  have hrank : Antitone fun n => rank (states n) :=
    antitone_nat_of_succ_le fun n => (h n).elim Nat.le_of_lt And.right
  refine encard_le_of_antitone hrank fun n hn => ?_
  exact (h n).elim id fun hcovers => absurd hcovers.1 hn

/-! ## Widening by a set of integers -/

theorem widen_bottom (old : Element) : widen r strategy old bottom = old := by
  rcases widen_cases r strategy old bottom with h | ⟨s, hjoin, hnot, _⟩
  · rw [h, join_bottom]
  · rw [join_bottom] at hjoin
    exact absurd (hjoin ▸ covers_self r old) hnot

theorem widen_top (old : Element) : widen r strategy old top = top := by
  rw [widen, join_top]

theorem widen_integral_of_width_ne {s t : IntegralSet} (h : s.width ≠ t.width) :
    widen r strategy (integral s) (integral t) = top := by
  rw [widen, integral_join, joinIntegral_integral, if_neg h]

/-- Sets of one width widen to their join where the old one contains it. -/
theorem widen_integral {s t u : IntegralSet} (hwidth : s.width = t.width) (h : s.join? t = some u) :
    widen r strategy (integral s) (integral t) =
      if s.covers u then integral u else widenTarget strategy u := by
  rw [widen, integral_join, joinIntegral_integral, if_pos hwidth, h]
  rfl

/-! ## Jumping to the domain -/

/-- Everything, nothing, or a set of integers. -/
def integerKinds : List ElementKind := [.top, .bottom, .integral]

theorem eq_of_kind_mem {e : Element} (h : e.kind ∈ integerKinds) :
    e = top ∨ e = bottom ∨ ∃ s, e = integral s := by
  cases e with
  | top => exact .inl rfl
  | bottom => exact .inr (.inl rfl)
  | integral s => exact .inr (.inr ⟨s, rfl⟩)
  | boolean s => cases s <;> simp [kind, integerKinds] at h
  | floating w s => cases s <;> simp [kind, integerKinds] at h
  | _ => simp [kind, integerKinds] at h

/-- How many steps may ascend from an element when growing sets of integers jump to the domain. -/
def domainRank : Element → ℕ
  | top => 0
  | bottom => 2
  | integral s => if s.range = s.width.domain then 1 else 2
  | _ => 1

theorem domainRank_pos {e : Element} (h : e ≠ top) : 0 < domainRank e := by
  cases e with
  | top => exact absurd rfl h
  | bottom => exact Nat.two_pos
  | integral s =>
    show 0 < if s.range = s.width.domain then 1 else 2
    split <;> decide
  | _ => exact Nat.one_pos

theorem domainRank_le (e : Element) : domainRank e ≤ 2 := by
  cases e with
  | integral s =>
    show (if s.range = s.width.domain then 1 else 2) ≤ 2
    split <;> decide
  | top => exact Nat.zero_le 2
  | bottom => exact Nat.le_refl 2
  | _ => exact Nat.le_succ 1

theorem domainRank_all (w : IntegralWidth) : domainRank (integral (.all w)) = 1 := if_pos rfl

theorem domainRank_eq_two {s : IntegralSet} (h : s.range ≠ s.width.domain) :
    domainRank (integral s) = 2 := if_neg h

theorem widenTarget_domain (s : IntegralSet) :
    widenTarget .domain s = integral (.all s.width) :=
  if_neg fun h => Strategy.noConfusion h.1

/-- A domain stays what it is. -/
theorem widen_domain_of_eq {s t : IntegralSet} (hwidth : s.width = t.width)
    (hall : s.range = s.width.domain) :
    ∃ u, u.width = s.width ∧ u.range = s.width.domain ∧
      widen r .domain (integral s) (integral t) = integral u := by
  -- The union has members even if the ranges are not canonical, so the join is a set of integers.
  have hne : (s.range.union t.range).intervals ≠ [] :=
    RangeSet.intervals_ne_nil (RangeSet.mem_union_of_mem (.inl (hall ▸ zero_mem_domain s.width)))
  have hjoin := IntegralSet.normal?_eq_some s.width (IntegralSet.combinedWide RangeSet.union s t) hne
  rw [widen_integral hwidth hjoin]
  split
  · next hcovers =>
    have hunion : s.range.union t.range = s.range :=
      RangeSet.union_eq_self (hall ▸ IntegerType.canonical_domain _)
        (Bool.and_eq_true_iff.1 hcovers).2
    refine ⟨_, ?_, ?_, rfl⟩
    · rfl
    · exact hunion.trans hall
  · exact ⟨.all s.width, rfl, rfl, widenTarget_domain _⟩

/-- A set of integers keeps its members or jumps to its domain. -/
theorem paid_domain_integral {s t : IntegralSet} (hwidth : s.width = t.width) :
    Paid r domainRank (integral s) (widen r .domain (integral s) (integral t)) := by
  by_cases hall : s.range = s.width.domain
  · obtain ⟨u, huw, hur, hu⟩ := widen_domain_of_eq (r := r) hwidth hall
    rw [hu]
    refine .inr ⟨?_, Nat.le_of_eq ?_⟩
    · exact covers_iff.2 (.integral (by rw [IntegralSet.covers, huw, hur, hall]; simp))
    · rw [domainRank, domainRank, if_pos hall, if_pos (by rw [huw, hur])]
  · cases h : s.join? t with
    | none =>
      have hwiden : widen r .domain (integral s) (integral t) = bottom := by
        rw [widen, integral_join, joinIntegral_integral, if_pos hwidth, h]
        rfl
      rw [hwiden]
      exact .inr ⟨covers_bottom r _, (domainRank_eq_two hall).ge⟩
    | some u =>
      rw [widen_integral hwidth h]
      split
      · next hcovers =>
        exact .inr ⟨hcovers, (domainRank_le _).trans (domainRank_eq_two hall).ge⟩
      · rw [widenTarget_domain]
        left
        rw [domainRank_all, domainRank_eq_two hall]
        exact Nat.one_lt_two

/-- Widening by a set of integers, by all or by nothing ascends at most once from a proper set of
integers to a domain, and once from a domain to everything. -/
theorem paid_domain (old : Element) {new : Element} (hnew : new.kind ∈ integerKinds) :
    Paid r domainRank old (widen r .domain old new) := by
  rcases eq_of_kind_mem hnew with rfl | rfl | ⟨t, rfl⟩
  · rw [widen_top]
    by_cases hold : old = top
    · exact .inr ⟨by rw [hold, top_covers], by rw [hold]⟩
    · exact .inl (domainRank_pos hold)
  · rw [widen_bottom]
    exact .inr ⟨covers_self r old, Nat.le_refl _⟩
  · cases old with
    | top => exact .inr ⟨rfl, Nat.le_refl _⟩
    | bottom =>
      have hwiden : widen r .domain bottom (integral t) = integral (.all t.width) :=
        widenTarget_domain t
      rw [hwiden]
      exact .inl ((domainRank_all t.width).trans_lt Nat.one_lt_two)
    | integral s =>
      by_cases hwidth : s.width = t.width
      · exact paid_domain_integral hwidth
      · rw [widen_integral_of_width_ne hwidth]
        exact .inl (domainRank_pos Element.noConfusion)
    | _ => exact .inl Nat.one_pos

/-- Where growing sets of integers jump to their domain, at most two steps of an iteration over
sets of integers ascend, whatever it starts from. -/
theorem ascents_domain (start : Element) {new : ℕ → Element}
    (hnew : ∀ n, (new n).kind ∈ integerKinds) :
    (ascents r (widenRun r .domain start new)).encard ≤ 2 := by
  have hpaid : ∀ n, Paid r domainRank (widenRun r .domain start new n)
      (widenRun r .domain start new (n + 1)) := fun n => paid_domain _ (hnew n)
  calc (ascents r (widenRun r .domain start new)).encard
      ≤ domainRank start := encard_ascents_le hpaid
    _ ≤ 2 := Nat.cast_le.2 (domainRank_le start)

/-- A count that grows, then an integer of another width, then anything. -/
def mixedCounts : ℕ → Element
  | 0 => integral (.point .int 1)
  | 1 => integral (.point .long 0)
  | _ => top

theorem ascents_domain_mixedCounts :
    (∀ n, (mixedCounts n).kind ∈ integerKinds) ∧
      (ascents textRegistry (widenRun textRegistry .domain (integral (.point .int 0))
        mixedCounts)).encard ≤ 2 ∧
      {0, 1} ⊆ ascents textRegistry (widenRun textRegistry .domain (integral (.point .int 0))
        mixedCounts) := by
  have hkind : ∀ n, (mixedCounts n).kind ∈ integerKinds := by
    rintro (_ | _ | n)
    · decide
    · decide
    · exact List.mem_cons_self
  refine ⟨hkind, ascents_domain _ hkind, ?_⟩
  rintro n (rfl | rfl)
  · show ¬ covers _ _ _ = true
    decide
  · show ¬ covers _ _ _ = true
    decide

/-! ## Jumping to recorded wide ranges -/

/-- The wide ranges, of those that may be recorded, that a set of integers does not contain even
where it returns to its own. -/
def missing (wides : Finset RangeSet) (s : IntegralSet) : Finset RangeSet :=
  wides.filter fun wide => ¬ s.effectiveWide.containsAll wide = true

/-- How many steps may return a set of integers to a recorded wide range. -/
def returns (wides : Finset RangeSet) (s : IntegralSet) : ℕ :=
  (missing wides s).card + if s.wide.isSome then 1 else 0

/-- How many steps may ascend from an element when growing sets of integers of one width jump to
recorded wide ranges. -/
def wideRank (wides : Finset RangeSet) (w : IntegralWidth) : Element → ℕ
  | top => 0
  | bottom => wides.card + 1
  | integral s =>
    if s.width = w then returns wides s + if s.range = w.domain then 0 else 1 else 1
  | _ => 1

variable {wides : Finset RangeSet}

theorem mem_missing {s : IntegralSet} {wide : RangeSet} :
    wide ∈ missing wides s ↔ wide ∈ wides ∧ ¬ s.effectiveWide.containsAll wide = true :=
  Finset.mem_filter

/-- Sets that may return to more miss less. -/
theorem missing_subset {s u : IntegralSet} (hu : u.Valid)
    (h : ∀ n ∈ s.effectiveWide, n ∈ u.effectiveWide) : missing wides u ⊆ missing wides s := by
  intro wide hwide
  obtain ⟨hmem, hnot⟩ := mem_missing.1 hwide
  refine mem_missing.2 ⟨hmem, fun hs => hnot ?_⟩
  exact (RangeSet.containsAll_iff (IntegralSet.canonical_effectiveWide hu)).2
    fun n hn => h n (RangeSet.subset_of_containsAll hs hn)

theorem returns_le_card {t : IntegralSet} (hwides : ∀ wide ∈ t.wide, wide ∈ wides) :
    returns wides t ≤ wides.card := by
  unfold returns
  cases hwide : t.wide with
  | none => exact Finset.card_filter_le _ _
  | some wide =>
    have hown : wide ∉ missing wides t := fun hmem =>
      (mem_missing.1 hmem).2 (by rw [IntegralSet.effectiveWide, hwide]; simp)
    have hproper : missing wides t ⊂ wides :=
      (Finset.ssubset_iff_of_subset (Finset.filter_subset _ _)).2
        ⟨wide, hwides wide hwide, hown⟩
    exact Finset.card_lt_card hproper

/-- A wide range that a join records anew was missing before. -/
theorem returns_join?_le {s t u : IntegralSet} (hs : s.Valid) (ht : t.Valid)
    (hwidth : s.width = t.width) (hwides : ∀ wide ∈ t.wide, wide ∈ wides)
    (h : s.join? t = some u) : returns wides u ≤ returns wides s := by
  have hu := IntegralSet.valid_join? hs ht hwidth h
  have hreturn {n : Int} := IntegralSet.mem_effectiveWide_join? (n := n) hs ht hwidth h
  have hsub : missing wides u ⊆ missing wides s := missing_subset hu fun n hn => hreturn (.inl hn)
  unfold returns
  cases huwide : u.wide with
  | none => exact (Finset.card_le_card hsub).trans (Nat.le_add_right _ _)
  | some recorded =>
    cases hswide : s.wide with
    | some own => exact Nat.add_le_add_right (Finset.card_le_card hsub) 1
    | none =>
      obtain ⟨wide, hwide, hmissing⟩ :
          ∃ wide ∈ t.wide, ¬ s.range.containsAll wide = true := by
        by_contra hall
        have hnone := IntegralSet.wide_join?_eq_none hs ht hswide
          (fun wide hwide => not_not.1 fun hnot => hall ⟨wide, hwide, hnot⟩) h
        exact nomatch huwide.symm.trans hnone
      have hbefore : wide ∈ missing wides s :=
        mem_missing.2 ⟨hwides wide hwide, by rwa [IntegralSet.effectiveWide, hswide]⟩
      have hafter : wide ∉ missing wides u := fun hmem =>
        (mem_missing.1 hmem).2
          ((RangeSet.containsAll_iff (IntegralSet.canonical_effectiveWide hu)).2 fun n hn =>
            hreturn (.inr (by rwa [IntegralSet.effectiveWide, hwide])))
      exact Finset.card_lt_card ((Finset.ssubset_iff_of_subset hsub).2 ⟨wide, hbefore, hafter⟩)

theorem wideRank_integral {w : IntegralWidth} {s : IntegralSet} (hwidth : s.width = w) :
    wideRank wides w (integral s) = returns wides s + if s.range = w.domain then 0 else 1 :=
  if_pos hwidth

/-- A jump uses up a return. -/
theorem wideRank_widenTarget_le {u : IntegralSet} (hu : u.Valid) :
    wideRank wides u.width (widenTarget .wideRange u) ≤ returns wides u := by
  rcases widenTarget_cases .wideRange hu with ⟨wide, hwide, h⟩ | h
  · have hjump : returns wides ⟨u.width, wide, none⟩ + 1 = returns wides u := by
      simp only [returns, missing, IntegralSet.effectiveWide, Option.mem_def.1 hwide]
      simp
    rw [h, wideRank, if_pos rfl, ← hjump]
    split
    · exact Nat.le_succ _
    · exact Nat.le_refl _
  · have hsub : missing wides (.all u.width) ⊆ missing wides u :=
      missing_subset (IntegralSet.valid_all u.width) (IntegralSet.effectiveWide_in_domain hu)
    have hall : wideRank wides u.width (integral (.all u.width)) =
        (missing wides (.all u.width)).card := by simp [wideRank, returns, IntegralSet.all]
    rw [h, hall]
    exact (Finset.card_le_card hsub).trans (Nat.le_add_right _ _)

theorem wideRank_le (w : IntegralWidth) (e : Element) : wideRank wides w e ≤ wides.card + 2 := by
  cases e with
  | integral s =>
    have hmissing : (missing wides s).card ≤ wides.card := Finset.card_filter_le _ _
    simp only [wideRank, returns]
    grind
  | _ => simp only [wideRank]; omega

/-- Sets of integers of one width keep their members, or jump and use up a return. -/
theorem paid_wideRange_integral {s t : IntegralSet} (hs : s.Valid) (ht : t.Valid)
    (hwidth : s.width = t.width) (hwides : ∀ wide ∈ t.wide, wide ∈ wides) :
    Paid r (wideRank wides s.width) (integral s)
      (widen r .wideRange (integral s) (integral t)) := by
  obtain ⟨u, hjoin, _, huw, hur⟩ := IntegralSet.exists_join? hs.normal ht.normal
  have hu := IntegralSet.valid_join? hs ht hwidth hjoin
  have hreturns := returns_join?_le hs ht hwidth hwides hjoin
  rw [widen_integral hwidth hjoin]
  split
  · next hcovers =>
    have hrange : u.range = s.range := by
      rw [hur]
      exact RangeSet.union_eq_self hs.range_canonical (hur ▸ (Bool.and_eq_true_iff.1 hcovers).2)
    refine .inr ⟨hcovers, ?_⟩
    rw [wideRank_integral huw, wideRank_integral rfl, hrange]
    exact Nat.add_le_add_right hreturns _
  · next hcovers =>
    have hproper : s.range ≠ s.width.domain := by
      intro hall
      have hin : ∀ n ∈ u.range, n ∈ s.range := by
        rw [hall, ← huw]
        exact hu.range_in_domain
      have hsu : covers r (integral s) (integral u) = true :=
        integral_covers_of_subset hs.range_canonical huw.symm hin
      exact hcovers hsu
    left
    rw [← huw]
    calc wideRank wides u.width (widenTarget .wideRange u)
        ≤ returns wides u := wideRank_widenTarget_le hu
      _ ≤ returns wides s := hreturns
      _ < wideRank wides u.width (integral s) := by
          rw [wideRank_integral huw.symm, huw, if_neg hproper]
          exact Nat.lt_succ_self _

theorem paid_wideRange {old : Element} {t : IntegralSet} (hold : old.IntegersValid) (ht : t.Valid)
    (hwides : ∀ wide ∈ t.wide, wide ∈ wides) :
    Paid r (wideRank wides t.width) old (widen r .wideRange old (integral t)) := by
  cases old with
  | top => exact .inr ⟨rfl, Nat.le_refl _⟩
  | bottom =>
    left
    calc wideRank wides t.width (widenTarget .wideRange t)
        ≤ returns wides t := wideRank_widenTarget_le ht
      _ ≤ wides.card := returns_le_card hwides
      _ < wides.card + 1 := Nat.lt_succ_self _
  | integral s =>
    by_cases hwidth : s.width = t.width
    · rw [← hwidth]
      exact paid_wideRange_integral hold ht hwidth hwides
    · rw [widen_integral_of_width_ne hwidth]
      left
      show 0 < if s.width = t.width then _ else 1
      rw [if_neg hwidth]
      exact Nat.one_pos
  | _ => exact .inl Nat.one_pos

/-- Where growing sets of integers jump to recorded wide ranges, the steps of an iteration over
sets of one width that ascend are at most two more than the wide ranges that the sets record. -/
theorem ascents_wideRange {start : Element} {new : ℕ → IntegralSet} {w : IntegralWidth}
    (hstart : start.IntegersValid) (hvalid : ∀ n, (new n).Valid) (hwidth : ∀ n, (new n).width = w)
    (hwides : ∀ n, ∀ wide ∈ (new n).wide, wide ∈ wides) :
    (ascents r (widenRun r .wideRange start fun n => integral (new n))).encard ≤
      wides.card + 2 := by
  have hstates : ∀ n, (widenRun r .wideRange start (fun n => integral (new n)) n).IntegersValid := by
    intro n
    induction n with
    | zero => exact hstart
    | succ n ih => exact integersValid_widen ih (hvalid n)
  have hpaid : ∀ n, Paid r (wideRank wides w)
      (widenRun r .wideRange start (fun n => integral (new n)) n)
      (widenRun r .wideRange start (fun n => integral (new n)) (n + 1)) := fun n =>
    hwidth n ▸ paid_wideRange (hstates n) (hvalid n) (hwides n)
  calc (ascents r (widenRun r .wideRange start fun n => integral (new n))).encard
      ≤ wideRank wides w start := encard_ascents_le hpaid
    _ ≤ wides.card + 2 := by exact_mod_cast wideRank_le w start

/-- A count that leaves its wide range, and then the one recorded with it. -/
def leavingCounts : ℕ → IntegralSet
  | 0 => .point .int 5
  | 1 => ⟨.int, .point 120, some (.range 120 130)⟩
  | _ => .point .int 150

theorem ascents_wideRange_leavingCounts :
    (indexUpTo 0).IntegersValid ∧ (∀ n, (leavingCounts n).Valid) ∧
      (∀ n, (leavingCounts n).width = .int) ∧
      (∀ n, ∀ wide ∈ (leavingCounts n).wide, wide ∈ ({.range 120 130} : Finset RangeSet)) ∧
      (ascents textRegistry (widenRun textRegistry .wideRange (indexUpTo 0)
        fun n => integral (leavingCounts n))).encard ≤ 3 ∧
      {0, 1, 2} ⊆ ascents textRegistry (widenRun textRegistry .wideRange (indexUpTo 0)
        fun n => integral (leavingCounts n)) := by
  have hbuilt : Built textRegistry 0 .any (indexUpTo 0) := built_indexUpTo (by decide)
  have hstart : (indexUpTo 0).IntegersValid := hbuilt.integersValid
  have hvalid : ∀ n, (leavingCounts n).Valid := by
    rintro (_ | _ | n)
    · exact IntegralSet.valid_point (mem_int_domain (by decide) (by decide))
    · have hsome : IntegralSet.normal? .int (.point 120) (some (.range 120 130)) =
          some (leavingCounts 1) := rfl
      refine IntegralSet.valid_normal? (RangeSet.canonical_point 120) (fun m hm => ?_) hsome
      exact RangeSet.mem_singleton_point.1 hm ▸ mem_int_domain (by decide) (by decide)
    · exact IntegralSet.valid_point (mem_int_domain (by decide) (by decide))
  have hwidth : ∀ n, (leavingCounts n).width = .int := by
    rintro (_ | _ | n) <;> rfl
  have hwides : ∀ n, ∀ wide ∈ (leavingCounts n).wide,
      wide ∈ ({.range 120 130} : Finset RangeSet) := by
    rintro (_ | _ | n) wide hwide
    · exact nomatch hwide
    · exact Finset.mem_singleton.2 (Option.some.inj hwide).symm
    · exact nomatch hwide
  refine ⟨hstart, hvalid, hwidth, hwides, ascents_wideRange hstart hvalid hwidth hwides, ?_⟩
  rintro n (rfl | rfl | rfl)
  · show ¬ covers _ _ _ = true
    decide
  · show ¬ covers _ _ _ = true
    decide
  · show ¬ covers _ _ _ = true
    decide

/-! ## Climbing wide ranges -/

/-- A set of integers that grows inside a wide range jumps to it. -/
theorem widen_wideRange_of_inside {s t : IntegralSet} {wide : RangeSet} (hs : s.Valid)
    (ht : t.Valid) (hwidth : s.width = t.width) (hnone : s.wide = none)
    (hwide : t.wide = some wide) (hsub : ∀ n ∈ s.range.union t.range, n ∈ wide)
    (hproper : ∃ n ∈ wide, n ∉ s.range.union t.range) (hnew : ∃ n ∈ t.range, n ∉ s.range) :
    widen r .wideRange (integral s) (integral t) = integral ⟨s.width, wide, none⟩ := by
  obtain ⟨u, hjoin, _, huw, _⟩ := IntegralSet.exists_join? hs.normal ht.normal
  have hu := IntegralSet.valid_join? hs ht hwidth hjoin
  have hwides : s.range.union wide = wide := by
    rw [RangeSet.union_comm hs.range_canonical (ht.wide_canonical wide hwide)]
    exact if_pos ((RangeSet.containsAll_iff (ht.wide_canonical wide hwide)).2
      fun n hn => hsub n (RangeSet.mem_union_of_mem (.inl hn)))
  have hrecorded : u.wide = some wide := by
    rw [IntegralSet.eq_of_normal?_eq_some hjoin]
    show (IntegralSet.combinedWide RangeSet.union s t).bind _ = some wide
    simp only [IntegralSet.combinedWide, IntegralSet.effectiveWide, hnone, hwide, hwides,
      Option.isNone_none, Option.isNone_some, Bool.and_false, Option.getD_none, Option.getD_some]
    exact IntegralSet.recordedWide_of_proper (ht.wide_canonical wide hwide)
      (hwidth ▸ ht.wide_in_domain wide hwide) hsub hproper
  have hgrows : ¬ s.covers u = true := by
    intro hcovers
    obtain ⟨n, hn, hout⟩ := hnew
    have htu := (IntegralSet.join?_covers hs.normal ht.normal hwidth hjoin).2
    exact hout (RangeSet.subset_of_containsAll (Bool.and_eq_true_iff.1 hcovers).2
      (RangeSet.subset_of_containsAll (Bool.and_eq_true_iff.1 htu).2 hn))
  rw [widen_integral hwidth hjoin, if_neg hgrows, widenTarget_wideRange hu hrecorded, huw]

/-- An index just above a limit, below a higher limit. -/
def indexAbove (limit : Int) : IntegralSet :=
  ⟨.int, .point (limit + 1), some (.range 0 (limit + 10))⟩

theorem ofRangeWithWide_indexAbove {limit : Int} (hlow : 0 ≤ limit) (hhigh : limit + 10 < 2 ^ 31) :
    ofRangeWithWide .int (.point (limit + 1)) (some (.range 0 (limit + 10))) =
      integral (indexAbove limit) := by
  have hrecorded : IntegralSet.recordedWide .int (.point (limit + 1)) (.range 0 (limit + 10)) =
      some (.range 0 (limit + 10)) := by
    refine IntegralSet.recordedWide_of_proper (RangeSet.canonical_range _ _) ?_ ?_ ?_
    · intro n hn
      obtain ⟨hn0, hn⟩ := RangeSet.mem_range.1 hn
      exact mem_int_domain hn0 (by omega)
    · intro n hn
      obtain rfl := RangeSet.mem_singleton_point.1 hn
      exact RangeSet.mem_range.2 (by omega)
    · refine ⟨limit + 10, RangeSet.mem_range.2 (by omega), fun h => ?_⟩
      have heq := RangeSet.mem_singleton_point.1 h
      omega
  have hne : (RangeSet.point (limit + 1)).intervals ≠ [] := List.cons_ne_nil _ _
  rw [ofRangeWithWide, IntegralSet.normal?_eq_some _ _ hne, Option.bind_some, hrecorded]
  rfl

theorem built_indexAbove {id : HierarchyId} {v : Vocabulary} {limit : Int} (hlow : 0 ≤ limit)
    (hhigh : limit + 10 < 2 ^ 31) : Built r id v (integral (indexAbove limit)) := by
  rw [← ofRangeWithWide_indexAbove hlow hhigh]
  refine .ofRangeWithWide (.point (limit + 1)) ?_ ?_
  · intro n hn
    obtain rfl := RangeSet.mem_singleton_point.1 hn
    exact mem_int_domain (by omega) (by omega)
  · intro wide hwide
    exact Option.some.inj hwide ▸ .range 0 (limit + 10)

/-- The step of a climb: the index jumps to the higher limit. -/
theorem widen_indexAbove {limit : Int} (hlow : 0 ≤ limit) (hhigh : limit + 10 < 2 ^ 31) :
    widen r .wideRange (integral ⟨.int, .range 0 limit, none⟩) (integral (indexAbove limit)) =
      integral ⟨.int, .range 0 (limit + 10), none⟩ := by
  have hbetween : ∀ n ∈ (RangeSet.range 0 limit).union (.point (limit + 1)),
      0 ≤ n ∧ n ≤ limit + 1 := by
    intro n hn
    obtain ⟨low, high, hlow, hhigh, hn⟩ := RangeSet.between_of_mem_union hn
    simp only [RangeSet.mem_range, RangeSet.mem_singleton_point] at hlow hhigh
    omega
  have hs : IntegralSet.Valid ⟨.int, .range 0 limit, none⟩ := by
    have hne : (RangeSet.range 0 limit).intervals ≠ [] :=
      RangeSet.intervals_ne_nil (RangeSet.mem_range.2 ⟨Int.le_refl 0, hlow⟩)
    refine IntegralSet.valid_normal? (RangeSet.canonical_range 0 limit) (fun n hn => ?_)
      (IntegralSet.normal?_eq_some .int none hne)
    obtain ⟨hn0, hn⟩ := RangeSet.mem_range.1 hn
    exact mem_int_domain hn0 (by omega)
  have hbuilt : Built textRegistry 0 .any (integral (indexAbove limit)) :=
    built_indexAbove hlow hhigh
  have ht : (indexAbove limit).Valid := hbuilt.integersValid
  refine widen_wideRange_of_inside hs ht rfl rfl rfl ?_ ?_ ?_
  · intro n hn
    exact RangeSet.mem_range.2 (by have := hbetween n hn; omega)
  · refine ⟨limit + 10, RangeSet.mem_range.2 (by omega), fun h => ?_⟩
    have := hbetween _ h
    omega
  · refine ⟨limit + 1, RangeSet.mem_singleton_point.2 rfl, fun h => ?_⟩
    have := RangeSet.mem_range.1 h
    omega

/-- Indices above limits that grow by ten, as long as they are `int` values. -/
def growingLimits (n : ℕ) : IntegralSet :=
  indexAbove (10 * (min n (2 ^ 27) : ℕ))

theorem built_growingLimits {id : HierarchyId} {v : Vocabulary} (n : ℕ) :
    Built r id v (integral (growingLimits n)) :=
  built_indexAbove (by omega) (by omega)

/-- The states of the climb: after each step all integers below the next limit. -/
theorem widenRun_growingLimits {n : ℕ} (hn : n ≤ 2 ^ 27) :
    widenRun r .wideRange (integral (.point .int 0)) (fun n => integral (growingLimits n)) n =
      integral ⟨.int, .range 0 (10 * n), none⟩ := by
  induction n with
  | zero => rfl
  | succ n ih =>
    have hlimit : growingLimits n = indexAbove (10 * n) := by
      rw [growingLimits, Nat.min_eq_left (by omega)]
    have hnext : 10 * (n : Int) + 10 = 10 * ((n + 1 : ℕ) : Int) := by omega
    rw [widenRun, ih (by omega), hlimit, widen_indexAbove (by omega) (by omega), hnext]

theorem mem_ascents_growingLimits {n : ℕ} (hn : n < 2 ^ 27) :
    n ∈ ascents r (widenRun r .wideRange (integral (.point .int 0))
      fun n => integral (growingLimits n)) := by
  intro hcovers
  rw [widenRun_growingLimits hn.le, widenRun_growingLimits (Nat.succ_le_of_lt hn)] at hcovers
  have hafter : 10 * ((n + 1 : ℕ) : Int) ∈ RangeSet.range 0 (10 * (n + 1 : ℕ)) :=
    RangeSet.mem_range.2 ⟨by omega, Int.le_refl _⟩
  have hbefore : 10 * ((n + 1 : ℕ) : Int) ∈ RangeSet.range 0 (10 * n) := by
    cases covers_iff.1 hcovers with
    | integral h => exact RangeSet.subset_of_containsAll (Bool.and_eq_true_iff.1 h).2 hafter
  have hle := (RangeSet.mem_range.1 hbefore).2
  omega

/-- The steps that ascend are not bounded independently of the sets of integers: limits that grow
are climbed one by one. -/
theorem not_bounded_wideRange :
    (∀ n, Built textRegistry 0 .any (integral (growingLimits n))) ∧
      (∀ n, (growingLimits n).width = .int) ∧
      ¬ (ascents textRegistry (widenRun textRegistry .wideRange (integral (.point .int 0))
        fun n => integral (growingLimits n))).encard ≤ 3 := by
  refine ⟨built_growingLimits, fun _ => rfl, fun hle => ?_⟩
  have hclimb := le_encard_of_forall_lt fun n (hn : n < 2 ^ 27) =>
    mem_ascents_growingLimits (r := textRegistry) hn
  exact absurd (hclimb.trans hle) (by decide)

end ValueLattice.Element
