import ValueLattice.Double.Basic

/-!
# Maximal items of a collection

`subsumes a b` stands for "`a` is subsumed by `b`". A reduction removes every item that another
remaining item subsumes, one item after the other from the front; of two items that subsume each
other, the one seen first is dropped. The run can be stopped: a signal fires during one of the
comparisons, or before the first, and is looked at before every item of a scan.

* `ofList` reduces a list, telling items apart by position;
* `ofSet` reduces an ordered set, telling items apart by whether they are identical (`Identity`);
* both answer a `Run`: what is left, the comparisons in the order they were made, and whether the
  run was stopped;
* `maximal` is what a run on a list leaves when nothing stops it, and `maximalM` the same where the
  comparisons are computations with effects.
-/

namespace ValueLattice.Antichain

/-- The outcome of a reduction, finished or stopped. -/
structure Run (α : Type) where
  /-- The items that are left. -/
  items : List α
  /-- The pairs that were compared, in order. -/
  calls : List (α × α)
  /-- Whether the signal stopped the run. -/
  stopped : Bool

/-- The run that makes some comparisons before those of another run. -/
def Run.after {α : Type} (calls : List (α × α)) (run : Run α) : Run α :=
  { run with calls := calls ++ run.calls }

/-- When the signal fires: during the comparison with this number, before the first one for zero,
never for `none`. -/
abbrev Signal := Option Nat

/-- Whether the signal has fired after the given number of comparisons. -/
def Signal.fired (signal : Signal) (calls : Nat) : Bool :=
  signal.any (· ≤ calls)

/-- What the scan for an item that subsumes a given one finds. -/
inductive Verdict where
  /-- No item subsumes it. -/
  | kept
  /-- Another item subsumes it. -/
  | subsumed
  /-- The signal stopped the scan. -/
  | stopped
deriving DecidableEq

/-! ## Identities -/

/-- How a set tells items apart. An item need not be identical to itself: no NaN is. What the set
stores for an item may be another one, identical to it: it has one zero only. -/
structure Identity (α : Type) where
  /-- Whether two items are identical. -/
  identical : α → α → Bool
  /-- What a set stores for an item. -/
  stored : α → α
  /-- Either of two items may be compared with the other. -/
  identical_comm : ∀ a b, identical a b = identical b a
  /-- Items that are stored as one are identical, if they are so to themselves. -/
  identical_iff : ∀ a b, identical a b = true ↔ identical a a = true ∧ stored a = stored b
  /-- What is stored is stored as it is. -/
  stored_stored : ∀ a, stored (stored a) = stored a

namespace Identity

/-- Every item is identical to itself and to nothing else. -/
def plain (α : Type) [DecidableEq α] : Identity α where
  identical a b := decide (a = b)
  stored a := a
  identical_comm a b := decide_eq_decide.2 eq_comm
  identical_iff a b := by simp
  stored_stored a := rfl

/-- Numbers are identical if they stand for the same one, which a NaN does not. -/
def numbers : Identity Double where
  identical := Double.identical
  stored := Double.unsignedZero
  identical_comm := Double.identical_comm
  identical_iff := Double.identical_iff
  stored_stored := Double.unsignedZero_unsignedZero

variable {α : Type} [DecidableEq α] (ident : Identity α)

/-- Puts an item into a set, behind the others, unless it is there already. -/
def insert (set : List α) (a : α) : List α :=
  if ident.stored a ∈ set then set else set ++ [ident.stored a]

/-- The set of the items of a list. -/
def collect (items : List α) : List α :=
  items.foldl ident.insert []

end Identity

section

variable {α : Type} (subsumes : α → α → Bool) (signal : Signal)

/-! ## Lists -/

/-- Scans the items of a list from the given index on for one that subsumes `left`, the item at
`position`, after a number of comparisons that were made before, and lists the comparisons it makes.
At its own position the signal is looked at, and nothing is compared. -/
def scanAt (left : α) (position : Nat) : Nat → List α → Nat → Verdict × List (α × α)
  | _, [], _ => (.kept, [])
  | index, right :: items, made =>
    if signal.fired made then (.stopped, [])
    else if index = position then scanAt left position (index + 1) items made
    else if subsumes left right then (.subsumed, [(left, right)])
    else
      let (verdict, calls) := scanAt left position (index + 1) items (made + 1)
      (verdict, (left, right) :: calls)

/-- Reduces the items from the given position on, of which `remaining` are still to be looked at,
after a number of comparisons that were made before. -/
def reduceFrom : Nat → Nat → Nat → List α → Run α
  | 0, _, _, items => ⟨items, [], false⟩
  | remaining + 1, position, made, items =>
    match items[position]? with
    | none => ⟨items, [], false⟩
    | some left =>
      match scanAt subsumes signal left position 0 items made with
      | (.stopped, calls) => ⟨items, calls, true⟩
      | (.subsumed, calls) =>
        (reduceFrom remaining position (made + calls.length) (items.eraseIdx position)).after calls
      | (.kept, calls) =>
        (reduceFrom remaining (position + 1) (made + calls.length) items).after calls

/-- Reduces a list, telling items apart by position. -/
def ofList (items : List α) : Run α :=
  reduceFrom subsumes signal items.length 0 0 items

end

/-! ## Sets -/

section

variable {α : Type} (ident : Identity α) (subsumes : α → α → Bool) (signal : Signal)

/-- Scans a set for an item that subsumes `left`, one of its items, after a number of comparisons
that were made before, and lists the comparisons it makes. At the items that are identical to `left`
the signal is looked at, and nothing is compared. -/
def scanSet (left : α) : List α → Nat → Verdict × List (α × α)
  | [], _ => (.kept, [])
  | right :: items, made =>
    if signal.fired made then (.stopped, [])
    else if ident.identical right left then scanSet left items made
    else if subsumes left right then (.subsumed, [(left, right)])
    else
      let (verdict, calls) := scanSet left items (made + 1)
      (verdict, (left, right) :: calls)

end

section

variable {α : Type} [DecidableEq α] (ident : Identity α) (subsumes : α → α → Bool) (signal : Signal)

/-- Looks at each item of a snapshot and removes it from the set when the scan finds an item that
subsumes it, after a number of comparisons that were made before. -/
def reduceEach : List α → Nat → List α → Run α
  | [], _, items => ⟨items, [], false⟩
  | left :: snapshot, made, items =>
    match scanSet ident subsumes signal left items made with
    | (.stopped, calls) => ⟨items, calls, true⟩
    | (.subsumed, calls) =>
      (reduceEach snapshot (made + calls.length) (items.erase left)).after calls
    | (.kept, calls) => (reduceEach snapshot (made + calls.length) items).after calls

/-- Reduces an ordered set, telling items apart by whether they are identical. -/
def ofSet (items : List α) : Run α :=
  reduceEach ident subsumes signal items 0 items

end

/-- The items of a list that no other remaining item subsumes. -/
def maximal {α : Type} (subsumes : α → α → Bool) (items : List α) : List α :=
  (ofList subsumes none items).items

/-! ## Comparisons that are computations -/

section

variable {m : Type → Type} [Monad m] {α : Type} (subsumes : α → α → m Bool)

/-- Reduces `kept ++ rest` when the items of `kept` stay and those of `rest` are still to be looked
at. An item goes as soon as one of the others is found to subsume it. -/
def siftM (kept : List α) : List α → m (List α)
  | [] => return kept
  | a :: rest => do
    if ← (kept ++ rest).anyM (subsumes a) then siftM kept rest
    else siftM (kept ++ [a]) rest

/-- The items of a list that no other remaining item subsumes, where comparing two of them may ask
for something. -/
def maximalM (items : List α) : m (List α) :=
  siftM subsumes [] items

end

end ValueLattice.Antichain
