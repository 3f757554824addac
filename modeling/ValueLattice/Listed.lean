/-!
# Lists of listed items

Whether every item of one list is listed in another one, for any notion of two items being the same.
-/

namespace ValueLattice

/-- Whether every item of the first list has an item in the second one that is the same. -/
def listedIn {α : Type} (same : α → α → Bool) (xs ys : List α) : Bool :=
  xs.all fun x => ys.any (same x)

theorem listedIn_iff {α : Type} {same : α → α → Bool} {xs ys : List α} :
    listedIn same xs ys = true ↔ ∀ x ∈ xs, ∃ y ∈ ys, same x y = true := by
  simp [listedIn]

end ValueLattice
