import ValueLattice.Constraint.Basic

/-!
# Order, join and meet of constraints

Constraints of different hierarchies have nothing in common: neither covers the other, their join is
`top` and their meet is `bottom`. Within a hierarchy every operation uses its latest declarations.

* `covers x y`: every object that satisfies `y` satisfies `x`;
* `join`: satisfied by the objects that satisfy either constraint;
* `meet`: satisfied by the objects that satisfy both.
-/

namespace ValueLattice

namespace Nominal

/-- Whether every class that satisfies `y` is known to satisfy `x`. -/
def covers (h : Hierarchy) (x y : Nominal) : Bool :=
  match x with
  | exact name => y == exact name
  | bounds names => names.all (y.implied h).contains

/-- A requirement covers itself, since every bound is among its own supertypes. -/
theorem covers_self (h : Hierarchy) (x : Nominal) : x.covers h x = true := by
  cases x with
  | exact name => simp [covers]
  | bounds names =>
    simp only [covers, implied, List.all_eq_true, List.contains_iff_mem, List.mem_eraseDups,
      List.mem_flatMap]
    exact fun name hname => ⟨name, hname, h.mem_supertypes_self name⟩

/-- The names that both requirements imply, in the order of the first one. -/
def common (h : Hierarchy) (x y : Nominal) : List String :=
  (x.implied h).filter (y.implied h).contains

end Nominal

namespace Constraint

/-- Whether every object that satisfies `y` also satisfies `x`. -/
def covers (r : Registry) : Constraint → Constraint → Bool
  | top, _ => true
  | bottom, y => y.isBottom
  | nominal _ _, bottom => true
  | nominal _ _, top => false
  | nominal i x, nominal j y => i == j && x.covers (r.hierarchy i) y

/-- The constraint of the objects that satisfy either constraint: an exact class joins with itself,
everything else with the names that both imply. -/
def join (r : Registry) : Constraint → Constraint → Constraint
  | top, _ => top
  | bottom, y => y
  | x, bottom => x
  | nominal _ _, top => top
  | nominal i x, nominal j y =>
    if i ≠ j then top
    else match x, y with
      | .exact a, .exact b =>
        if a = b then nominal i (.exact a)
        else ofBounds r i (Nominal.common (r.hierarchy i) (.exact a) (.exact b))
      | x, y => ofBounds r i (Nominal.common (r.hierarchy i) x y)

/-- An exact class among bounds: it stays when it extends all of them. -/
def exactWithin (r : Registry) (id : HierarchyId) (name : String) (names : List String) :
    Constraint :=
  if names.all ((r.hierarchy id).isSubtype name) then exactly id name else bottom

/-- The constraint of the objects that satisfy both constraints. -/
def meet (r : Registry) : Constraint → Constraint → Constraint
  | top, y => y
  | bottom, _ => bottom
  | x, top => x
  | nominal _ _, bottom => bottom
  | nominal i x, nominal j y =>
    if i ≠ j then bottom
    else match x, y with
      | .exact a, .exact b => if a = b then exactly i a else bottom
      | .exact a, .bounds names => exactWithin r i a names
      | .bounds names, .exact a => exactWithin r i a names
      | .bounds names, .bounds others => ofBounds r i (names ++ others)

@[simp] theorem covers_top (r : Registry) (c : Constraint) : top.covers r c = true := rfl

@[simp] theorem covers_bottom (r : Registry) (c : Constraint) : c.covers r bottom = true := by
  cases c <;> rfl

@[simp] theorem covers_self (r : Registry) (c : Constraint) : c.covers r c = true := by
  cases c with
  | top => rfl
  | bottom => rfl
  | nominal id x => simp [covers, x.covers_self]

@[simp] theorem bottom_join (r : Registry) (c : Constraint) : bottom.join r c = c := rfl

@[simp] theorem top_meet (r : Registry) (c : Constraint) : top.meet r c = c := rfl

end Constraint

end ValueLattice
