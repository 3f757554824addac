import ValueLattice.Constraint.Algebra
import ValueLattice.Hierarchy.Memo

/-!
# Constraints of hierarchies that remember

The operations on constraints as the hierarchies answer them, with the questions in the order in
which they are asked. An operation on a requirement asks the hierarchy that the requirement belongs
to; `top` and `bottom` ask nothing.

* `Recall.instanceOf`, `Recall.covers`, `Recall.join` and `Recall.meet` ask one hierarchy;
* `Archive.instanceOf`, `Archive.covers`, `Archive.join` and `Archive.meet` ask the hierarchy of the
  first constraint.
-/

namespace ValueLattice

/-- What becomes of reduced bounds. No bound demands nothing. Two classes, or a final class among
other bounds, contradict each other. A final class alone leaves only itself. -/
def Constraint.ofReduced (h : Hierarchy) (id : HierarchyId) (reduced : List String) : Constraint :=
  let classes := reduced.filter fun name => !h.isInterface name
  if reduced.isEmpty then top
  else if 1 < classes.length then bottom
  else match classes.find? h.isFinal with
    | some name => if reduced.length = 1 then nominal id (.exact name) else bottom
    | none => nominal id (.bounds (Text.sortByText (fun name => name) reduced))

theorem Constraint.ofBounds_eq (r : Registry) (id : HierarchyId) (names : List String) :
    ofBounds r id names =
      ofReduced (r.hierarchy id) id (reducedBounds (r.hierarchy id) names) := rfl

namespace Recall

/-! ## Making constraints -/

/-- The bounds that remain after dropping the root and everything another bound implies. -/
def reducedBounds (names : List String) : Recall (List String) := do
  let h ← hierarchy
  Antichain.maximalM (fun a b => isSubtype b a) (names.eraseDups.filter (· ≠ h.root))

/-- The constraint of the objects whose class is or extends every one of the names. -/
def ofBounds (id : HierarchyId) (names : List String) : Recall Constraint := do
  let reduced ← reducedBounds names
  return .ofReduced (← hierarchy) id reduced

/-- The constraint of the objects of the named type and its subtypes. -/
def instanceOf (id : HierarchyId) (name : String) : Recall Constraint :=
  ofBounds id [name]

/-- An exact class among bounds; the first bound that it does not extend decides. -/
def exactWithin (id : HierarchyId) (name : String) (names : List String) : Recall Constraint := do
  if ← names.allM (isSubtype name) then return .exactly id name else return .bottom

/-! ## Order, join and meet -/

/-- The names that every class satisfying the requirement is known to be or extend, each once. -/
def implied : Nominal → Recall (List String)
  | .exact name => supertypes name
  | .bounds names => do return (← names.mapM supertypes).flatten.eraseDups

/-- The names that both requirements imply, in the order of the first one. -/
def common (x y : Nominal) : Recall (List String) := do
  let others ← implied y
  return (← implied x).filter others.contains

/-- Whether every object that satisfies the second requirement also satisfies the first one. -/
def coversSame : Nominal → Nominal → Recall Bool
  | .exact name, y => return y == .exact name
  | .bounds names, y => do
    let implied ← implied y
    return names.all implied.contains

/-- Whether every object that satisfies the constraint also satisfies the requirement. -/
def covers (id : HierarchyId) (x : Nominal) : Constraint → Recall Bool
  | .bottom => return true
  | .top => return false
  | .nominal j y => if id = j then coversSame x y else return false

/-- The constraint of the objects that satisfy either requirement. -/
def joinSame (id : HierarchyId) (x y : Nominal) : Recall Constraint :=
  match x, y with
  | .exact a, .exact b =>
    if a = b then return .nominal id (.exact a)
    else common (.exact a) (.exact b) >>= ofBounds id
  | x, y => common x y >>= ofBounds id

/-- The constraint of the objects that satisfy the requirement or the constraint. -/
def join (id : HierarchyId) (x : Nominal) : Constraint → Recall Constraint
  | .bottom => return .nominal id x
  | .top => return .top
  | .nominal j y => if id = j then joinSame id x y else return .top

/-- The constraint of the objects that satisfy both requirements. -/
def meetSame (id : HierarchyId) : Nominal → Nominal → Recall Constraint
  | .exact a, .exact b => return if a = b then .exactly id a else .bottom
  | .exact a, .bounds names => exactWithin id a names
  | .bounds names, .exact a => exactWithin id a names
  | .bounds names, .bounds others => ofBounds id (names ++ others)

/-- The constraint of the objects that satisfy the requirement and the constraint. -/
def meet (id : HierarchyId) (x : Nominal) : Constraint → Recall Constraint
  | .top => return .nominal id x
  | .bottom => return .bottom
  | .nominal j y => if id = j then meetSame id x y else return .bottom

end Recall

/-! ## Several hierarchies -/

namespace Archive

/-- The constraint of the objects of the named type of a hierarchy and its subtypes. -/
def instanceOf (id : HierarchyId) (name : String) : StateM Archive Constraint :=
  ask id (Recall.instanceOf id name)

/-- Whether every object that satisfies the second constraint also satisfies the first one. -/
def covers : Constraint → Constraint → StateM Archive Bool
  | .top, _ => return true
  | .bottom, y => return y.isBottom
  | .nominal id x, y => ask id (Recall.covers id x y)

/-- The constraint of the objects that satisfy either constraint. -/
def join : Constraint → Constraint → StateM Archive Constraint
  | .top, _ => return .top
  | .bottom, y => return y
  | .nominal id x, y => ask id (Recall.join id x y)

/-- The constraint of the objects that satisfy both constraints. -/
def meet : Constraint → Constraint → StateM Archive Constraint
  | .top, y => return y
  | .bottom, _ => return .bottom
  | .nominal id x, y => ask id (Recall.meet id x y)

end Archive

end ValueLattice
