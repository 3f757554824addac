import ValueLattice.Antichain
import ValueLattice.Hierarchy.Basic
import ValueLattice.Text.Units

/-!
# Constraints on the class of an object

A constraint of a hierarchy is either an exact class or a set of bounds, each of which the class of
the object must be or extend. `ofBounds` brings bounds into normal form: no bound that another one
implies, never the root, in the order of their units. Bounds that nothing satisfies, such as two
classes, are the constraint `bottom`; no bounds at all are the constraint `top`.

* `ofBounds`, `instanceOf` and `exactly` make constraints of a hierarchy;
* `Admits` says which classes satisfy a constraint;
* `key` and `text` are the canonical text and the readable one.
-/

namespace ValueLattice

/-- What a satisfiable constraint of a hierarchy asks of the class of an object. -/
inductive Nominal where
  /-- The class is the named one. -/
  | exact (name : String)
  /-- The class is or extends every one of the names. -/
  | bounds (names : List String)
deriving DecidableEq

/-- A constraint on the class of an object. -/
inductive Constraint where
  /-- Every object satisfies it. -/
  | top
  /-- No object satisfies it. -/
  | bottom
  /-- A constraint of one hierarchy. -/
  | nominal (hierarchy : HierarchyId) (requirement : Nominal)
deriving DecidableEq

/-- The names that every class satisfying the requirement is known to be or extend, each once. -/
def Nominal.implied (h : Hierarchy) : Nominal → List String
  | exact name => h.supertypes name
  | bounds names => (names.flatMap h.supertypes).eraseDups

namespace Constraint

/-! ## Making constraints -/

/-- A name together with all its supertypes. -/
def withSupertypes (h : Hierarchy) (name : String) : String × List String :=
  (name, h.supertypes name)

/-- The bounds that remain after dropping the root and everything another bound implies. -/
def reducedBounds (h : Hierarchy) (names : List String) : List String :=
  (Antichain.maximal (fun a b => b.2.contains a.1)
    ((names.eraseDups.filter (· ≠ h.root)).map (withSupertypes h))).map (·.1)

/-- The constraint of the objects whose class is or extends every one of the names. A final class
among them leaves only itself; two classes leave nothing. -/
def ofBounds (r : Registry) (id : HierarchyId) (names : List String) : Constraint :=
  let h := r.hierarchy id
  let reduced := reducedBounds h names
  let classes := reduced.filter fun name => !h.isInterface name
  if reduced.isEmpty then top
  else if 1 < classes.length then bottom
  else match classes.find? h.isFinal with
    | some name => if reduced.length = 1 then nominal id (.exact name) else bottom
    | none => nominal id (.bounds (Text.sortByText (fun name => name) reduced))

/-- The constraint of the objects of exactly the named class. -/
def exactly (id : HierarchyId) (name : String) : Constraint :=
  nominal id (.exact name)

/-- The constraint of the objects of the named type and its subtypes. -/
def instanceOf (r : Registry) (id : HierarchyId) (name : String) : Constraint :=
  ofBounds r id [name]

/-! ## Queries -/

/-- Whether every object satisfies the constraint. -/
def isTop : Constraint → Bool
  | top => true
  | _ => false

/-- Whether no object satisfies the constraint. -/
def isBottom : Constraint → Bool
  | bottom => true
  | _ => false

/-- The class `name` of the constraint's hierarchy satisfies the constraint. -/
def Admits (r : Registry) (c : Constraint) (name : String) : Prop :=
  match c with
  | top => True
  | bottom => False
  | nominal _ (.exact e) => name = e
  | nominal id (.bounds names) => ∀ b ∈ names, (r.hierarchy id).isSubtype name b = true

/-- The text that identifies a constraint of one hierarchy. -/
def key : Constraint → String
  | top => "top"
  | bottom => "bottom"
  | nominal _ (.exact name) => "exact " ++ name
  | nominal _ (.bounds names) => "instanceof " ++ "&".intercalate names

/-- The readable text of a constraint, empty for the one that asks nothing. -/
def text : Constraint → String
  | top => ""
  | bottom => "⊥"
  | nominal _ (.exact name) => "exact " ++ name
  | nominal _ (.bounds names) => "instanceof " ++ ", ".intercalate names

end Constraint

/-! ## Sources of constraints -/

/-- Makes constraints from type names. -/
structure ConstraintSource where
  /-- The constraint of the instances of a type and its subtypes. -/
  instanceOf : String → Constraint
  /-- The constraint of the instances of exactly one type. -/
  exact : String → Constraint

namespace ConstraintSource

/-- The source of the constraints of one hierarchy. -/
def ofHierarchy (r : Registry) (id : HierarchyId) : ConstraintSource :=
  ⟨Constraint.instanceOf r id, Constraint.exactly id⟩

/-- The source that answers one constraint for every name. -/
def constant (c : Constraint) : ConstraintSource :=
  ⟨fun _ => c, fun _ => c⟩

end ConstraintSource

end ValueLattice
