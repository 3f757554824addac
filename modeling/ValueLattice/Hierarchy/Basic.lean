/-!
# Nominal type hierarchies

A hierarchy declares types by name: their direct supertypes, whether they are final, and whether
they are interfaces. Every type extends the root. Names without a declaration are non-final classes
that only extend the root, and a later declaration of a name replaces the earlier one.

* `supertypes` lists every supertype of a name, itself and the root included, in the order in which
  a search finds them; the search never follows the root, unless it starts there, and it ends on
  every hierarchy, cyclic ones included;
* `WellFormed` describes single class inheritance without cycles;
* `Reaches` is the relation that `supertypes` lists.
-/

namespace ValueLattice

/-- What a hierarchy knows about one type. -/
structure TypeDeclaration where
  /-- The direct supertypes; the root is implied. -/
  supertypes : List String := []
  /-- A final class has no subclasses. -/
  final : Bool := false
  /-- Interfaces may be combined freely; classes inherit singly. -/
  isInterface : Bool := false
deriving DecidableEq

/-- A nominal type hierarchy. -/
structure Hierarchy where
  /-- The type that every other type extends. -/
  root : String := "Object"
  /-- The declarations, the latest one first. -/
  declarations : List (String × TypeDeclaration) := []
deriving DecidableEq, Inhabited

namespace Hierarchy

/-- Declares a type; an earlier declaration of the name no longer counts. -/
def declare (h : Hierarchy) (name : String) (d : TypeDeclaration) : Hierarchy :=
  { h with declarations := (name, d) :: h.declarations }

/-- The declaration of a name; one that was never declared has no supertypes, is not final and is
not an interface. -/
def declaration (h : Hierarchy) (name : String) : TypeDeclaration :=
  (h.declarations.lookup name).getD {}

/-- Whether the name is declared final. -/
def isFinal (h : Hierarchy) (name : String) : Bool := (h.declaration name).final

/-- Whether the name is declared an interface. -/
def isInterface (h : Hierarchy) (name : String) : Bool := (h.declaration name).isInterface

/-- The direct supertypes of a name, as declared. -/
def directSupertypes (h : Hierarchy) (name : String) : List String :=
  (h.declaration name).supertypes

/-! ## Supertypes -/

/-- The state of a search for supertypes. -/
structure Search where
  /-- The names found so far, in the order they were found. -/
  found : List String
  /-- The names whose direct supertypes are still to be looked at, the next one first. -/
  pending : List String

/-- Looks at the direct supertypes of the next pending name. New ones are found in the order they
are listed, and the last of them is looked at next. -/
def Search.step (h : Hierarchy) (s : Search) : Search :=
  match s.pending with
  | [] => s
  | name :: pending =>
    let fresh := (h.directSupertypes name).eraseDups.filter (· ∉ s.found)
    ⟨s.found ++ fresh, fresh.reverse ++ pending⟩

/-- The search after a number of steps, or when nothing is pending any more. -/
def Search.run (h : Hierarchy) : Nat → Search → Search
  | 0, s => s
  | n + 1, s => if s.pending.isEmpty then s else run h n (s.step h)

/-- How many supertypes the declarations list. A search finds each of them at most once, so it ends
within one step more than there are. -/
def mentioned (h : Hierarchy) : Nat :=
  h.declarations.foldl (fun n d => n + d.2.supertypes.length) 0

/-- The search for the supertypes of a name, before its first step. -/
def search (h : Hierarchy) (name : String) : Search :=
  ⟨[name, h.root].eraseDups, [name]⟩

/-- Every supertype of a name, itself and the root included. -/
def supertypes (h : Hierarchy) (name : String) : List String :=
  (Search.run h (h.mentioned + 1) (h.search name)).found

/-- Whether one name is the other one or extends it. -/
def isSubtype (h : Hierarchy) (sub sup : String) : Bool :=
  (h.supertypes sub).contains sup

/-- A search forgets nothing it has found. -/
theorem Search.subset_run (h : Hierarchy) (n : Nat) (s : Search) {name : String}
    (hname : name ∈ s.found) : name ∈ (Search.run h n s).found := by
  induction n generalizing s with
  | zero => exact hname
  | succ n ih =>
    unfold Search.run
    split
    · exact hname
    · refine ih (s.step h) ?_
      unfold Search.step
      split
      · exact hname
      · exact List.mem_append_left _ hname

theorem mem_supertypes_self (h : Hierarchy) (name : String) : name ∈ h.supertypes name :=
  Search.subset_run h _ _ (by simp [search])

theorem root_mem_supertypes (h : Hierarchy) (name : String) : h.root ∈ h.supertypes name :=
  Search.subset_run h _ _ (by simp [search])

@[simp] theorem isSubtype_self (h : Hierarchy) (name : String) : h.isSubtype name name = true := by
  simpa [isSubtype] using mem_supertypes_self h name

/-! ## What the search is about -/

/-- A path of direct supertypes leads from one name to another. It does not continue through the
root, unless the root is where it starts. -/
inductive Reaches (h : Hierarchy) (start : String) : String → Prop where
  /-- Every name reaches itself. -/
  | refl : Reaches h start start
  /-- A path that has not come to the root goes on to the direct supertypes. -/
  | next {name sup : String} : Reaches h start name → (name = start ∨ name ≠ h.root) →
      sup ∈ h.directSupertypes name → Reaches h start sup

/-- Single class inheritance without cycles: the root extends nothing, no name lies above itself,
a class lists at most one class besides the root, an interface lists only interfaces and the root,
and no name lists a final class. -/
structure WellFormed (h : Hierarchy) : Prop where
  /-- The root has no declared supertypes. -/
  root_extends_nothing : h.directSupertypes h.root = []
  /-- No name lies above itself: some rank falls along the direct supertypes. -/
  acyclic : ∃ rank : String → Nat, ∀ name sup, sup ∈ h.directSupertypes name → rank sup < rank name
  /-- A class has at most one superclass besides the root. -/
  single_superclass : ∀ name, h.isInterface name = false → ∀ a b,
    a ∈ h.directSupertypes name → h.isInterface a = false → a ≠ h.root →
    b ∈ h.directSupertypes name → h.isInterface b = false → b ≠ h.root → a = b
  /-- An interface lists only interfaces and the root. -/
  interfaces_above : ∀ name, h.isInterface name = true → ∀ sup ∈ h.directSupertypes name,
    h.isInterface sup = true ∨ sup = h.root
  /-- Nothing extends a final class. -/
  final_extended_by_none : ∀ name, ∀ sup ∈ h.directSupertypes name,
    ¬ (h.isFinal sup = true ∧ h.isInterface sup = false)

@[simp] theorem declaration_declare_self (h : Hierarchy) (name : String) (d : TypeDeclaration) :
    (h.declare name d).declaration name = d := by
  simp [declare, declaration]

theorem declaration_declare_of_ne (h : Hierarchy) {name other : String} (d : TypeDeclaration)
    (hne : other ≠ name) : (h.declare name d).declaration other = h.declaration other := by
  have hb : (other == name) = false := by simpa using hne
  simp [declare, declaration, List.lookup_cons, hb]

end Hierarchy

/-! ## Several hierarchies -/

/-- The number that tells one hierarchy from another; two hierarchies with the same declarations
still differ. -/
abbrev HierarchyId := Nat

/-- The hierarchies in use, by number, each with its latest declarations. -/
structure Registry where
  /-- The hierarchies in the order they were made. -/
  hierarchies : List Hierarchy := []

namespace Registry

/-- The hierarchy with the given number. -/
def hierarchy (r : Registry) (id : HierarchyId) : Hierarchy :=
  r.hierarchies.getD id {}

/-- Adds a hierarchy; its number is the number of hierarchies so far. -/
def add (r : Registry) (h : Hierarchy) : HierarchyId × Registry :=
  (r.hierarchies.length, ⟨r.hierarchies ++ [h]⟩)

/-- Declares a type in one of the hierarchies. -/
def declare (r : Registry) (id : HierarchyId) (name : String) (d : TypeDeclaration) : Registry :=
  ⟨r.hierarchies.modify id (·.declare name d)⟩

end Registry

end ValueLattice
