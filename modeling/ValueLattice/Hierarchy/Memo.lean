import ValueLattice.Hierarchy.Basic

/-!
# Hierarchies that remember their answers

The same supertypes are asked for again and again, so a hierarchy remembers what it has answered. A
declaration may change any of these answers: it makes the hierarchy forget all of them.

* `Memo` is a hierarchy with the answers it remembers;
* `Recall` is a computation that asks a memo; whatever it has to search for is remembered;
* `Archive` holds the memos of several hierarchies, by number.
-/

namespace ValueLattice

/-- A hierarchy with the answers that it remembers. -/
structure Memo where
  /-- The hierarchy with its latest declarations. -/
  hierarchy : Hierarchy := {}
  /-- The names whose supertypes were asked for, each with the answer, the latest one first. -/
  answers : List (String × List String) := []

namespace Memo

/-- A hierarchy with no declarations, which has not been asked anything. -/
def ofRoot (root : String) : Memo :=
  { hierarchy := { root } }

/-- Declares a type and forgets every answer. -/
def declare (m : Memo) (name : String) (d : TypeDeclaration) : Memo :=
  { hierarchy := m.hierarchy.declare name d }

/-- Remembers an answer. -/
def remember (m : Memo) (name : String) (answer : List String) : Memo :=
  { m with answers := (name, answer) :: m.answers }

/-- Every supertype of a name, itself and the root included. The hierarchy searches for them, and
remembers what it finds, only if it does not remember the answer. -/
def supertypes (m : Memo) (name : String) : List String × Memo :=
  match m.answers.lookup name with
  | some answer => (answer, m)
  | none => (m.hierarchy.supertypes name, m.remember name (m.hierarchy.supertypes name))

end Memo

/-! ## Asking a memo -/

/-- A computation that asks a hierarchy with a memory. -/
abbrev Recall := StateM Memo

namespace Recall

/-- The hierarchy itself, for what it does not remember: its root and its declarations. -/
def hierarchy : Recall Hierarchy := do
  return (← get).hierarchy

/-- Every supertype of a name, itself and the root included. -/
def supertypes (name : String) : Recall (List String) :=
  modifyGet (·.supertypes name)

/-- Whether one name is the other one or extends it. -/
def isSubtype (sub sup : String) : Recall Bool := do
  return (← supertypes sub).contains sup

end Recall

/-! ## Several hierarchies -/

/-- The hierarchies in use with what they remember, by number. -/
structure Archive where
  /-- The memos in the order their hierarchies were made. -/
  memos : List Memo := []

namespace Archive

/-- The hierarchies of an archive. -/
def registry (a : Archive) : Registry :=
  ⟨a.memos.map (·.hierarchy)⟩

/-- The memo of the hierarchy with the given number. -/
def memo (a : Archive) (id : HierarchyId) : Memo :=
  a.memos.getD id {}

/-- Adds a hierarchy without declarations; its number is the number of hierarchies so far. -/
def add (a : Archive) (root : String) : HierarchyId × Archive :=
  (a.memos.length, ⟨a.memos ++ [.ofRoot root]⟩)

/-- Declares a type in one of the hierarchies; the others forget nothing. -/
def declare (a : Archive) (id : HierarchyId) (name : String) (d : TypeDeclaration) : Archive :=
  ⟨a.memos.modify id (·.declare name d)⟩

/-- Asks one of the hierarchies. -/
def ask {α : Type} (id : HierarchyId) (q : Recall α) : StateM Archive α := do
  let a ← get
  let (answer, m) := q.run (a.memo id)
  set (Archive.mk (a.memos.set id m))
  return answer

end Archive

end ValueLattice
