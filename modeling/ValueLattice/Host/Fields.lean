/-!
# Named fields

The fields of a record, listed in the order in which they are shown: fields whose name is a decimal
index come first, in ascending order, and all others follow in the order in which they were first
put. Putting a field again changes its value and keeps its place.

* `ofList`: fields put one after the other;
* `lookup_put_self`, `lookup_put_of_ne`: what a put field answers.
-/

namespace ValueLattice.Fields

variable {α : Type}

/-- The number of a name that is a decimal index: no superfluous zeros, below `2^32 - 1`. -/
def index? (name : String) : Option Nat :=
  let digits := name.toList
  if digits.isEmpty || !digits.all Char.isDigit || (digits.head? == some '0' && 1 < digits.length)
  then none
  else
    let n := digits.foldl (fun n c => n * 10 + (c.toNat - 48)) 0
    if n < Nat.pow 2 32 - 1 then some n else none

/-- Puts a field: in the place of the field with that name, else at the end. -/
def put (name : String) (a : α) : List (String × α) → List (String × α)
  | [] => [(name, a)]
  | (other, b) :: l => if name = other then (other, a) :: l else (other, b) :: put name a l

/-- Inserts a numbered item in front of the first one with a greater number. -/
def insertNumbered (item : Nat × α) : List (Nat × α) → List (Nat × α)
  | [] => [item]
  | other :: l => if item.1 < other.1 then item :: other :: l else other :: insertNumbered item l

/-- The fields with an index for a name, in ascending order. -/
def indexed (fields : List (String × α)) : List (String × α) :=
  ((fields.filterMap fun field => (index? field.1).map (·, field)).foldr insertNumbered []).map (·.2)

/-- The fields in the order in which they are shown. -/
def arrange (fields : List (String × α)) : List (String × α) :=
  indexed fields ++ fields.filter fun field => (index? field.1).isNone

/-- The fields that result from putting the listed ones, one after the other. -/
def ofList (fields : List (String × α)) : List (String × α) :=
  arrange (fields.foldl (fun fields field => put field.1 field.2 fields) [])

@[simp] theorem lookup_put_self (name : String) (a : α) (l : List (String × α)) :
    (put name a l).lookup name = some a := by
  induction l with
  | nil => simp [put]
  | cons field l ih =>
    obtain ⟨other, b⟩ := field
    by_cases h : name = other
    · simp [put, h]
    · have hb : (name == other) = false := by simpa using h
      simp [put, h, List.lookup_cons, hb, ih]

theorem lookup_put_of_ne {name other : String} (h : other ≠ name) (a : α)
    (l : List (String × α)) : (put name a l).lookup other = l.lookup other := by
  have hb : (other == name) = false := by simpa using h
  induction l with
  | nil => simp [put, List.lookup_cons, hb]
  | cons field l ih =>
    obtain ⟨n, b⟩ := field
    by_cases hn : name = n
    · subst hn
      simp [put, List.lookup_cons, hb]
    · simp only [put, hn, if_false, List.lookup_cons, ih]

end ValueLattice.Fields
