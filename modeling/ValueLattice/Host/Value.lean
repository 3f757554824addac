import ValueLattice.Double.Basic
import ValueLattice.Host.Fields

/-!
# Values of the host

What a front-end hands in to be turned into a lattice element: scalars, lists and records. Integers
of any size are told apart from numbers, and `absent`, no value at all, from `null`.
-/

namespace ValueLattice

/-- A value of the host. -/
inductive HostValue where
  /-- No value at all. -/
  | absent
  /-- The null reference. -/
  | null
  /-- A truth value. -/
  | bool (value : Bool)
  /-- A double-precision number. -/
  | number (value : Double)
  /-- An integer of any size. -/
  | integer (value : Int)
  /-- A text. -/
  | text (value : String)
  /-- A list of values. -/
  | list (items : List HostValue)
  /-- A record, its fields in the order in which they are shown. -/
  | record (fields : List (String × HostValue))
deriving Inhabited

namespace HostValue

/-- The record with the given fields, a later field of the same name replacing an earlier one. -/
def ofFields (fields : List (String × HostValue)) : HostValue :=
  record (Fields.ofList fields)

/-- The value of a field of a record. A field that is missing is absent, and nothing but a
record has fields. -/
def field (name : String) : HostValue → HostValue
  | record fields => (fields.lookup name).getD absent
  | _ => absent

/-- The text that the value is. -/
def text? : HostValue → Option String
  | text s => some s
  | _ => none

/-- The text that the value is, unless it is empty. -/
def name? : HostValue → Option String
  | text s => if s.isEmpty then none else some s
  | _ => none

theorem name?_text {s : String} (h : s ≠ "") : (text s).name? = some s := by
  simp [name?, h]

/-- The truth value that the value is. -/
def bool? : HostValue → Option Bool
  | bool b => some b
  | _ => none

/-- The number that the value is. -/
def number? : HostValue → Option Double
  | number x => some x
  | _ => none

/-- The integer that the value is; numbers are not counted as integers. -/
def integer? : HostValue → Option Int
  | integer n => some n
  | _ => none

/-- Whether two scalars are identical: numbers compare by what they stand for, so the zeros are
identical and NaN is not, and two lists or records never are. -/
def identical : HostValue → HostValue → Bool
  | absent, absent => true
  | null, null => true
  | bool a, bool b => a == b
  | number x, number y => x.identical y
  | integer m, integer n => m == n
  | text s, text t => s == t
  | _, _ => false

end HostValue

end ValueLattice
