import ValueLattice.Double.Text
import ValueLattice.Host.Value
import ValueLattice.Primitive

/-!
# Literals of primitive types

A literal is a value together with its primitive type. Front-ends hand in truth values and integers
of any size as they are; every other literal is a record that names its type, and its value must
belong to the domain of that type. A bare integer is a `long` literal whatever its size.

* `ofHost?` reads a literal, `toHost` writes the record it is read from;
* `InDomain` says that a literal's value belongs to its type;
* `text` is the readable text.
-/

namespace ValueLattice

/-- A literal of a primitive type. -/
inductive Literal where
  /-- A truth value. -/
  | boolean (value : Bool)
  /-- An integer of a narrow type, handed in as a number. -/
  | narrow (type : NarrowType) (value : Double)
  /-- An integer handed in as such. -/
  | long (value : Int)
  /-- A floating-point number, not yet rounded to its width. -/
  | floating (width : FloatingWidth) (value : Double)
deriving DecidableEq

namespace Literal

/-- The type of a literal. -/
def type : Literal → PrimitiveType
  | boolean _ => .boolean
  | narrow type _ => .narrow type
  | long _ => .long
  | floating width _ => .floating width

/-- The value of a literal belongs to its type: a number of a narrow type stands for an integer of
the type's domain, and an integer has at most 64 bits. -/
def InDomain : Literal → Prop
  | boolean _ => True
  | narrow type x => ∃ n, x.toInt? = some n ∧ n ∈ type.integerType.domain
  | long n => n ∈ IntegerType.long.domain
  | floating _ _ => True

/-! ## Reading and writing -/

/-- The literal of a type with the given value, if the value belongs to the type. -/
def ofValue? : PrimitiveType → HostValue → Option Literal
  | .boolean, v => v.bool?.map boolean
  | .narrow type, v => do
    let x ← v.number?
    let n ← x.toInt?
    if n ∈ type.integerType.domain then some (narrow type x) else none
  | .long, v => do
    let n ← v.integer?
    if n ∈ IntegerType.long.domain then some (long n) else none
  | .floating width, v => v.number?.map (floating width)

/-- The literal that a record with a `type` and a `value` stands for. -/
def ofTagged? (v : HostValue) : Option Literal := do
  let name ← (v.field "type").text?
  let type ← PrimitiveType.ofName? name
  ofValue? type (v.field "value")

/-- The literal that a host value stands for. -/
def ofHost? : HostValue → Option Literal
  | .bool b => some (boolean b)
  | .integer n => some (long n)
  | v => ofTagged? v

/-- The value of a literal as a host value. -/
def value : Literal → HostValue
  | boolean b => .bool b
  | narrow _ x => .number x
  | long n => .integer n
  | floating _ x => .number x

/-- The record that a literal is read from. -/
def toHost (l : Literal) : HostValue :=
  .record [("type", .text l.type.name), ("value", l.value)]

/-- A literal that is read belongs to its type. -/
theorem inDomain_of_ofValue? {t : PrimitiveType} {v : HostValue} {l : Literal}
    (h : ofValue? t v = some l) : l.InDomain := by
  cases t with
  | boolean =>
    obtain ⟨b, _, rfl⟩ := Option.map_eq_some_iff.1 h
    trivial
  | narrow type =>
    simp only [ofValue?, Option.bind_eq_bind, Option.bind_eq_some_iff] at h
    obtain ⟨x, _, n, hn, h⟩ := h
    split at h
    · next hmem =>
      cases h
      exact ⟨n, hn, hmem⟩
    · exact nomatch h
  | long =>
    simp only [ofValue?, Option.bind_eq_bind, Option.bind_eq_some_iff] at h
    obtain ⟨n, _, h⟩ := h
    split at h
    · next hmem =>
      cases h
      exact hmem
    · exact nomatch h
  | floating width =>
    obtain ⟨x, _, rfl⟩ := Option.map_eq_some_iff.1 h
    trivial

/-- A literal that belongs to its type is the literal of its value. -/
theorem ofValue?_value {l : Literal} (h : l.InDomain) : ofValue? l.type l.value = some l := by
  cases l with
  | boolean b => rfl
  | narrow type x =>
    obtain ⟨n, hn, hmem⟩ := h
    simp [ofValue?, Literal.type, value, HostValue.number?, hn, hmem]
  | long n =>
    have hmem : n ∈ IntegerType.long.domain := h
    simp [ofValue?, Literal.type, value, HostValue.integer?, hmem]
  | floating width x => rfl

/-- A literal that belongs to its type is read from the record it is written as. -/
theorem ofTagged?_toHost {l : Literal} (h : l.InDomain) : ofTagged? l.toHost = some l := by
  have hname : (l.toHost.field "type").text? = some l.type.name := rfl
  have hvalue : l.toHost.field "value" = l.value := rfl
  simp [ofTagged?, hname, hvalue, ofValue?_value h]

/-! ## Text -/

/-- The readable text of a literal. Only floating-point literals show the sign of a zero. -/
def text : Literal → String
  | boolean b => Text.boolean b
  | narrow _ x => x.text
  | long n => Text.integer n
  | floating _ x => if x = .negativeZero then "-0.0" else x.text

end Literal

end ValueLattice
