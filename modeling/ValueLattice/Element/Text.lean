import ValueLattice.Element.Basic
import ValueLattice.Text.Hash

/-!
# Texts of elements

* `key` identifies an element: two elements count as the same when their keys are equal. Wide ranges
  and the origin of constants take no part in it;
* `hash` is the hash of the key;
* `text` is the readable text, for logs and reports;
* `value?` is the single value of an element that has one.
-/

namespace ValueLattice.Element

/-- The text that identifies a shape with the given text of its special field. -/
def shapeKey (shape : ObjectShape) (field : String) : String :=
  "|".intercalate ["ref", shape.constraint.key, shape.nullability.general.name,
    shape.mutability.name, if shape.isLocal then "local" else "", field]

/-- The text that identifies an element. -/
def key : Element → String
  | top => "top"
  | bottom => "bottom"
  | boolean .any => "boolean"
  | boolean (.only b) => "boolean|" ++ Text.boolean b
  | integral s => s.key
  | floating w s => s.key w
  | null => "null"
  | object shape none => shapeKey shape ""
  | object shape (some (name, value)) => shapeKey shape (name ++ "=" ++ key value)
  | constant c => c.key

/-- Whether two elements count as the same. -/
def same (a b : Element) : Bool :=
  a.key == b.key

/-- The hash of an element. -/
def hash (e : Element) : Int :=
  Text.hash e.key

/-- The readable text of a shape with the given text of its special field. -/
def shapeText (shape : ObjectShape) (field : String) : String :=
  let parts :=
    [if shape.nullability = .unknown then "" else shape.nullability.general.name,
      if shape.mutability = .unknown then "" else shape.mutability.name,
      if shape.isLocal then "local" else "", shape.constraint.text, field].filter (· ≠ "")
  if parts.isEmpty then "object" else " ".intercalate parts

/-- The readable text of an element. -/
def text : Element → String
  | top => "TOP"
  | bottom => "BOTTOM"
  | boolean .any => "boolean"
  | boolean (.only b) => Text.boolean b
  | integral s => s.text
  | floating w s => s.text w
  | null => "null"
  | object shape none => shapeText shape ""
  | object shape (some (name, value)) => shapeText shape (name ++ "=" ++ text value)
  | constant c => c.payload.text

/-! ## Single values -/

/-- A value that an element may hold as its only one. -/
inductive Single where
  /-- A truth value. -/
  | boolean (value : Bool)
  /-- A number, also for a single `int`. -/
  | number (value : Double)
  /-- A 64-bit integer. -/
  | long (value : Int)
  /-- A known object. -/
  | object (payload : Payload)
  /-- The null reference. -/
  | null
deriving DecidableEq

/-- The single value of a set of integers. -/
def integralValue (width : IntegralWidth) (n : Int) : Single :=
  match width with
  | .int => .number (.ofInt n)
  | .long => .long n

/-- The single value of an element, if it has only one. -/
def value? : Element → Option Single
  | boolean (.only b) => some (.boolean b)
  | integral s => s.range.constant?.map (integralValue s.width)
  | floating _ (.only x) => some (.number x)
  | null => some .null
  | constant c => some (.object c.payload)
  | _ => none

/-- The nullability of an element; sets of primitives and `bottom` have none. -/
def nullability? : Element → Option Nullability
  | top => some .unknown
  | null => some .null
  | object shape _ => some shape.nullability.general
  | constant _ => some .notNull
  | _ => none

end ValueLattice.Element
