import ValueLattice.Element.Boolean
import ValueLattice.Element.Floating
import ValueLattice.Element.Integral
import ValueLattice.Element.Object

/-!
# Lattice elements

An element describes the possible values of an expression: sets of truth values, of integers or of
floating-point numbers of one width, or references. An object reference may track one scalar
property of the object, its *special field*, as an element of its own; a field of which nothing is
known is not tracked.

* `Element.induction` is induction over the nesting of special fields;
* `Element.Valid` is the invariant of all elements that the library makes;
* `Element.Satisfiable` excludes constraints and special fields that nothing satisfies;
* `Element.kind` names the twelve kinds of elements.
-/

namespace ValueLattice

/-- A lattice element. -/
inductive Element where
  /-- All values. -/
  | top
  /-- No values: an unreachable state. -/
  | bottom
  /-- A set of truth values. -/
  | boolean (set : BooleanSet)
  /-- A set of integers of one width. -/
  | integral (set : IntegralSet)
  /-- A set of floating-point numbers of one width. -/
  | floating (width : FloatingWidth) (set : FloatingSet)
  /-- The null reference. -/
  | null
  /-- References of one shape, with the name and the value of the special field. -/
  | object (shape : ObjectShape) (field : Option (String × Element))
  /-- A reference to one known object. -/
  | constant (constant : ReferenceConstant)
deriving Inhabited

/-- The kinds of elements. -/
inductive ElementKind where
  /-- All values. -/
  | top
  /-- No values. -/
  | bottom
  /-- Both truth values. -/
  | boolean
  /-- One truth value. -/
  | booleanConstant
  /-- Integers. -/
  | integral
  /-- All floating-point numbers of a width. -/
  | floating
  /-- The two zeros of a width. -/
  | floatingZero
  /-- One floating-point number. -/
  | floatingConstant
  /-- All floating-point numbers but some. -/
  | floatingNotValue
  /-- The null reference. -/
  | null
  /-- Object references. -/
  | reference
  /-- A reference to a known object. -/
  | referenceConstant
deriving DecidableEq

/-- The name of a kind. -/
def ElementKind.name : ElementKind → String
  | top => "Top"
  | bottom => "Bottom"
  | boolean => "Boolean"
  | booleanConstant => "BooleanConstant"
  | integral => "Integral"
  | floating => "Floating"
  | floatingZero => "FloatingZero"
  | floatingConstant => "FloatingConstant"
  | floatingNotValue => "FloatingNotValue"
  | null => "Null"
  | reference => "Reference"
  | referenceConstant => "ReferenceConstant"

namespace Element

/-- Induction over the nesting of special fields. -/
@[induction_eliminator]
theorem induction {motive : Element → Prop} (top : motive top) (bottom : motive bottom)
    (boolean : ∀ s, motive (boolean s)) (integral : ∀ s, motive (integral s))
    (floating : ∀ w s, motive (floating w s)) (null : motive null)
    (plain : ∀ shape, motive (object shape none))
    (tracked : ∀ shape name value, motive value → motive (object shape (some (name, value))))
    (constant : ∀ c, motive (constant c)) (e : Element) : motive e :=
  Element.rec (motive_1 := motive) (motive_2 := fun f => ∀ p ∈ f, motive p.2)
    (motive_3 := fun p => motive p.2)
    top bottom boolean integral floating null
    (fun shape field ih => match field, ih with
      | none, _ => plain shape
      | some (name, value), ih => tracked shape name value (ih (name, value) rfl))
    constant (fun _ h => nomatch h) (fun _ ih _ h => Option.some.inj h ▸ ih) (fun _ _ ih => ih) e

/-! ## Families of elements -/

/-- The element of a set of truth values, `bottom` for none. -/
def ofBoolean? (s : Option BooleanSet) : Element :=
  s.elim bottom boolean

/-- The element of a set of integers, `bottom` for none. -/
def ofIntegral? (s : Option IntegralSet) : Element :=
  s.elim bottom integral

/-- The element of a set of floating-point numbers, `bottom` for none. -/
def ofFloating? (width : FloatingWidth) (s : Option FloatingSet) : Element :=
  s.elim bottom (floating width)

/-- Whether the element is `bottom`. -/
def isBottom : Element → Bool
  | bottom => true
  | _ => false

/-- A special field, which is not tracked when nothing is known of its value. -/
def bind? (name : String) : Element → Option (String × Element)
  | top => none
  | value => some (name, value)

/-- The name of the special field that holds the length of a string. -/
def lengthField : String := "length"

/-- The length of a string payload, counted in 16-bit units. -/
def length? : Payload → Option IntegralSet
  | .string s => some (.point .int (Text.unitLength s))
  | _ => none

/-- The special field of a constant: strings track their length. -/
def fieldOf? (c : ReferenceConstant) : Option (String × Element) :=
  (length? c.payload).map fun s => (lengthField, integral s)

/-- The object reference that a constant belongs to. -/
def asObject (c : ReferenceConstant) : Element :=
  object c.shape (fieldOf? c)

/-- The kind of an element. -/
def kind : Element → ElementKind
  | top => .top
  | bottom => .bottom
  | boolean .any => .boolean
  | boolean (.only _) => .booleanConstant
  | integral _ => .integral
  | floating _ .any => .floating
  | floating _ .zeros => .floatingZero
  | floating _ (.only _) => .floatingConstant
  | floating _ (.allBut _) => .floatingNotValue
  | null => .null
  | object _ _ => .reference
  | constant _ => .referenceConstant

/-! ## Invariants -/

/-- The invariant of elements, at every depth of special fields. A special field is never bound to
`top`. -/
def Valid : Element → Prop
  | integral s => s.Valid
  | floating _ s => s.Valid
  | object shape none => shape.Valid
  | object shape (some (_, value)) => shape.Valid ∧ value ≠ top ∧ Valid value
  | _ => True

/-- No constraint is `bottom` and no special field is bound to `bottom`, at any depth. -/
def Satisfiable : Element → Prop
  | object shape none => shape.constraint ≠ .bottom
  | object shape (some (_, value)) =>
    shape.constraint ≠ .bottom ∧ value ≠ bottom ∧ Satisfiable value
  | constant c => c.constraint ≠ .bottom
  | _ => True

end Element

end ValueLattice
