import ValueLattice.Element.Dump
import ValueLattice.Element.Meet
import ValueLattice.Fault
import ValueLattice.Host.Type

/-!
# Making elements

Elements are made from ranges, numbers, constraints, literals and types of the host. What does not
belong to the domain of the element is refused with a fault; what is made satisfies `Valid`.

* ranges: `ofRange` refuses members outside the width, `ofRangeClamped` drops them;
* references: `ofObject` refuses references that are always null, and local ones that may be null;
* constants: `ofPrimitive`, `ofConstant`, `ofConstantLike` and `ofReferenceConstant` read host
  values;
* `ofHostType` contains all values of a type, `defaultOf` is the value of an uninitialised variable.
-/

namespace ValueLattice.Element

/-! ## Integers -/

/-- The integers of a range that lies inside the domain of a width, with a wide range. -/
def ofRangeWithWide (width : IntegralWidth) (range : RangeSet) (wide : Option RangeSet) : Element :=
  ofIntegral? (IntegralSet.normal? width range wide)

/-- The integers of a range, which has to lie inside the domain of the width. -/
def ofRange (width : IntegralWidth) (range : RangeSet) : Except Fault Element :=
  if width.domain.containsAll range then .ok (ofRangeWithWide width range none)
  else .error (.outsideWidth range width)

/-- The integers of a range that belong to the domain of the width. -/
def ofRangeClamped (width : IntegralWidth) (range : RangeSet) : Element :=
  ofRangeWithWide width (range.intersect width.domain) none

/-- A single 32-bit integer, handed in as a number. -/
def ofInt (x : Double) : Except Fault Element :=
  match x.toInt? with
  | some n => if n ∈ IntegralWidth.int.domain then .ok (integral (.point .int n))
    else .error (.notAnInt x)
  | none => .error (.notAnInt x)

/-- An integer, which has to fit in 64 bits. -/
def checkLong (n : Int) : Except Fault Int :=
  if n ∈ IntegralWidth.long.domain then .ok n else .error (.outsideLong n)

/-- A single 64-bit integer. -/
def ofLong (n : Int) : Except Fault Element :=
  (checkLong n).map fun n => integral (.point .long n)

/-- Removes the integers outside a range. The range before is kept as the wide range, so that
widening can return to it. -/
def narrow (range : RangeSet) : Element → Except Fault Element
  | bottom => .ok bottom
  | integral s => .ok (ofIntegral? (s.narrow? range))
  | e => .error (.cannotNarrow e.kind range)

/-- Returns a set of integers to its recorded wide range; every other element is left as it is. -/
def toWide : Element → Element
  | integral s => ofIntegral? s.toWide?
  | e => e

/-! ## Truth values and floating-point numbers -/

/-- A single truth value. -/
def ofBool (b : Bool) : Element := boolean (.only b)

/-- A single floating-point number, rounded to the width. -/
def ofDouble (width : FloatingWidth) (x : Double) : Element :=
  floating width (.only (width.round x))

/-- All floating-point numbers but the given ones, which are rounded to the width. -/
def ofExcluded (width : FloatingWidth) (xs : List Double) : Element :=
  floating width (.excluding (xs.map width.round))

/-- Whether a floating-point number belongs to an element; only floating-point elements are asked. -/
def containsNumber (r : Registry) (x : Double) : Element → Except Fault Bool
  | floating _ s => .ok (s.contains x)
  | e => .error (.impossibleCase (e.toHost r))

/-! ## References -/

/-- References of the given shape. They must not be always null, and local ones must never be null;
a special field of which nothing is known is not tracked. -/
def ofObject (constraint : Constraint) (nullability : Nullability) (mutability : Mutability)
    (field : Option (String × Element)) (isLocal : Bool) : Except Fault Element :=
  match nullability.object? with
  | none => .error .alwaysNullObject
  | some n =>
    if isLocal = true ∧ n ≠ .notNull then .error (.localMayBeNull nullability)
    else .ok (object ⟨constraint, n, mutability, isLocal⟩ (field.bind fun f => bind? f.1 f.2))

/-- All references but null. -/
def notNullObject : Element := object notNullShape none

/-- All references. -/
def anyObject : Element := object ⟨.top, .unknown, .unknown, false⟩ none

/-- All references to local objects. -/
def localObject : Element := object ⟨.top, .notNull, .unknown, true⟩ none

/-! ## Constants -/

/-- The element of a literal. A bare integer may need more than 64 bits. -/
def ofLiteral : Literal → Except Fault Element
  | .boolean b => .ok (ofBool b)
  | .narrow _ x => ofInt x
  | .long n => ofLong n
  | .floating width x => .ok (ofDouble width x)

/-- The element of a primitive value of the host. -/
def ofPrimitive (v : HostValue) : Except Fault Element :=
  match Literal.ofHost? v with
  | some l => ofLiteral l
  | none => .error (.invalidPrimitive v)

/-- The reference constant of a host value. -/
def ofPayload (v : HostValue) (constraint : Constraint) (synthesized : Bool) :
    Except Fault Element :=
  match Payload.ofHost? v with
  | some payload => .ok (constant ⟨payload, constraint, synthesized⟩)
  | none => .error (.unsupportedObject v)

/-- The reference constant of a host value, an instance of the named type. -/
def ofReferenceConstant (v : HostValue) (type : String) (source : ConstraintSource) :
    Except Fault Element :=
  ofPayload v (source.instanceOf type) false

/-- The constant of a host value: null, a primitive, or a reference constant that `reference`
makes. -/
def ofHostValue (v : HostValue) (reference : Except Fault Element) : Except Fault Element :=
  match v with
  | .null => .ok null
  | v => if (Literal.ofHost? v).isSome then ofPrimitive v else reference

/-- The constant of a host value; an object is an instance of the named type. -/
def ofConstant (v : HostValue) (type : String) (source : ConstraintSource) : Except Fault Element :=
  ofHostValue v (ofReferenceConstant v type source)

/-- The constraint on the class of a reference. -/
def constraint? : Element → Option Constraint
  | object shape _ => some shape.constraint
  | constant c => some c.constraint
  | _ => none

/-- The constant of a host value; an object satisfies the constraint of the given reference. -/
def ofConstantLike (v : HostValue) (pattern : Element) : Except Fault Element :=
  ofHostValue v
    (match pattern.constraint? with
      | some constraint => ofPayload v constraint false
      | none => .error (.notAReference pattern.kind v))

/-- The result of a concatenation of strings: a new object of exactly the named type. -/
def ofConcatenation (text type : String) (source : ConstraintSource) : Element :=
  constant ⟨.string text, source.exact type, true⟩

/-! ## Types of the host -/

/-- The value of an uninitialised variable of a type: false, zero or null. -/
def defaultOf : HostType → Element
  | .primitive .boolean => ofBool false
  | .primitive (.narrow _) => integral (.point .int 0)
  | .primitive .long => integral (.point .long 0)
  | .primitive (.floating width) => ofDouble width .zero
  | _ => null

/-- The values of a primitive type. -/
def ofPrimitiveType : PrimitiveType → Element
  | .boolean => boolean .any
  | .narrow type => ofRangeClamped .int type.integerType.domain
  | .long => integral (.all .long)
  | .floating width => floating width .any

/-- The values of a type and its subtypes, with the given nullability for references; all values if
the type is not known. -/
def ofHostType (type : Option HostType) (nullability : Nullability) (source : ConstraintSource) :
    Except Fault Element :=
  match type with
  | none => .ok top
  | some .void => .ok bottom
  | some .null => .ok null
  | some (.primitive type) => .ok (ofPrimitiveType type)
  | some (.reference name) =>
    let constraint := source.instanceOf name
    if constraint.isBottom then .ok (if nullability = .notNull then bottom else null)
    else ofObject constraint nullability .unknown none false

end ValueLattice.Element
