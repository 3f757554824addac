import ValueLattice.Element.Widen

/-!
# Operations with checks

The operations on elements hand what they compute to the functions that make elements, which refuse
it where it is no element: a reference that is always null, a local one that may be null, a length
that is not an `int`. Here the operations are with these checks, so each of them ends with an element
or with a fault.

* `ofRangeClamped` makes an element of what is left of a range inside the domain of a width;
* `reference?` views references and constants as a shape with a special field;
* `covers`, `join`, `meet` and `widen` are the operations, `asObject` is the view of a constant;
* what the operations make of integers, floating-point numbers and truth values is not checked.
-/

namespace ValueLattice.Element.Checked

/-! ## Integers -/

/-- The integers of a range that belong to the domain of the width; what is left of the range has to
lie inside it. -/
def ofRangeClamped (width : IntegralWidth) (range : RangeSet) : Except Fault Element :=
  ofRange width (range.intersect width.domain)

/-! ## References -/

/-- References of the given shape, if the shape is one of objects. -/
def ofShape (shape : ObjectShape) (field : Option (String × Element)) : Except Fault Element :=
  ofObject shape.constraint shape.nullability.general shape.mutability field shape.isLocal

/-- The special field of a constant; the length of a string has to be an `int`. -/
def fieldOf? (c : ReferenceConstant) : Except Fault (Option (String × Element)) :=
  match c.payload with
  | .string s => do
    let length ← ofInt (.ofInt (Text.unitLength s))
    pure (some (lengthField, length))
  | _ => pure none

/-- The object reference that a constant belongs to. -/
def asObject (c : ReferenceConstant) : Except Fault Element := do
  let field ← fieldOf? c
  ofShape c.shape field

/-- The shape and the special field of a reference; constants are viewed as the object references
they belong to. -/
def reference? : Element → Except Fault (Option (ObjectShape × Option (String × Element)))
  | object shape field => pure (some (shape, field))
  | constant c => do
    let field ← fieldOf? c
    pure (some (c.shape, field))
  | _ => pure none

/-! ## The order -/

/-- Whether every value of the second element is a value of the first one. -/
def covers (r : Registry) : Element → Element → Except Fault Bool
  | object shape none, b => do
    match ← reference? b with
    | none => pure (Element.covers r (object shape none) b)
    | some (shape', _) => pure (shape.covers r shape')
  | object shape (some (name, value)), b => do
    match ← reference? b with
    | none => pure (Element.covers r (object shape (some (name, value))) b)
    | some (_, none) => pure false
    | some (shape', some (name', value')) =>
      if shape.covers r shape' && name == name' then covers r value value' else pure false
  | a, b => pure (Element.covers r a b)

/-! ## The join -/

/-- Whether an object reference is the join of itself and another one. -/
def absorbs (r : Registry) (shape : ObjectShape) (field : Option (String × Element))
    (nullability : ObjectNullability) (other : Element) : Except Fault Bool := do
  let covered ← covers r (object shape field) other
  pure (covered && shape.nullability.join nullability == shape.nullability)

/-- Whether an element is the join of itself and an object reference; constants never are. -/
def absorbedBy (r : Registry) (shape : ObjectShape) (field : Option (String × Element)) :
    Element → Except Fault Bool
  | object shape' field' => absorbs r shape' field' shape.nullability (object shape field)
  | _ => pure false

/-- The object references of a shape, or null. -/
def orNull (shape : ObjectShape) (field : Option (String × Element)) : Except Fault Element :=
  if shape.nullability.mayBeNull then pure (object shape field)
  else ofShape { shape with nullability := .nullable, isLocal := false } field

/-- The special field of the join of a constant with another reference: lengths are integers, whose
joins are not checked. -/
def joinLength? (r : Registry) (field field' : Option (String × Element)) :
    Option (String × Element) :=
  match field, field' with
  | some (name, value), some (name', value') =>
    if name = name' then some (name, Element.join r value value') else none
  | _, _ => none

/-- The join of two object references with the given special field, unless one of them absorbs the
other one. -/
def joinReferences (r : Registry) (shape : ObjectShape) (field : Option (String × Element))
    (b : Element) (shape' : ObjectShape) (joined : Except Fault (Option (String × Element))) :
    Except Fault Element := do
  if ← absorbs r shape field shape'.nullability b then pure (object shape field)
  else if ← absorbedBy r shape field b then pure b
  else do
    let joined ← joined
    ofShape (shape.join r shape') joined

/-- An element that contains the values of both elements. -/
def join (r : Registry) (a b : Element) : Except Fault Element :=
  match a, b with
  | null, object shape field => orNull shape field
  | null, constant c => do
    let field ← fieldOf? c
    orNull c.shape field
  | object shape field, null => orNull shape field
  | object shape none, b => do
    match ← reference? b with
    | none => pure (Element.join r (object shape none) b)
    | some (shape', _) => joinReferences r shape none b shape' (pure none)
  | object shape (some (name, value)), b => do
    match ← reference? b with
    | none => pure (Element.join r (object shape (some (name, value))) b)
    | some (shape', none) => joinReferences r shape (some (name, value)) b shape' (pure none)
    | some (shape', some (name', value')) =>
      joinReferences r shape (some (name, value)) b shape'
        (if name = name' then (join r value value').map fun e => some (name, e) else pure none)
  | constant c, null => do
    let field ← fieldOf? c
    orNull c.shape field
  | constant c, object shape field => do
    if ← absorbs r shape field c.shape.nullability (constant c) then pure (object shape field)
    else do
      let own ← fieldOf? c
      ofShape (c.shape.join r shape) (joinLength? r own field)
  | constant c, constant d =>
    if c.covers r d then pure (constant c)
    else if d.covers r c then pure (constant d)
    else do
      let own ← fieldOf? c
      let field ← fieldOf? d
      ofShape (c.shape.join r d.shape) (joinLength? r own field)
  | a, b => pure (Element.join r a b)

/-! ## The meet -/

/-- The meet of two object references whose special field has the given meet, unless one of them
covers the other one. -/
def meetReferences (r : Registry) (shape : ObjectShape) (field : Option (String × Element))
    (shape' : ObjectShape) (field' : Option (String × Element))
    (met : Except Fault (Option (Option (String × Element)))) : Except Fault Element := do
  if ← covers r (object shape field) (object shape' field') then pure (object shape' field')
  else if ← covers r (object shape' field') (object shape field) then pure (object shape field)
  else
    match shape.meet? r shape' with
    | none => pure (meetNone shape shape')
    | some common => do
      match ← met with
      | none => pure (meetNone shape shape')
      | some field => ofShape common field

/-- A special field with the given value, unless it is `bottom`. -/
def tracked? (name : String) : Element → Option (Option (String × Element))
  | bottom => none
  | value => some (some (name, value))

/-- The values of both elements. -/
def meet (r : Registry) (a b : Element) : Except Fault Element :=
  match a, b with
  | object shape none, object shape' field' =>
    meetReferences r shape none shape' field' (pure (some field'))
  | object shape (some (name, value)), object shape' none =>
    meetReferences r shape (some (name, value)) shape' none (pure (some (some (name, value))))
  | object shape (some (name, value)), object shape' (some (name', value')) =>
    meetReferences r shape (some (name, value)) shape' (some (name', value'))
      (if name = name' then (meet r value value').map (tracked? name) else pure none)
  | object shape field, constant c => do
    if ← covers r (object shape field) (constant c) then pure (constant c) else pure bottom
  | constant c, object shape field => do
    if ← covers r (object shape field) (constant c) then pure (constant c) else pure bottom
  | a, b => pure (Element.meet r a b)

/-! ## Widening -/

/-- Widens an old state by a new one. -/
def widen (r : Registry) (strategy : Strategy) (old new : Element) : Except Fault Element := do
  match ← join r old new with
  | integral s => do
    if ← covers r old (integral s) then pure (integral s) else pure (widenTarget strategy s)
  | e => pure e

end ValueLattice.Element.Checked
