import ValueLattice.Element.Order

/-!
# The join of elements

`join a b` contains the values of both elements, and more where their union has no form of its own.

* elements of different families join to `top`;
* two references join component by component, constants as the object references they belong to,
  unless one of them already *absorbs* the other one;
* a special field stays if both references track it and something is known of the join.
-/

namespace ValueLattice.Element

/-- Whether an object reference is the join of itself and another one that it covers. A reference
that is sometimes null covers one that never is, yet the nullability of their join is unknown. -/
def absorbs (r : Registry) (shape : ObjectShape) (field : Option (String × Element))
    (nullability : ObjectNullability) (other : Element) : Bool :=
  covers r (object shape field) other && shape.nullability.join nullability == shape.nullability

/-- The join of a set of integers with any element. -/
def joinIntegral (s : IntegralSet) : Element → Element
  | bottom => integral s
  | integral t => if s.width = t.width then ofIntegral? (s.join? t) else top
  | _ => top

/-- The special field of the join of a string of the given length with an object. -/
def joinLength? (length : Option IntegralSet) (field : Option (String × Element)) :
    Option (String × Element) :=
  match length, field with
  | some s, some (name, value) =>
    if lengthField = name then bind? lengthField (joinIntegral s value) else none
  | _, _ => none

/-- An element that contains the values of both elements. -/
def join (r : Registry) (a b : Element) : Element :=
  match a with
  | top => top
  | bottom => b
  | boolean s =>
    match b with
    | bottom => boolean s
    | boolean t => boolean (s.join t)
    | _ => top
  | integral s => joinIntegral s b
  | floating w s =>
    match b with
    | bottom => floating w s
    | floating v t => if w = v then floating w (s.join t) else top
    | _ => top
  | null =>
    match b with
    | bottom => null
    | null => null
    | object shape field => object shape.orNull field
    | constant c => object c.shape.orNull (fieldOf? c)
    | _ => top
  | object shape field =>
    match b with
    | bottom => object shape field
    | null => object shape.orNull field
    | object shape' field' =>
      if absorbs r shape field shape'.nullability b then object shape field
      else if absorbs r shape' field' shape.nullability (object shape field) then b
      else
        object (shape.join r shape')
          (match field, field' with
            | some (name, value), some (name', value') =>
              if name = name' then bind? name (join r value value') else none
            | _, _ => none)
    | constant c =>
      if absorbs r shape field c.shape.nullability b then object shape field
      else
        object (shape.join r c.shape)
          (match field, length? c.payload with
            | some (name, value), some length =>
              if name = lengthField then bind? name (join r value (integral length)) else none
            | _, _ => none)
    | _ => top
  | constant c =>
    match b with
    | bottom => constant c
    | null => object c.shape.orNull (fieldOf? c)
    | object shape field =>
      if absorbs r shape field c.shape.nullability (constant c) then b
      else object (c.shape.join r shape) (joinLength? (length? c.payload) field)
    | constant d =>
      if c.covers r d then constant c
      else if d.covers r c then constant d
      else object (c.shape.join r d.shape) (joinLength? (length? c.payload) (fieldOf? d))
    | _ => top

@[simp] theorem bottom_join (r : Registry) (b : Element) : join r bottom b = b := rfl

@[simp] theorem join_bottom (r : Registry) (a : Element) : join r a bottom = a := by
  cases a <;> rfl

@[simp] theorem top_join (r : Registry) (b : Element) : join r top b = top := rfl

@[simp] theorem join_top (r : Registry) (a : Element) : join r a top = top := by
  cases a <;> rfl

/-- A set of integers joins as the join with its values does. -/
theorem integral_join (r : Registry) (s : IntegralSet) (b : Element) :
    join r (integral s) b = joinIntegral s b := rfl

end ValueLattice.Element
