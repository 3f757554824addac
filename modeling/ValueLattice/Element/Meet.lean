import ValueLattice.Element.Order

/-!
# The meet of elements, and complements

`meet a b` contains the values that both elements have; elements of different families have none.

* two references meet component by component. Where no object can have both, null may still do, and
  the meet is `null` or `bottom`;
* a constant meets another element to itself if the element covers it, and to `bottom` otherwise;
* `negate` is the complement within the family of an element, `bottom` if it has no form.
-/

namespace ValueLattice.Element

/-- The meet of two object references that no object belongs to. -/
def meetNone (s t : ObjectShape) : Element :=
  if s.bothMayBeNull t then null else bottom

/-- The values of both elements. -/
def meet (r : Registry) (a b : Element) : Element :=
  match a with
  | top => b
  | bottom => bottom
  | boolean s =>
    match b with
    | top => boolean s
    | boolean t => ofBoolean? (s.meet? t)
    | _ => bottom
  | integral s =>
    match b with
    | top => integral s
    | integral t => if s.width = t.width then ofIntegral? (s.meet? t) else bottom
    | _ => bottom
  | floating w s =>
    match b with
    | top => floating w s
    | floating v t => if w = v then ofFloating? w (s.meet? t) else bottom
    | _ => bottom
  | null =>
    match b with
    | top => null
    | null => null
    | object shape _ => if shape.nullability.mayBeNull then null else bottom
    | _ => bottom
  | object shape field =>
    match b with
    | top => object shape field
    | null => if shape.nullability.mayBeNull then null else bottom
    | object shape' field' =>
      if covers r (object shape field) b then b
      else if covers r b (object shape field) then object shape field
      else
        match shape.meet? r shape' with
        | none => meetNone shape shape'
        | some common =>
          match field, field' with
          | none, field' => object common field'
          | field, none => object common field
          | some (name, value), some (name', value') =>
            if name = name' then
              match meet r value value' with
              | bottom => meetNone shape shape'
              | value => object common (bind? name value)
            else meetNone shape shape'
    | constant c => if covers r (object shape field) b then constant c else bottom
    | _ => bottom
  | constant c =>
    match b with
    | top => constant c
    | object shape field => if covers r (object shape field) (constant c) then constant c else bottom
    | constant d =>
      if c.covers r d then constant d else if d.covers r c then constant c else bottom
    | _ => bottom

@[simp] theorem top_meet (r : Registry) (b : Element) : meet r top b = b := rfl

@[simp] theorem bottom_meet (r : Registry) (b : Element) : meet r bottom b = bottom := rfl

@[simp] theorem meet_top (r : Registry) (a : Element) : meet r a top = a := by
  cases a <;> rfl

@[simp] theorem meet_bottom (r : Registry) (a : Element) : meet r a bottom = bottom := by
  cases a <;> rfl

/-! ## Complements -/

/-- The shape of all object references but null. -/
def notNullShape : ObjectShape := ⟨.top, .notNull, .unknown, false⟩

/-- The values of the family of an element that do not belong to it, `bottom` if they have no
form. -/
def negate : Element → Element
  | top => bottom
  | bottom => top
  | boolean s => ofBoolean? s.negate?
  | integral s => ofIntegral? s.negate?
  | floating w s => ofFloating? w s.negate?
  | null => object notNullShape none
  | object shape none => if shape = notNullShape then null else bottom
  | object _ (some _) => bottom
  | constant _ => bottom

end ValueLattice.Element
