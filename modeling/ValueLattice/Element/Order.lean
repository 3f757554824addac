import ValueLattice.Element.Basic

/-!
# The order of elements

`covers a b` decides whether every value of `b` is a value of `a`. Elements of different families,
and integers or floating-point numbers of different widths, have no values in common.

* a reference constant is covered by what covers the object reference it belongs to;
* `top_covers`, `covers_bottom`: the greatest and the least element;
* `covers_self`: the order is reflexive, whatever the hierarchies look like.
-/

namespace ValueLattice.Element

/-- Whether every value of the second element is a value of the first one. -/
def covers (r : Registry) (a b : Element) : Bool :=
  match a with
  | top => true
  | bottom => b.isBottom
  | boolean s =>
    match b with
    | bottom => true
    | boolean t => s.covers t
    | _ => false
  | integral s =>
    match b with
    | bottom => true
    | integral t => s.covers t
    | _ => false
  | floating w s =>
    match b with
    | bottom => true
    | floating v t => w == v && s.covers t
    | _ => false
  | null =>
    match b with
    | bottom => true
    | null => true
    | _ => false
  | object shape field =>
    match b with
    | bottom => true
    | null => shape.nullability.mayBeNull
    | object shape' field' =>
      shape.covers r shape' &&
        (match field, field' with
          | none, _ => true
          | some _, none => false
          | some (name, value), some (name', value') => name == name' && covers r value value')
    | constant c =>
      shape.covers r c.shape &&
        (match field, length? c.payload with
          | none, _ => true
          | some _, none => false
          | some (name, value), some length =>
            name == lengthField && covers r value (integral length))
    | _ => false
  | constant c =>
    match b with
    | bottom => true
    | constant d => c.covers r d
    | _ => false

@[simp] theorem top_covers (r : Registry) (b : Element) : covers r top b = true := rfl

@[simp] theorem covers_bottom (r : Registry) (a : Element) : covers r a bottom = true := by
  cases a <;> rfl

/-- Every element covers itself, at every depth of special fields. -/
@[simp] theorem covers_self (r : Registry) (e : Element) : covers r e e = true := by
  induction e with
  | top => rfl
  | bottom => rfl
  | boolean s => simp [covers]
  | integral s => simp [covers]
  | floating w s => simp [covers]
  | null => rfl
  | plain shape => simp [covers]
  | tracked shape name value ih => simp [covers, ih]
  | constant c => simp [covers]

/-- A reference covers a constant exactly if it covers the object reference that the constant
belongs to. -/
theorem object_covers_constant (r : Registry) (shape : ObjectShape)
    (field : Option (String × Element)) (c : ReferenceConstant) :
    covers r (object shape field) (constant c) = covers r (object shape field) (asObject c) := by
  rcases field with _ | ⟨name, value⟩
  · simp [covers, asObject]
  · cases h : length? c.payload <;> simp [covers, asObject, fieldOf?, h]

end ValueLattice.Element
