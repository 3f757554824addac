/-!
# Double-precision numbers

A finite double is a sign and the index of its magnitude among the non-negative doubles in
ascending order, so every value has one representation and nothing else is representable. The
magnitude is a whole number of *steps* of `2^-1074`, the distance between zero and the least
positive double.

* `stepsOfIndex` gives the steps of an index: up to `2^53` consecutive indices are one step apart,
  from there on the distance doubles with every `2^52` indices;
* `toInt?` is the integer a double stands for, if it stands for one;
* `ofBits` and `toBits` go between doubles and their 64 bits; there is one NaN.
-/

namespace ValueLattice

/-- The number of finite magnitudes of a double. -/
@[irreducible] def finiteCount : Nat := 2047 * Nat.pow 2 52

theorem finiteCount_eq : finiteCount = 2047 * Nat.pow 2 52 := by
  unfold finiteCount
  rfl

theorem zero_lt_finiteCount : 0 < finiteCount := by
  rw [finiteCount_eq]
  decide

/-- A double-precision number. -/
inductive Double where
  /-- Not a number. -/
  | nan
  /-- An infinity. -/
  | infinity (negative : Bool)
  /-- A finite number: its sign and the index of its magnitude. Zero has both signs. -/
  | finite (negative : Bool) (index : Nat) (index_lt : index < finiteCount)
deriving DecidableEq

namespace Double

/-- The magnitude with the given index, in steps of `2^-1074`. -/
def stepsOfIndex (index : Nat) : Nat :=
  if index / Nat.pow 2 52 = 0 then index
  else (Nat.pow 2 52 + index % Nat.pow 2 52) * Nat.pow 2 (index / Nat.pow 2 52 - 1)

/-- The positive zero. -/
def zero : Double := finite false 0 zero_lt_finiteCount

/-- The negative zero. -/
def negativeZero : Double := finite true 0 zero_lt_finiteCount

/-- Both zeros, the positive one first. -/
def zeros : List Double := [zero, negativeZero]

/-- Whether the number is a zero of either sign. -/
def isZero : Double → Bool
  | finite _ 0 _ => true
  | _ => false

/-- The integer with the given sign and magnitude. -/
def signed (negative : Bool) (n : Nat) : Int :=
  if negative then -n else n

/-- The integer a double stands for, if it stands for one. Both zeros stand for zero. -/
def toInt? : Double → Option Int
  | finite negative index _ =>
    if stepsOfIndex index % Nat.pow 2 1074 = 0 then
      some (signed negative (stepsOfIndex index / Nat.pow 2 1074))
    else none
  | _ => none

/-- The double with the given 64 bits; all patterns of a NaN give the one NaN. -/
def ofBits (bits : Nat) : Double :=
  let negative := decide (bits / Nat.pow 2 63 % 2 = 1)
  let index := bits % Nat.pow 2 63
  if h : index < finiteCount then finite negative index h
  else if index = finiteCount then infinity negative
  else nan

/-- The 64 bits of a double. -/
def toBits : Double → Nat
  | nan => finiteCount + Nat.pow 2 51
  | infinity negative => (if negative then Nat.pow 2 63 else 0) + finiteCount
  | finite negative index _ => (if negative then Nat.pow 2 63 else 0) + index

/-! ## Which numbers are identical -/

/-- Whether two numbers are identical: they stand for the same one, so the zeros are identical and
NaN is not. -/
def identical (x y : Double) : Bool :=
  x != .nan && (x == y || x.isZero && y.isZero)

/-- The number with the sign of a zero taken off. -/
def unsignedZero (x : Double) : Double :=
  if x.isZero then zero else x

theorem identical_self_iff {x : Double} : x.identical x = true ↔ x ≠ nan := by
  simp [identical]

theorem isZero_unsignedZero (x : Double) : x.unsignedZero.isZero = x.isZero := by
  unfold unsignedZero
  split
  · next h => exact h.symm
  · rfl

theorem unsignedZero_unsignedZero (x : Double) : x.unsignedZero.unsignedZero = x.unsignedZero := by
  cases h : x.isZero with
  | true => simp [unsignedZero, h]
  | false => simp [unsignedZero, h]

theorem unsignedZero_eq_iff {x y : Double} :
    x.unsignedZero = y.unsignedZero ↔ x = y ∨ x.isZero = true ∧ y.isZero = true := by
  constructor
  · intro h
    have hzero : x.isZero = y.isZero := by
      rw [← isZero_unsignedZero x, h, isZero_unsignedZero]
    cases hx : x.isZero with
    | true => exact .inr ⟨rfl, hzero ▸ hx⟩
    | false =>
      rw [hx] at hzero
      simp only [unsignedZero, hx, ← hzero] at h
      exact .inl h
  · rintro (rfl | ⟨hx, hy⟩)
    · rfl
    · simp [unsignedZero, hx, hy]

theorem identical_iff (x y : Double) :
    x.identical y = true ↔ x.identical x = true ∧ x.unsignedZero = y.unsignedZero := by
  rw [identical_self_iff, unsignedZero_eq_iff]
  simp [identical]

theorem identical_symm {x y : Double} (h : x.identical y = true) : y.identical x = true := by
  have hcases : x ≠ nan ∧ (x = y ∨ x.isZero = true ∧ y.isZero = true) := by
    simpa [identical] using h
  obtain ⟨hx, rfl | ⟨hxzero, hyzero⟩⟩ := hcases
  · exact identical_self_iff.2 hx
  · have hy : y ≠ nan := by
      rintro rfl
      exact Bool.noConfusion hyzero
    simp [identical, hy, hxzero, hyzero]

theorem identical_comm (x y : Double) : x.identical y = y.identical x :=
  Bool.eq_iff_iff.2 ⟨identical_symm, identical_symm⟩

end Double

end ValueLattice
