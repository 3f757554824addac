import ValueLattice.Proofs.Doubles

/-!
# Numbers of single precision

Rounding to single precision leaves a number of single precision alone: its significand has at most
24 bits, so it is a whole number of the units that it is rounded to.

* `roundedSteps`: the steps that a magnitude is rounded to, `roundedSteps_roundedSteps`: once and for
  all;
* `ofSteps_roundedSteps`: these are the steps of a double;
* `toSingle_toSingle`, `round_round`: so rounding a number again changes nothing.
-/

namespace ValueLattice

namespace Double

/-! ## Magnitudes -/

/-- The exponent of the unit that a number of steps is rounded to in single precision. -/
def singleUnit (steps : Nat) : Nat := max singleShift (steps.log2 - 23)

/-- The number of steps that is nearest to another one in single precision. -/
def roundedSteps (steps : Nat) : Nat :=
  roundEven steps (Nat.pow 2 (singleUnit steps)) * Nat.pow 2 (singleUnit steps)

theorem roundEven_le (num den : Nat) : roundEven num den ≤ num / den + 1 := by
  simp only [roundEven]
  grind

/-- A multiple of a unit is rounded to itself. -/
theorem roundEven_mul_of_dvd {num den : Nat} (hden : 0 < den) (h : den ∣ num) :
    roundEven num den * den = num := by
  obtain ⟨q, rfl⟩ := h
  rw [Nat.mul_comm den q, roundEven_mul hden]

/-- The significand has at most 24 bits, or rounding has carried into the next one. -/
theorem roundEven_singleUnit_le (steps : Nat) :
    roundEven steps (Nat.pow 2 (singleUnit steps)) ≤ Nat.pow 2 24 := by
  have hunit : steps.log2 + 1 ≤ 24 + singleUnit steps := by
    have := Nat.le_max_right singleShift (steps.log2 - 23)
    unfold singleUnit
    omega
  have hlt : steps < Nat.pow 2 24 * Nat.pow 2 (singleUnit steps) := calc
    steps < 2 ^ (steps.log2 + 1) := Nat.lt_log2_self
    _ ≤ 2 ^ (24 + singleUnit steps) := Nat.pow_le_pow_right Nat.two_pos hunit
    _ = Nat.pow 2 24 * Nat.pow 2 (singleUnit steps) := Nat.pow_add 2 _ _
  have hdiv : steps / Nat.pow 2 (singleUnit steps) < Nat.pow 2 24 :=
    Nat.div_lt_of_lt_mul (Nat.mul_comm _ _ ▸ hlt)
  exact Nat.le_trans (roundEven_le _ _) hdiv

/-- A significand of at most 24 bits is a multiple of the unit it is rounded to; so is the power of
two that rounding may have carried to. -/
theorem pow_singleUnit_dvd {k unit : Nat} (hk : k ≤ Nat.pow 2 24) (hunit : singleShift ≤ unit) :
    Nat.pow 2 (singleUnit (k * Nat.pow 2 unit)) ∣ k * Nat.pow 2 unit := by
  by_cases hzero : k = 0
  · rw [hzero, Nat.zero_mul]
    exact Nat.dvd_zero _
  have hlog := log2_mul_pow hzero unit
  by_cases hcarry : k = Nat.pow 2 24
  · have hexact : singleUnit (k * Nat.pow 2 unit) ≤ 24 + unit := by
      rw [singleUnit, hlog, hcarry, show (Nat.pow 2 24).log2 = 24 from Nat.log2_two_pow]
      omega
    refine Nat.dvd_trans (Nat.pow_dvd_pow 2 hexact) ?_
    rw [hcarry]
    exact Nat.pow_add 2 24 unit ▸ Nat.dvd_refl _
  · have hbits : k.log2 < 24 := (Nat.log2_lt hzero).2 (Nat.lt_of_le_of_ne hk hcarry)
    have hexact : singleUnit (k * Nat.pow 2 unit) ≤ unit := by
      rw [singleUnit, hlog]
      omega
    exact Nat.dvd_mul_left_of_dvd (Nat.pow_dvd_pow 2 hexact) k

theorem roundedSteps_roundedSteps (steps : Nat) :
    roundedSteps (roundedSteps steps) = roundedSteps steps := by
  have hdvd := pow_singleUnit_dvd (roundEven_singleUnit_le steps)
    (Nat.le_max_left singleShift (steps.log2 - 23))
  exact roundEven_mul_of_dvd (Nat.two_pow_pos _) hdvd

theorem roundedSteps_zero : roundedSteps 0 = 0 := by
  unfold roundedSteps
  generalize singleUnit 0 = unit
  exact roundEven_mul_of_dvd (Nat.two_pow_pos unit) (Nat.dvd_zero _)

/-! ## Numbers -/

/-- A finite number is rounded to the steps of single precision, or to infinity. The exponent of the
bound is a variable, so that no power of it is ever computed. -/
theorem exists_toSingle_finite : ∃ bits ≤ 2047, ∀ (negative : Bool) (index : Nat)
    (h : index < finiteCount), toSingle (finite negative index h) =
      if Nat.pow 2 bits ≤ roundedSteps (stepsOfIndex index) then infinity negative
      else if roundedSteps (stepsOfIndex index) = stepsOfIndex index then finite negative index h
      else ofSteps negative (roundedSteps (stepsOfIndex index)) 1 :=
  ⟨1202, by decide, fun _ _ _ => rfl⟩

/-- What is rounded to single precision is the number of steps of a double. -/
theorem ofSteps_roundedSteps (negative : Bool) {steps bits : Nat} (hbits : bits ≤ 2047)
    (hlt : roundedSteps steps < Nat.pow 2 bits) :
    ∃ index, ∃ h : index < finiteCount,
      ofSteps negative (roundedSteps steps) 1 = finite negative index h ∧
        stepsOfIndex index = roundedSteps steps := by
  have hsmall : roundEven steps (Nat.pow 2 (singleUnit steps)) < Nat.pow 2 53 :=
    Nat.lt_of_le_of_lt (roundEven_singleUnit_le steps) (by decide)
  have hunit : 52 ≤ singleUnit steps := Nat.le_trans (by decide) (Nat.le_max_left _ _)
  exact ofSteps_mul_pow negative hsmall hunit hbits hlt

/-- Rounding a number of single precision changes nothing. -/
theorem toSingle_toSingle (x : Double) : x.toSingle.toSingle = x.toSingle := by
  obtain ⟨bits, hbits, hround⟩ := exists_toSingle_finite
  match x with
  | nan => rfl
  | infinity _ => rfl
  | finite negative index h =>
    rw [hround]
    by_cases hlarge : Nat.pow 2 bits ≤ roundedSteps (stepsOfIndex index)
    · rw [if_pos hlarge]
      rfl
    rw [if_neg hlarge]
    by_cases hsame : roundedSteps (stepsOfIndex index) = stepsOfIndex index
    · rw [if_pos hsame, hround, if_neg hlarge, if_pos hsame]
    · rw [if_neg hsame]
      obtain ⟨index', h', hmake, hsteps⟩ :=
        ofSteps_roundedSteps negative hbits (Nat.lt_of_not_le hlarge)
      have hrounded : roundedSteps (stepsOfIndex index') = stepsOfIndex index' := by
        rw [hsteps, roundedSteps_roundedSteps]
      rw [hmake, hround, hrounded, if_neg (hsteps.symm ▸ hlarge), if_pos rfl]

/-- Zeros are numbers of single precision. -/
theorem toSingle_of_isZero {x : Double} (h : x.isZero = true) : x.toSingle = x := by
  obtain ⟨bits, _, hround⟩ := exists_toSingle_finite
  match x with
  | finite negative 0 hlt =>
    have hbound : ¬Nat.pow 2 bits ≤ 0 := Nat.not_le.2 (Nat.two_pow_pos bits)
    have hsteps : roundedSteps (stepsOfIndex 0) = 0 := roundedSteps_zero
    have hsame : 0 = stepsOfIndex 0 := rfl
    rw [hround, hsteps, if_neg hbound, if_pos hsame]

end Double

namespace FloatingWidth

theorem round_of_isZero (w : FloatingWidth) {x : Double} (h : x.isZero = true) : w.round x = x := by
  cases w with
  | float => exact Double.toSingle_of_isZero h
  | double => rfl

/-- Rounding a number of a width to that width changes nothing. -/
@[simp] theorem round_round (w : FloatingWidth) (x : Double) : w.round (w.round x) = w.round x := by
  cases w with
  | float => exact x.toSingle_toSingle
  | double => rfl

end FloatingWidth

end ValueLattice
