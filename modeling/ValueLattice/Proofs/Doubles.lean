import ValueLattice.Double.Text
import ValueLattice.Proofs.Texts

/-!
# Keys of doubles, and integers as doubles

Sets of floating-point numbers tell numbers apart by their keys, and lengths of texts are handed in
as numbers. What they rely on:

* `mem_key`: a key is made of digits, of signs, of the letters of `NaN` and `Infinity`, of a point
  and of the letter of an exponent, so no separator occurs in it;
* `isZero_eq_of_key_eq`: numbers with one key are both zeros or both not, since the digits of any
  other number are not all zeros;
* `ofSteps_mul_pow`: a number of at most 53 bits, in some unit, is a double of its own, so
  `toInt?_ofInt`: an integer of at most 53 bits is.
-/

namespace ValueLattice.Double

/-! ## Characters -/

/-- The characters of keys that are not digits. -/
def keyMarks : List Char := "NaInfity.e+-".toList

theorem mem_keyMarks_of_all {s : String} (hs : s.toList.all (keyMarks.contains ·) = true) {c : Char}
    (hc : c ∈ s.toList) : c ∈ keyMarks :=
  List.contains_iff_mem.1 (List.all_eq_true.1 hs c hc)

theorem mem_zerosText {n : Nat} {c : Char} (h : c ∈ (zerosText n).toList) : c.isDigit = true := by
  rw [zerosText, String.toList_ofList] at h
  rw [List.eq_of_mem_replicate h]
  rfl

theorem mem_pointAfterFirst {digits : List Char} {c : Char}
    (h : c ∈ (pointAfterFirst digits).toList) : c = '.' ∨ c ∈ digits := by
  match digits with
  | [] => simp [pointAfterFirst] at h
  | [d] => exact .inr (by simpa [pointAfterFirst] using h)
  | d :: e :: l =>
    simp only [pointAfterFirst, String.toList_ofList, List.mem_cons] at h
    rcases h with rfl | rfl | h
    · exact .inr List.mem_cons_self
    · exact .inl rfl
    · exact .inr (by simp [h])

theorem subset_pointAfterFirst {digits : List Char} {c : Char} (h : c ∈ digits) :
    c ∈ (pointAfterFirst digits).toList := by
  match digits with
  | [d] => simpa [pointAfterFirst] using h
  | d :: e :: l =>
    simp only [pointAfterFirst, String.toList_ofList, List.mem_cons] at h ⊢
    rcases h with rfl | h
    · exact .inl rfl
    · exact .inr (.inr h)

theorem mem_decimalText {layout : Layout} {d : Decimal} {c : Char}
    (h : c ∈ (decimalText layout d).toList) : c ∈ keyMarks ∨ c.isDigit = true := by
  have hdigit {c : Char} (hc : c ∈ Nat.toDigits 10 d.digits) : c.isDigit = true :=
    Nat.isDigit_of_mem_toDigits (b := 10) (by omega) (by omega) hc
  have hpoint : '.' ∈ keyMarks := by decide
  have hsign {n : Int} {c : Char} (hc : c ∈ (if n < 0 then "-" else "+").toList) :
      c ∈ keyMarks := by
    split at hc <;> exact mem_keyMarks_of_all rfl hc
  simp only [decimalText] at h
  split at h
  · simp only [String.toList_append, List.mem_append] at h
    rcases h with ((h | h) | h) | h
    · rcases mem_pointAfterFirst h with rfl | h
      · exact .inl hpoint
      · exact .inr (hdigit h)
    · obtain rfl : c = 'e' := by simpa using h
      exact .inl (by decide)
    · exact .inl (hsign h)
    · exact .inr (Text.isDigit_of_mem_natural h)
  · split at h
    · simp only [String.toList_append, String.toList_ofList, List.mem_append] at h
      rcases h with h | h
      · exact .inr (hdigit h)
      · exact .inr (mem_zerosText h)
    · split at h
      · simp only [String.toList_append, String.toList_ofList, List.mem_append] at h
        rcases h with (h | h) | h
        · exact .inr (hdigit (List.mem_of_mem_take h))
        · obtain rfl : c = '.' := by simpa using h
          exact .inl hpoint
        · exact .inr (hdigit (List.mem_of_mem_drop h))
      · simp only [String.toList_append, String.toList_ofList, List.mem_append] at h
        rcases h with (h | h) | h
        · rcases (show c = '0' ∨ c = '.' by simpa using h) with rfl | rfl
          · exact .inr rfl
          · exact .inl hpoint
        · exact .inr (mem_zerosText h)
        · exact .inr (hdigit h)

theorem mem_sign {negative : Bool} {c : Char} (h : c ∈ (Text.sign negative).toList) : c = '-' := by
  cases negative with
  | false => simp [Text.sign] at h
  | true => simpa [Text.sign] using h

theorem mem_text {x : Double} {c : Char} (h : c ∈ x.text.toList) :
    c ∈ keyMarks ∨ c.isDigit = true := by
  have hsign {negative : Bool} {c : Char} (h : c ∈ (Text.sign negative).toList) :
      c ∈ keyMarks := by
    rw [mem_sign h]
    decide
  unfold text at h
  split at h
  · exact .inl (mem_keyMarks_of_all rfl h)
  · rw [String.toList_append, List.mem_append] at h
    rcases h with h | h
    · exact .inl (hsign h)
    · exact .inl (mem_keyMarks_of_all rfl h)
  · obtain rfl : c = '0' := by simpa using h
    exact .inr rfl
  · rw [String.toList_append, List.mem_append] at h
    rcases h with h | h
    · exact .inl (hsign h)
    · exact mem_decimalText h

theorem mem_key {x : Double} {c : Char} (h : c ∈ x.key.toList) :
    c ∈ keyMarks ∨ c.isDigit = true := by
  unfold key at h
  split at h
  · rcases (show c = '-' ∨ c = '0' by simpa using h) with rfl | rfl
    · exact .inl (by decide)
    · exact .inr rfl
  · exact mem_text h

theorem notMem_key {x : Double} {c : Char} (hmark : c ∉ keyMarks) (hdigit : c.isDigit = false) :
    c ∉ x.key.toList := by
  intro h
  rcases mem_key h with h | h
  · exact hmark h
  · rw [hdigit] at h
    exact Bool.noConfusion h

/-! ## Zeros -/

theorem isZero_iff {x : Double} : x.isZero = true ↔ x = zero ∨ x = negativeZero := by
  constructor
  · intro h
    match x with
    | finite false 0 _ => exact .inl rfl
    | finite true 0 _ => exact .inr rfl
  · rintro (rfl | rfl) <;> rfl

theorem mem_zeros {x : Double} (h : x.isZero = true) : x ∈ zeros := by
  simpa [zeros] using isZero_iff.1 h

theorem exists_mem_toDigits_ne_zero {n : Nat} (hn : n ≠ 0) :
    ∃ c ∈ Nat.toDigits 10 n, c ≠ '0' := by
  have hne : Nat.toDigits 10 n ≠ [] := Nat.toDigits_ne_nil
  obtain ⟨c, l, hdigits⟩ := List.exists_cons_of_ne_nil hne
  have hhead := Text.head?_toDigits_ne_zero hn
  rw [hdigits] at hhead ⊢
  exact ⟨c, List.mem_cons_self, fun hc => hhead (congrArg some hc)⟩

/-- A text shows all digits of a decimal. -/
theorem mem_decimalText_of_mem_digits {layout : Layout} {d : Decimal} {c : Char}
    (h : c ∈ Nat.toDigits 10 d.digits) : c ∈ (decimalText layout d).toList := by
  simp only [decimalText]
  split
  · simp [subset_pointAfterFirst h]
  · split
    · simp [h]
    · split
      · generalize (Nat.toDigits 10 d.digits) = digits at h ⊢
        generalize (digits.length + d.exponent - 1 : Int).toNat + 1 = n
        rw [← List.take_append_drop n digits, List.mem_append] at h
        simp only [String.toList_append, String.toList_ofList, List.mem_append]
        rcases h with h | h
        · exact .inl (.inl h)
        · exact .inr h
      · simp [h]

theorem nearestIndex_zero (den : Nat) : nearestIndex 0 den = 0 := by
  simp [nearestIndex, roundEven, Nat.log2_zero]

theorem stepsOfIndex_ne_zero {index : Nat} (h : index ≠ 0) : stepsOfIndex index ≠ 0 := by
  unfold stepsOfIndex
  have htwo : 0 < Nat.pow 2 52 := Nat.pow_pos (by omega)
  split
  · exact h
  · exact Nat.mul_ne_zero (by omega) (Nat.ne_of_gt (Nat.pow_pos (by omega)))

theorem firstNeighbour?_readsBack {index tries : Nat} {exponent : Int} {d : Decimal}
    (h : firstNeighbour? index tries exponent = some d) : readsBack index d = true := by
  induction tries generalizing exponent with
  | zero => exact nomatch h
  | succ tries ih =>
    rw [firstNeighbour?, Option.or_eq_some_iff] at h
    rcases h with h | ⟨_, h⟩
    · exact neighbour?_readsBack h
    · exact ih h

theorem shortest_digits_ne_zero {index : Nat} (h : index ≠ 0) : (shortest index).digits ≠ 0 := by
  unfold shortest
  cases hfirst : firstNeighbour? index 20 (coarsestExponent (stepsOfIndex index)) with
  | none =>
    have hpow (n : Nat) : stepsOfIndex index * Nat.pow 5 n ≠ 0 :=
      Nat.mul_ne_zero (stepsOfIndex_ne_zero h) (Nat.ne_of_gt (Nat.pow_pos (by omega)))
    rw [Option.getD_none, exactDecimal]
    apply hpow
  | some d =>
    intro hzero
    -- The decimal reads back as the magnitude, but no digits read back as the magnitude zero.
    have hback := firstNeighbour?_readsBack hfirst
    rw [Option.getD_some] at hzero
    simp only [readsBack, decimalSteps, hzero, Nat.zero_mul, nearestIndex_zero, beq_iff_eq] at hback
    exact h hback.symm

/-- Whether a character occurs in the keys of the zeros. -/
def zeroMark (c : Char) : Bool :=
  c == '-' || c == '0'

theorem key_zero : key zero = "0" := by
  have hne : zero ≠ negativeZero := by
    intro hx
    exact Bool.noConfusion (Double.finite.inj hx).1
  rw [key, if_neg hne]
  rfl

theorem key_negativeZero : key negativeZero = "-0" :=
  if_pos rfl

theorem isZero_finite_succ {negative : Bool} {n : Nat} {h : n + 1 < finiteCount} :
    isZero (finite negative (n + 1) h) = false := rfl

theorem key_finite_succ {negative : Bool} {n : Nat} {h : n + 1 < finiteCount} :
    key (finite negative (n + 1) h) =
      Text.sign negative ++ decimalText numberLayout (shortest (n + 1)) := by
  have hne : finite negative (n + 1) h ≠ negativeZero := by
    intro hx
    exact Nat.succ_ne_zero n (Double.finite.inj hx).2
  rw [key, if_neg hne]
  rfl

/-- The keys of the zeros are told by their characters. -/
theorem isZero_eq (x : Double) : x.isZero = x.key.toList.all zeroMark := by
  match x with
  | nan => rfl
  | infinity true => rfl
  | infinity false => rfl
  | finite true 0 h =>
    rw [show finite true 0 h = negativeZero from rfl, key_negativeZero]
    rfl
  | finite false 0 h =>
    rw [show finite false 0 h = zero from rfl, key_zero]
    rfl
  | finite negative (n + 1) h =>
    -- one of the digits of the shortest decimal is not a zero
    rw [isZero_finite_succ, key_finite_succ]
    obtain ⟨c, hc, hne⟩ :=
      exists_mem_toDigits_ne_zero (shortest_digits_ne_zero (Nat.succ_ne_zero n))
    have hdigit : c.isDigit = true :=
      Nat.isDigit_of_mem_toDigits (b := 10) (by omega) (by omega) hc
    have hmark : zeroMark c = false := by
      have hminus : c ≠ '-' := by
        rintro rfl
        exact Bool.noConfusion hdigit
      simp [zeroMark, hminus, hne]
    symm
    refine List.all_eq_false.2 ⟨c, ?_, by rw [hmark]; exact Bool.false_ne_true⟩
    simp [mem_decimalText_of_mem_digits hc]

theorem isZero_eq_of_key_eq {x y : Double} (h : x.key = y.key) : x.isZero = y.isZero := by
  rw [isZero_eq, isZero_eq, h]

/-! ## Integers -/

theorem roundEven_mul {q den : Nat} (hden : 0 < den) : roundEven (q * den) den = q := by
  unfold roundEven
  rw [Nat.mul_div_cancel q hden, Nat.mul_mod_left]
  exact if_pos hden

/-- An index counts the binades below a number and the steps of its own binade. -/
theorem stepsOfIndex_binade {shift q : Nat} (hlow : Nat.pow 2 52 ≤ q)
    (hhigh : q < Nat.pow 2 53) :
    stepsOfIndex (shift * Nat.pow 2 52 + q) = q * Nat.pow 2 shift := by
  have hdouble : Nat.pow 2 53 = 2 * Nat.pow 2 52 := rfl
  rw [hdouble] at hhigh
  unfold stepsOfIndex
  generalize Nat.pow 2 52 = binade at hlow hhigh
  have hpos : 0 < binade := by omega
  obtain ⟨rest, rfl⟩ := Nat.exists_eq_add_of_le hlow
  have hrest : rest < binade := by omega
  have hsum : shift * binade + (binade + rest) = rest + (shift + 1) * binade := by
    rw [Nat.add_mul]
    omega
  have hdiv : (rest + (shift + 1) * binade) / binade = shift + 1 := by
    rw [Nat.add_mul_div_right _ _ hpos, Nat.div_eq_of_lt hrest, Nat.zero_add]
  have hmod : (rest + (shift + 1) * binade) % binade = rest := by
    rw [Nat.add_mul_mod_self_right, Nat.mod_eq_of_lt hrest]
  rw [hsum, hdiv, hmod, if_neg (Nat.succ_ne_zero shift), Nat.add_sub_cancel]

theorem log2_mul_pow {k : Nat} (hk : k ≠ 0) (unit : Nat) :
    (k * Nat.pow 2 unit).log2 = k.log2 + unit := by
  have hpos : 0 < Nat.pow 2 unit := Nat.two_pow_pos unit
  refine (Nat.log2_eq_iff (Nat.mul_ne_zero hk (Nat.ne_of_gt hpos))).2 ⟨?_, ?_⟩
  · exact Nat.pow_add 2 _ _ ▸ Nat.mul_le_mul_right _ (Nat.log2_self_le hk)
  · rw [Nat.add_right_comm, Nat.pow_add]
    exact Nat.mul_lt_mul_of_pos_right Nat.lt_log2_self hpos

/-- A number of at most 53 bits, in units of some steps, is the significand of a double: shifted to
the top of the significand it is rounded to itself. -/
theorem nearestIndex_mul_pow {k : Nat} (hk : k ≠ 0) (hlt : k < Nat.pow 2 53) (unit : Nat)
    (hunit : 52 ≤ unit) :
    ∃ shift q, nearestIndex (k * Nat.pow 2 unit) 1 = shift * Nat.pow 2 52 + q ∧ shift ≤ unit ∧
      Nat.pow 2 52 ≤ q ∧ q < Nat.pow 2 53 ∧ q * Nat.pow 2 shift = k * Nat.pow 2 unit := by
  have hadd (m n : Nat) : Nat.pow 2 (m + n) = Nat.pow 2 m * Nat.pow 2 n := Nat.pow_add 2 m n
  have hpos (n : Nat) : 0 < Nat.pow 2 n := Nat.two_pow_pos n
  have hbits : k.log2 ≤ 52 := Nat.lt_succ_iff.1 ((Nat.log2_lt hk).2 hlt)
  have hlow : Nat.pow 2 k.log2 ≤ k := Nat.log2_self_le hk
  have hhigh : k < Nat.pow 2 (k.log2 + 1) := Nat.lt_log2_self
  have hlog := log2_mul_pow hk unit
  obtain ⟨pad, hpad⟩ := Nat.exists_eq_add_of_le hbits
  obtain ⟨shift, hshift⟩ : ∃ shift, k.log2 + unit = shift + 52 :=
    ⟨k.log2 + unit - 52, by omega⟩
  have hfactor : k * Nat.pow 2 unit = k * Nat.pow 2 pad * Nat.pow 2 shift := by
    rw [show unit = pad + shift by omega, hadd, Nat.mul_assoc]
  refine ⟨shift, k * Nat.pow 2 pad, ?_, by omega, ?_, ?_, hfactor.symm⟩
  · unfold nearestIndex
    rw [Nat.div_one, hlog, hshift, Nat.add_sub_cancel, hfactor]
    show shift * Nat.pow 2 52 + roundEven _ (1 * Nat.pow 2 shift) = _
    rw [Nat.one_mul, roundEven_mul (hpos shift)]
  · calc Nat.pow 2 52 = Nat.pow 2 k.log2 * Nat.pow 2 pad := by rw [← hadd, ← hpad]
      _ ≤ k * Nat.pow 2 pad := Nat.mul_le_mul_right _ hlow
  · calc k * Nat.pow 2 pad < Nat.pow 2 (k.log2 + 1) * Nat.pow 2 pad :=
          Nat.mul_lt_mul_of_pos_right hhigh (hpos pad)
      _ = Nat.pow 2 53 := by rw [← hadd, Nat.add_right_comm, ← hpad]

theorem ofSteps_of_nearestIndex (negative : Bool) {num den index : Nat}
    (hindex : nearestIndex num den = index) (h : index < finiteCount) :
    ofSteps negative num den = finite negative index h := by
  subst hindex
  exact dif_pos h

/-- A number of at most 53 bits, in some unit, is the number of steps of a double. -/
theorem ofSteps_mul_pow (negative : Bool) {k unit bits : Nat} (hk : k < Nat.pow 2 53)
    (hunit : 52 ≤ unit) (hbits : bits ≤ 2047) (hlt : k * Nat.pow 2 unit < Nat.pow 2 bits) :
    ∃ index, ∃ h : index < finiteCount,
      ofSteps negative (k * Nat.pow 2 unit) 1 = finite negative index h ∧
        stepsOfIndex index = k * Nat.pow 2 unit := by
  by_cases hzero : k = 0
  · refine ⟨0, zero_lt_finiteCount, ofSteps_of_nearestIndex negative ?_ _, ?_⟩
    · rw [hzero, Nat.zero_mul, nearestIndex_zero]
    · rw [hzero, Nat.zero_mul]
      rfl
  · obtain ⟨shift, q, hindex, _, hlow, hhigh, hq⟩ := nearestIndex_mul_pow hzero hk unit hunit
    have hshift : shift + 52 < bits := by
      have hpow : 2 ^ (52 + shift) < 2 ^ bits := calc
        2 ^ (52 + shift) = Nat.pow 2 52 * Nat.pow 2 shift := Nat.pow_add 2 _ _
        _ ≤ q * Nat.pow 2 shift := Nat.mul_le_mul_right _ hlow
        _ < 2 ^ bits := hq ▸ hlt
      have := (Nat.pow_lt_pow_iff_right Nat.one_lt_two).1 hpow
      omega
    have hcount : shift * Nat.pow 2 52 + q < finiteCount := by
      have hdouble : Nat.pow 2 53 = 2 * Nat.pow 2 52 := rfl
      have hbinades : shift * Nat.pow 2 52 ≤ 1994 * Nat.pow 2 52 :=
        Nat.mul_le_mul_right _ (by omega)
      rw [finiteCount_eq]
      omega
    exact ⟨_, hcount, ofSteps_of_nearestIndex negative hindex hcount,
      (stepsOfIndex_binade hlow hhigh).trans hq⟩

theorem signed_natAbs (n : Int) : signed (decide (n < 0)) n.natAbs = n := by
  unfold signed
  by_cases hn : n < 0
  · rw [if_pos (decide_eq_true hn)]
    omega
  · rw [if_neg (by simpa using hn)]
    omega

/-- A finite double whose magnitude is a whole number of units is an integer. -/
theorem toInt?_finite {negative : Bool} {index n e : Nat} {h : index < finiteCount} (he : e = 1074)
    (hsteps : stepsOfIndex index = n * Nat.pow 2 e) :
    (finite negative index h).toInt? = some (signed negative n) := by
  have hpos : 0 < Nat.pow 2 e := Nat.two_pow_pos e
  rw [toInt?, ← he, hsteps, if_pos (Nat.mul_mod_left n _), Nat.mul_div_cancel n hpos]

/-- Integers of at most 53 bits are doubles. -/
theorem toInt?_ofInt {n : Int} (hn : n.natAbs < Nat.pow 2 53) : (ofInt n).toInt? = some n := by
  -- The exponent of the unit is a variable, so that no power of it is ever computed.
  obtain ⟨e, he⟩ : ∃ e, e = 1074 := ⟨_, rfl⟩
  have hlt : n.natAbs * Nat.pow 2 e < Nat.pow 2 (53 + e) := by
    rw [show Nat.pow 2 (53 + e) = Nat.pow 2 53 * Nat.pow 2 e from Nat.pow_add 2 53 e]
    exact Nat.mul_lt_mul_of_pos_right hn (Nat.two_pow_pos e)
  obtain ⟨index, h, hmake, hsteps⟩ :=
    ofSteps_mul_pow (decide (n < 0)) hn (by omega) (by omega) hlt
  unfold ofInt
  rw [← he, hmake, toInt?_finite he hsteps, signed_natAbs]

end ValueLattice.Double
