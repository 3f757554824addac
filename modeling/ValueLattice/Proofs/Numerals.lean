import ValueLattice.Host.Reader
import ValueLattice.Proofs.Doubles

/-!
# Numbers read back from their texts

The text of a finite number is a numeral, and a reader of numerals gets the number back from it: the
digits lead back to the magnitude, however they are laid out.

* `Json.readNumber_decimalText`: reading the text of a decimal rounds the decimal, in every layout;
* `readsBack_shortest`: rounding the fewest digits of a magnitude leads back to it;
* `readNumber_text`: so a finite number is read from its text, apart from the sign of a zero;
* `text_eq_iff`: numbers with one text are equal, or both are zeros; `key_inj`: keys tell the zeros
  apart as well;
* `toInt?_eq_iff`: and so are numbers that stand for one integer.
-/

namespace ValueLattice

namespace Json

/-! ## Digits -/

theorem digitsValue_eq (digits : List Char) :
    digitsValue digits = Nat.ofDigitChars 10 digits 0 := by
  simp only [digitsValue, Nat.ofDigitChars_eq_foldl, Nat.mul_comm 10]
  rfl

theorem digitsValue_toDigits (n : Nat) : digitsValue (Nat.toDigits 10 n) = n := by
  rw [digitsValue_eq, Nat.ofDigitChars_ten_toDigits]

/-- Zeros behind a numeral scale it. -/
theorem digitsValue_append_zeros (digits : List Char) (n : Nat) :
    digitsValue (digits ++ List.replicate n '0') = digitsValue digits * Nat.pow 10 n := by
  rw [digitsValue_eq, digitsValue_eq, Nat.ofDigitChars_append, Nat.ofDigitChars_replicate_zero]
  exact Nat.mul_comm _ _

/-- Zeros in front of a numeral do not count. -/
theorem digitsValue_zeros_append (n : Nat) (digits : List Char) :
    digitsValue (List.replicate n '0' ++ digits) = digitsValue digits := by
  rw [digitsValue_eq, digitsValue_eq, Nat.ofDigitChars_append, Nat.ofDigitChars_replicate_zero,
    Nat.mul_zero]

/-! ## Reading the parts of a numeral -/

/-- Characters that go on with no digit. -/
def NoDigitNext (rest : List Char) : Prop :=
  ∀ c ∈ rest.head?, c.isDigit = false

theorem noDigitNext_nil : NoDigitNext [] := fun _ h => nomatch h

theorem noDigitNext_cons {c : Char} {rest : List Char} (h : c.isDigit = false) :
    NoDigitNext (c :: rest) := fun _ hc => Option.some.inj hc ▸ h

theorem readDigits_append {digits rest : List Char} (hne : digits ≠ [])
    (hdigits : ∀ c ∈ digits, c.isDigit = true) (hrest : NoDigitNext rest) :
    readDigits (digits ++ rest) = some (digits, rest) := by
  have hends : rest.takeWhile Char.isDigit = [] ∧ rest.dropWhile Char.isDigit = rest := by
    cases rest with
    | nil => exact ⟨rfl, rfl⟩
    | cons c rest =>
      have hc : ¬ c.isDigit = true := Bool.eq_false_iff.1 (hrest c rfl)
      exact ⟨List.takeWhile_cons_of_neg hc, List.dropWhile_cons_of_neg hc⟩
  unfold readDigits
  rw [List.takeWhile_append_of_pos hdigits, List.dropWhile_append_of_pos hdigits, hends.1, hends.2,
    List.append_nil]
  split
  · contradiction
  · rfl

theorem readFraction_of_ne_point {rest : List Char} (h : rest.head? ≠ some '.') :
    readFraction rest = some ([], rest) := by
  unfold readFraction
  split
  · exact absurd rfl h
  · rfl

theorem readFraction_digits {digits : List Char} (hne : digits ≠ [])
    (hdigits : ∀ c ∈ digits, c.isDigit = true) :
    readFraction ('.' :: digits) = some (digits, []) := by
  have hread := readDigits_append hne hdigits noDigitNext_nil
  rw [List.append_nil] at hread
  exact hread

theorem readExponent_nil : readExponent [] = some (0, []) := rfl

/-- An exponent is read with its sign. -/
theorem readExponent_signed (n : Int) :
    readExponent ('e' :: ((if n < 0 then "-" else "+").toList ++ (Text.natural n.natAbs).toList)) =
      some (n, []) := by
  have hread : readDigits (Text.natural n.natAbs).toList =
      some ((Text.natural n.natAbs).toList, []) := by
    have hne : (Text.natural n.natAbs).toList ≠ [] := fun h =>
      Text.natural_ne_empty _ (String.toList_eq_nil_iff.1 h)
    simpa using readDigits_append hne (fun _ => Text.isDigit_of_mem_natural) noDigitNext_nil
  have hvalue : digitsValue (Text.natural n.natAbs).toList = n.natAbs := by
    rw [Text.natural, String.toList_ofList, digitsValue_toDigits]
  by_cases hn : n < 0
  · rw [if_pos hn]
    show readSigned ('-' :: (Text.natural n.natAbs).toList) = _
    simp only [readSigned, hread, Option.map_some, hvalue]
    rw [show -(n.natAbs : Int) = n by omega]
  · rw [if_neg hn]
    show readSigned ('+' :: (Text.natural n.natAbs).toList) = _
    simp only [readSigned, hread, Option.map_some, hvalue]
    rw [show (n.natAbs : Int) = n by omega]

/-- A sign is told from the digits behind it. -/
theorem readMinus_sign {negative : Bool} {rest : List Char} {read : List Char × List Char}
    (h : readWhole rest = some read) :
    readMinus ((Text.sign negative).toList ++ rest) = (negative, rest) := by
  cases negative with
  | true => rfl
  | false =>
    show readMinus rest = (false, rest)
    unfold readMinus
    split
    · exact nomatch h
    · rfl

/-- A numeral is read part by part. -/
theorem readNumber_sign_append (negative : Bool)
    {rest whole rest₁ fraction rest₂ rest₃ : List Char} {exponent : Int}
    (hwhole : readWhole rest = some (whole, rest₁))
    (hfraction : readFraction rest₁ = some (fraction, rest₂))
    (hexponent : readExponent rest₂ = some (exponent, rest₃)) :
    readNumber ((Text.sign negative).toList ++ rest) =
      some (Double.ofNumeral negative (digitsValue (whole ++ fraction))
        (exponent - fraction.length), rest₃) := by
  simp [readNumber, readMinus_sign hwhole, hwhole, hfraction, hexponent]

/-! ## Reading decimals -/

open Double (Decimal Layout decimalText pointAfterFirst zerosText ofDecimal ofNumeral)

/-- Digits of a positive number, without zeros in front of them. -/
structure IsNumeral (digits : List Char) : Prop where
  /-- There is a digit. -/
  ne_nil : digits ≠ []
  /-- All characters are digits. -/
  isDigit : ∀ c ∈ digits, c.isDigit = true
  /-- The first digit is not a zero. -/
  head_ne : digits.head? ≠ some '0'

theorem isNumeral_toDigits {n : Nat} (hn : n ≠ 0) : IsNumeral (Nat.toDigits 10 n) :=
  ⟨Nat.toDigits_ne_nil, fun _ hc => Nat.isDigit_of_mem_toDigits (by omega) (by omega) hc,
    Text.head?_toDigits_ne_zero hn⟩

theorem isNumeral_append_zeros {digits : List Char} (h : IsNumeral digits) (n : Nat) :
    IsNumeral (digits ++ List.replicate n '0') := by
  obtain ⟨c, l, rfl⟩ := List.exists_cons_of_ne_nil h.ne_nil
  refine ⟨List.cons_ne_nil _ _, fun d hd => ?_, h.head_ne⟩
  rcases List.mem_append.1 hd with hd | hd
  · exact h.isDigit d hd
  · rw [List.eq_of_mem_replicate hd]
    rfl

theorem isNumeral_take {digits : List Char} (h : IsNumeral digits) (n : Nat) :
    IsNumeral (digits.take (n + 1)) := by
  obtain ⟨c, l, rfl⟩ := List.exists_cons_of_ne_nil h.ne_nil
  exact ⟨List.cons_ne_nil _ _, fun d hd => h.isDigit d (List.mem_of_mem_take hd), h.head_ne⟩

theorem readWhole_numeral {digits rest : List Char} (h : IsNumeral digits)
    (hrest : NoDigitNext rest) : readWhole (digits ++ rest) = some (digits, rest) := by
  obtain ⟨c, tail, rfl⟩ := List.exists_cons_of_ne_nil h.ne_nil
  have hc : c ≠ '0' := fun hc => h.head_ne (congrArg some hc)
  unfold readWhole
  split
  · next heq => exact absurd (List.cons.inj heq).1 hc
  · exact readDigits_append h.ne_nil h.isDigit hrest

section

variable (negative : Bool) {digits : List Char} (h : IsNumeral digits)

include h

/-- A point behind the first digit is made up for by the exponent. -/
theorem readNumber_scientific (lead : Int) :
    readNumber (Text.sign negative ++ (pointAfterFirst digits ++ "e" ++
        (if lead < 0 then "-" else "+") ++ Text.natural lead.natAbs)).toList =
      some (ofNumeral negative (digitsValue digits) (lead + 1 - digits.length), []) := by
  have hexponent := readExponent_signed lead
  simp only [String.toList_append, List.append_assoc]
  generalize (if lead < 0 then "-" else "+").toList ++ (Text.natural lead.natAbs).toList = signed
    at *
  show readNumber ((Text.sign negative).toList ++
    ((pointAfterFirst digits).toList ++ 'e' :: signed)) = _
  have hletter : NoDigitNext ('e' :: signed) := noDigitNext_cons rfl
  match digits, h with
  | [c], h =>
    have hfraction : readFraction ('e' :: signed) = some ([], 'e' :: signed) :=
      readFraction_of_ne_point (by simp)
    rw [pointAfterFirst, String.toList_ofList,
      readNumber_sign_append negative (readWhole_numeral h hletter) hfraction hexponent]
    simp
  | c :: d :: l, h =>
    have hwhole : readWhole ([c] ++ '.' :: (d :: l ++ 'e' :: signed)) =
        some ([c], '.' :: (d :: l ++ 'e' :: signed)) :=
      readWhole_numeral (isNumeral_take h 0) (noDigitNext_cons rfl)
    have hfraction : readFraction ('.' :: (d :: l ++ 'e' :: signed)) =
        some (d :: l, 'e' :: signed) :=
      readDigits_append (List.cons_ne_nil _ _)
        (fun b hb => h.isDigit b (List.mem_cons_of_mem c hb)) hletter
    have hread := readNumber_sign_append negative hwhole hfraction hexponent
    have hexponent : lead - (d :: l).length = lead + 1 - (c :: d :: l).length := by
      simp only [List.length_cons]
      omega
    have htext : (pointAfterFirst (c :: d :: l)).toList = [c] ++ '.' :: (d :: l) :=
      String.toList_ofList
    rw [htext, ← hexponent]
    exact hread

/-- Zeros behind the digits stand for an exponent. -/
theorem readNumber_integral (n : Nat) :
    readNumber (Text.sign negative ++ (String.ofList digits ++ zerosText n)).toList =
      some (ofNumeral negative (digitsValue digits * Nat.pow 10 n) 0, []) := by
  have hwhole := readWhole_numeral (isNumeral_append_zeros h n) noDigitNext_nil
  have hfraction : readFraction [] = some ([], []) := rfl
  have hread := readNumber_sign_append negative hwhole hfraction readExponent_nil
  simp only [List.append_nil, digitsValue_append_zeros] at hread
  simpa [zerosText] using hread

/-- A point among the digits stands for an exponent. -/
theorem readNumber_pointed {n : Nat} (hn : n + 1 < digits.length) :
    readNumber (Text.sign negative ++ (String.ofList (digits.take (n + 1)) ++ "." ++
        String.ofList (digits.drop (n + 1)))).toList =
      some (ofNumeral negative (digitsValue digits) (n + 1 - digits.length), []) := by
  have hpoint : NoDigitNext ('.' :: digits.drop (n + 1)) := noDigitNext_cons rfl
  have hwhole := readWhole_numeral (isNumeral_take h n) hpoint
  have hfraction : readFraction ('.' :: digits.drop (n + 1)) = some (digits.drop (n + 1), []) := by
    have hne : digits.drop (n + 1) ≠ [] := fun hnil =>
      absurd (List.drop_eq_nil_iff.1 hnil) (Nat.not_le.2 hn)
    exact readFraction_digits hne fun b hb => h.isDigit b (List.mem_of_mem_drop hb)
  have hread := readNumber_sign_append negative hwhole hfraction readExponent_nil
  rw [List.take_append_drop, List.length_drop] at hread
  have hexponent : (0 : Int) - (digits.length - (n + 1) : Nat) = n + 1 - digits.length := by omega
  rw [hexponent] at hread
  simpa using hread

/-- Zeros between the point and the digits count for the exponent only. -/
theorem readNumber_fractional (n : Nat) :
    readNumber (Text.sign negative ++ ("0." ++ zerosText n ++ String.ofList digits)).toList =
      some (ofNumeral negative (digitsValue digits) (-(n + digits.length : Nat)), []) := by
  have hwhole : readWhole ('0' :: '.' :: (List.replicate n '0' ++ digits)) =
      some (['0'], '.' :: (List.replicate n '0' ++ digits)) := rfl
  have hfraction : readFraction ('.' :: (List.replicate n '0' ++ digits)) =
      some (List.replicate n '0' ++ digits, []) := by
    have hne : List.replicate n '0' ++ digits ≠ [] := by simp [h.ne_nil]
    have hall : ∀ c ∈ List.replicate n '0' ++ digits, c.isDigit = true := by
      intro c hc
      rcases List.mem_append.1 hc with hc | hc
      · rw [List.eq_of_mem_replicate hc]
        rfl
      · exact h.isDigit c hc
    exact readFraction_digits hne hall
  have hread := readNumber_sign_append negative hwhole hfraction readExponent_nil
  have hvalue : digitsValue (['0'] ++ (List.replicate n '0' ++ digits)) = digitsValue digits :=
    digitsValue_zeros_append (n + 1) digits
  rw [hvalue, List.length_append, List.length_replicate, Int.zero_sub] at hread
  simpa [zerosText] using hread

end

/-! ## Rounding what was read -/

/-- Exponents near those of doubles are taken as they are. -/
theorem ofNumeral_eq_ofDecimal (negative : Bool) {digits : Nat} {exponent : Int}
    (hdigits : digits ≠ 0) (hlow : -(400 + digits.log2 : Int) ≤ exponent)
    (hhigh : exponent ≤ 400) :
    ofNumeral negative digits exponent = ofDecimal negative digits exponent := by
  rw [ofNumeral, if_neg (by omega), if_neg (by omega)]

/-- Digits may be scaled by writing zeros behind them. -/
theorem ofDecimal_mul_pow (negative : Bool) (digits k : Nat) :
    ofDecimal negative (digits * Nat.pow 10 k) 0 = ofDecimal negative digits k := by
  have hsteps : Double.decimalSteps (digits * Nat.pow 10 k) 0 = Double.decimalSteps digits k := by
    simp only [Double.decimalSteps]
    generalize Nat.pow 2 1074 = unit
    simp only [Int.toNat_natCast, Int.toNat_neg_natCast, Int.toNat_zero, Int.neg_zero]
    exact congrArg (·, 1) ((Nat.mul_one _).trans (Nat.mul_right_comm _ _ _))
  rw [ofDecimal, ofDecimal, hsteps]

/-- Reading the text of a decimal rounds it, in every layout. -/
theorem readNumber_decimalText (negative : Bool) (layout : Layout) {d : Decimal}
    (hdigits : d.digits ≠ 0) (hlow : -(400 + d.digits.log2 : Int) ≤ d.exponent)
    (hhigh : d.exponent ≤ 400) :
    readNumber (Text.sign negative ++ decimalText layout d).toList =
      some (ofDecimal negative d.digits d.exponent, []) := by
  have hnumeral := isNumeral_toDigits hdigits
  have hrounds := ofNumeral_eq_ofDecimal negative hdigits hlow hhigh
  have hlength : 0 < (Nat.toDigits 10 d.digits).length := Nat.length_toDigits_pos
  simp only [decimalText]
  generalize hlead : ((Nat.toDigits 10 d.digits).length + d.exponent - 1 : Int) = lead
  split
  · rw [readNumber_scientific negative hnumeral, digitsValue_toDigits, ← hrounds, ← hlead]
    congr 3
    omega
  · split
    · next hexponent =>
      have hscaled : d.digits * Nat.pow 10 d.exponent.toNat ≠ 0 :=
        Nat.mul_ne_zero hdigits (Nat.ne_of_gt (Nat.pow_pos (by omega)))
      rw [readNumber_integral negative hnumeral, digitsValue_toDigits,
        ofNumeral_eq_ofDecimal negative hscaled (by omega) (by omega), ofDecimal_mul_pow,
        Int.toNat_of_nonneg hexponent]
    · next hexponent =>
      split
      · next hlead' =>
        rw [readNumber_pointed negative hnumeral (by omega), digitsValue_toDigits, ← hrounds]
        congr 3
        omega
      · rw [readNumber_fractional negative hnumeral, digitsValue_toDigits, ← hrounds]
        congr 3
        omega

end Json

namespace Double

/-! ## The fewest digits -/

/-- A quotient may be reduced. -/
theorem nearestIndex_mul_left {k : Nat} (hk : 0 < k) (num den : Nat) :
    nearestIndex (k * num) (k * den) = nearestIndex num den := by
  have hround (den : Nat) : roundEven (k * num) (k * den) = roundEven num den := by
    simp only [roundEven, Nat.mul_div_mul_left _ _ hk, Nat.mul_mod_mul_left, Nat.mul_left_comm 2 k,
      Nat.mul_lt_mul_left hk]
  simp only [nearestIndex, Nat.mul_div_mul_left _ _ hk, Nat.mul_assoc, hround]

/-- The binary logarithm of a magnitude tells its binade. -/
theorem log2_stepsOfIndex {index : Nat} (h : index / Nat.pow 2 52 ≠ 0) :
    (stepsOfIndex index).log2 = 52 + (index / Nat.pow 2 52 - 1) := by
  have hpos : 0 < Nat.pow 2 52 := Nat.two_pow_pos 52
  have hmod := Nat.mod_lt index hpos
  have hlog : (Nat.pow 2 52 + index % Nat.pow 2 52).log2 = 52 := by
    refine (Nat.log2_eq_iff (by omega)).2 ⟨Nat.le_add_right _ _, ?_⟩
    rw [Nat.pow_succ, Nat.mul_two]
    exact Nat.add_lt_add_left hmod _
  rw [stepsOfIndex, if_neg h, log2_mul_pow (by omega), hlog]

/-- A magnitude is rounded to itself. -/
theorem nearestIndex_stepsOfIndex (index : Nat) : nearestIndex (stepsOfIndex index) 1 = index := by
  have hpos (n : Nat) : 0 < Nat.pow 2 n := Nat.two_pow_pos n
  have hexact (shift q : Nat) : roundEven (q * Nat.pow 2 shift) (1 * Nat.pow 2 shift) = q := by
    rw [Nat.one_mul, roundEven_mul (hpos shift)]
  unfold nearestIndex
  rw [Nat.div_one]
  by_cases h : index / Nat.pow 2 52 = 0
  · have hlt : index < Nat.pow 2 52 := (Nat.div_eq_zero_iff_lt (hpos 52)).1 h
    have hshift : index.log2 - 52 = 0 := by
      by_cases hzero : index = 0
      · rw [hzero, Nat.log2_zero]
      · have := (Nat.log2_lt hzero).2 hlt
        omega
    rw [stepsOfIndex, if_pos h, hshift]
    simpa using hexact 0 index
  · rw [log2_stepsOfIndex h, Nat.add_sub_cancel_left, stepsOfIndex, if_neg h]
    simp only [hexact]
    have hdiv := Nat.div_add_mod' index (Nat.pow 2 52)
    obtain ⟨b, hb⟩ := Nat.exists_eq_succ_of_ne_zero h
    rw [hb, Nat.succ_mul, Nat.add_assoc] at hdiv
    rw [hb, Nat.succ_sub_one]
    exact hdiv

theorem stepsOfIndex_inj {i j : Nat} (h : stepsOfIndex i = stepsOfIndex j) : i = j := by
  rw [← nearestIndex_stepsOfIndex i, h, nearestIndex_stepsOfIndex]

/-- The exact decimal of a magnitude reads back. -/
theorem readsBack_exactDecimal (index : Nat) : readsBack index (exactDecimal index) = true := by
  -- The exponent is a variable, so that no power of it is ever computed.
  obtain ⟨e, he⟩ : ∃ e, e = 1074 := ⟨_, rfl⟩
  have hnegated : (- -1074 : Int).toNat = e := by rw [he]; rfl
  have hpow : Nat.pow 5 e * Nat.pow 2 e = Nat.pow 10 e := (Nat.mul_pow 5 2 e).symm
  have hreduced := nearestIndex_mul_left (Nat.pow_pos (by omega) : 0 < Nat.pow 10 e)
    (stepsOfIndex index) 1
  have hscaled : stepsOfIndex index * Nat.pow 5 e * Nat.pow 2 e * Nat.pow 10 0 =
      Nat.pow 10 e * stepsOfIndex index := by
    rw [Nat.mul_assoc (stepsOfIndex index), hpow]
    exact (Nat.mul_one _).trans (Nat.mul_comm _ _)
  rw [nearestIndex_stepsOfIndex, Nat.mul_one] at hreduced
  simp only [readsBack, exactDecimal, decimalSteps, hnegated, ← he, beq_iff_eq]
  exact hscaled ▸ hreduced

/-- The fewest digits of a magnitude read back. -/
theorem readsBack_shortest (index : Nat) : readsBack index (shortest index) = true := by
  unfold shortest
  cases hfirst : firstNeighbour? index 20 (coarsestExponent (stepsOfIndex index)) with
  | none => exact readsBack_exactDecimal index
  | some d => exact firstNeighbour?_readsBack hfirst

theorem neighbour?_exponent {index : Nat} {exponent : Int} {d : Decimal}
    (h : neighbour? index exponent = some d) : d.exponent = exponent := by
  simp only [neighbour?] at h
  split at h
  · exact Option.some.inj h ▸ rfl
  · split at h
    · exact Option.some.inj h ▸ rfl
    · split at h
      · exact Option.some.inj h ▸ rfl
      · exact absurd h (by simp)

/-- The digits are found on one of the grids that are tried. -/
theorem firstNeighbour?_exponent {index tries : Nat} {exponent : Int} {d : Decimal}
    (h : firstNeighbour? index tries exponent = some d) :
    exponent - tries < d.exponent ∧ d.exponent ≤ exponent := by
  induction tries generalizing exponent with
  | zero => exact nomatch h
  | succ tries ih =>
    rw [firstNeighbour?, Option.or_eq_some_iff] at h
    rcases h with h | ⟨_, h⟩
    · rw [neighbour?_exponent h]
      omega
    · have := ih h
      omega

/-- A finite magnitude has at most 2098 bits, counted in steps. -/
theorem log2_stepsOfIndex_lt {index : Nat} (h : index < finiteCount) :
    (stepsOfIndex index).log2 < 2098 := by
  have hbinades : index / Nat.pow 2 52 < 2047 := by
    rw [finiteCount_eq] at h
    exact Nat.div_lt_of_lt_mul (Nat.mul_comm _ _ ▸ h)
  by_cases hzero : index / Nat.pow 2 52 = 0
  · have hlt : index < Nat.pow 2 52 := (Nat.div_eq_zero_iff_lt (Nat.two_pow_pos 52)).1 hzero
    rw [stepsOfIndex, if_pos hzero]
    by_cases hindex : index = 0
    · rw [hindex, Nat.log2_zero]
      omega
    · have := (Nat.log2_lt hindex).2 hlt
      omega
  · rw [log2_stepsOfIndex hzero]
    omega

/-- The exponent of the fewest digits is one that a reader takes as it is. -/
theorem shortest_exponent {index : Nat} (hindex : index ≠ 0) (h : index < finiteCount) :
    -(400 + (shortest index).digits.log2 : Int) ≤ (shortest index).exponent ∧
      (shortest index).exponent ≤ 400 := by
  have hbits := log2_stepsOfIndex_lt h
  unfold shortest
  cases hfirst : firstNeighbour? index 20 (coarsestExponent (stepsOfIndex index)) with
  | none =>
    have hexact (n : Nat) : 2 * n ≤ (stepsOfIndex index * Nat.pow 5 n).log2 := by
      have hpos := Nat.pos_of_ne_zero (stepsOfIndex_ne_zero hindex)
      refine (Nat.le_log2 (Nat.mul_ne_zero (Nat.ne_of_gt hpos)
        (Nat.ne_of_gt (Nat.pow_pos (by omega))))).2 ?_
      calc 2 ^ (2 * n) = 4 ^ n := Nat.pow_mul 2 2 n
        _ ≤ 5 ^ n := Nat.pow_le_pow_left (by omega) n
        _ ≤ stepsOfIndex index * 5 ^ n := Nat.le_mul_of_pos_left _ hpos
    obtain ⟨e, he⟩ : ∃ e, e = 1074 := ⟨_, rfl⟩
    have hdigits : 2 * e ≤ (exactDecimal index).digits.log2 := by
      rw [exactDecimal, ← he]
      exact hexact e
    have hexponent : (exactDecimal index).exponent = -1074 := rfl
    rw [Option.getD_none, hexponent]
    omega
  | some d =>
    have hgrid := firstNeighbour?_exponent hfirst
    rw [coarsestExponent] at hgrid
    simp only [Option.getD_some]
    omega

/-! ## Texts -/

/-- The fewest digits of a finite number are rounded to it. -/
theorem ofDecimal_shortest (negative : Bool) {index : Nat} (h : index < finiteCount) :
    ofDecimal negative (shortest index).digits (shortest index).exponent =
      finite negative index h := by
  have hback := eq_of_beq (readsBack_shortest index)
  exact ofSteps_of_nearestIndex negative hback h

theorem text_finite (negative : Bool) {index : Nat} (hindex : index ≠ 0)
    (h : index < finiteCount) :
    (finite negative index h).text =
      Text.sign negative ++ decimalText numberLayout (shortest index) := by
  obtain ⟨n, rfl⟩ := Nat.exists_eq_succ_of_ne_zero hindex
  rfl

/-- A finite number is read from its text, a zero as the positive one. -/
theorem readNumber_text (negative : Bool) {index : Nat} (h : index < finiteCount) :
    Json.readNumber (finite negative index h).text.toList =
      some (if index = 0 then zero else finite negative index h, []) := by
  split
  · next hindex =>
    subst hindex
    show Json.readNumber "0".toList = some (zero, [])
    decide
  · next hindex =>
    obtain ⟨hlow, hhigh⟩ := shortest_exponent hindex h
    rw [text_finite negative hindex h, Json.readNumber_decimalText negative numberLayout
      (shortest_digits_ne_zero hindex) hlow hhigh, ofDecimal_shortest negative h]

/-- Only finite numbers are written as numerals. -/
theorem readNumber_text_eq_none_iff {x : Double} :
    Json.readNumber x.text.toList = none ↔ x = nan ∨ ∃ negative, x = infinity negative := by
  cases x with
  | nan => exact iff_of_true (by decide) (.inl rfl)
  | infinity negative =>
    have hread : ∀ negative, Json.readNumber (infinity negative).text.toList = none := by decide
    exact iff_of_true (hread negative) (.inr ⟨negative, rfl⟩)
  | finite negative index h =>
    rw [readNumber_text]
    exact iff_of_false (Option.some_ne_none _) (by simp)

theorem exists_finite_of_readNumber {x : Double} (h : Json.readNumber x.text.toList ≠ none) :
    ∃ negative index, ∃ hindex : index < finiteCount, x = finite negative index hindex := by
  cases x with
  | nan => exact absurd (readNumber_text_eq_none_iff.2 (.inl rfl)) h
  | infinity negative => exact absurd (readNumber_text_eq_none_iff.2 (.inr ⟨negative, rfl⟩)) h
  | finite negative index hindex => exact ⟨negative, index, hindex, rfl⟩

/-- NaN and the infinities are written as words of their own. -/
theorem eq_of_text_eq_of_none {x y : Double} (hx : Json.readNumber x.text.toList = none)
    (h : x.text = y.text) : x = y := by
  have hnan : ∀ negative, (infinity negative).text ≠ nan.text := by decide
  have hsign : ∀ m n, (infinity m).text = (infinity n).text → m = n := by decide
  have hy : Json.readNumber y.text.toList = none := h ▸ hx
  rcases readNumber_text_eq_none_iff.1 hx with rfl | ⟨m, rfl⟩
  · rcases readNumber_text_eq_none_iff.1 hy with rfl | ⟨n, rfl⟩
    · rfl
    · exact absurd h.symm (hnan n)
  · rcases readNumber_text_eq_none_iff.1 hy with rfl | ⟨n, rfl⟩
    · exact absurd h (hnan m)
    · rw [hsign m n h]

/-- Finite numbers with one text are read as one number. -/
theorem eq_of_text_eq_of_finite {m n : Bool} {i j : Nat} {hi : i < finiteCount}
    {hj : j < finiteCount} (h : (finite m i hi).text = (finite n j hj).text) :
    finite m i hi = finite n j hj ∨ i = 0 ∧ j = 0 := by
  have hread : (if i = 0 then zero else finite m i hi) = if j = 0 then zero else finite n j hj := by
    simpa only [readNumber_text, Option.some.injEq, Prod.mk.injEq, and_true] using
      congrArg (Json.readNumber ·.toList) h
  by_cases hx : i = 0
  · by_cases hy : j = 0
    · exact .inr ⟨hx, hy⟩
    · rw [if_pos hx, if_neg hy] at hread
      exact absurd (Double.finite.inj hread).2.symm hy
  · by_cases hy : j = 0
    · rw [if_neg hx, if_pos hy] at hread
      exact absurd (Double.finite.inj hread).2 hx
    · rw [if_neg hx, if_neg hy] at hread
      exact .inl hread

/-- Numbers with one text are equal, or both are zeros. -/
theorem text_eq_iff {x y : Double} :
    x.text = y.text ↔ x = y ∨ x.isZero = true ∧ y.isZero = true := by
  constructor
  · intro h
    by_cases hnone : Json.readNumber x.text.toList = none
    · exact .inl (eq_of_text_eq_of_none hnone h)
    · obtain ⟨m, i, hi, rfl⟩ := exists_finite_of_readNumber hnone
      obtain ⟨n, j, hj, rfl⟩ := exists_finite_of_readNumber (h ▸ hnone)
      rcases eq_of_text_eq_of_finite h with heq | ⟨rfl, rfl⟩
      · exact .inl heq
      · exact .inr ⟨rfl, rfl⟩
  · rintro (rfl | ⟨hx, hy⟩)
    · rfl
    · rcases isZero_iff.1 hx with rfl | rfl <;> rcases isZero_iff.1 hy with rfl | rfl <;> rfl

/-- No text of a number shows the sign of a zero. -/
theorem text_ne_signedZero (x : Double) : x.text ≠ "-0.0" := by
  intro h
  have hread : Json.readNumber x.text.toList = some (negativeZero, []) := by
    rw [h]
    decide
  obtain ⟨m, i, hi, rfl⟩ := exists_finite_of_readNumber (hread ▸ Option.some_ne_none _)
  simp only [readNumber_text, Option.some.injEq, Prod.mk.injEq, and_true] at hread
  split at hread
  · exact Bool.noConfusion (Double.finite.inj hread).1
  · next hne => exact hne (Double.finite.inj hread).2

/-- Numbers have keys of their own. -/
theorem key_inj {x y : Double} (h : x.key = y.key) : x = y := by
  have hzero := isZero_eq_of_key_eq h
  by_cases hx : x.isZero = true
  · have hsigns : "0" ≠ "-0" := by decide
    rcases isZero_iff.1 hx with rfl | rfl <;> rcases isZero_iff.1 (hzero ▸ hx) with rfl | rfl
    · rfl
    · exact absurd (key_zero ▸ key_negativeZero ▸ h) hsigns
    · exact absurd (key_zero ▸ key_negativeZero ▸ h.symm) hsigns
    · rfl
  · have hplain {z : Double} (hz : ¬z.isZero = true) : z.key = z.text :=
      if_neg (mt (congrArg isZero) hz)
    rw [hplain hx, hplain (hzero ▸ hx)] at h
    exact (text_eq_iff.1 h).resolve_right fun hzeros => hx hzeros.1

/-! ## Integers -/

theorem exists_steps_of_toInt? {x : Double} {n : Int} (h : x.toInt? = some n) :
    ∃ negative index k, ∃ hindex : index < finiteCount, x = finite negative index hindex ∧
      stepsOfIndex index = k * Nat.pow 2 1074 ∧ signed negative k = n := by
  cases x with
  | finite negative index hindex =>
    simp only [toInt?] at h
    split at h
    · next hmod =>
      have hsteps := Nat.div_mul_cancel (Nat.dvd_of_mod_eq_zero hmod)
      exact ⟨negative, index, _, hindex, rfl, hsteps.symm, Option.some.inj h⟩
    · cases h
  | _ => simp [toInt?] at h

theorem toInt?_of_isZero {x : Double} (h : x.isZero = true) : x.toInt? = some 0 := by
  -- The exponent is a variable, so that no power of it is ever computed.
  obtain ⟨e, he⟩ : ∃ e, e = 1074 := ⟨_, rfl⟩
  have hsteps : stepsOfIndex 0 = 0 * Nat.pow 2 e := (Nat.zero_mul _).symm
  rcases isZero_iff.1 h with rfl | rfl <;> exact toInt?_finite he hsteps

/-- Numbers that stand for one integer are equal, or both are zeros. -/
theorem toInt?_eq_iff {x y : Double} {n : Int} (hx : x.toInt? = some n) :
    x.toInt? = y.toInt? ↔ x = y ∨ x.isZero = true ∧ y.isZero = true := by
  constructor
  · intro h
    obtain ⟨b, i, k, hi, rfl, hsteps, hk⟩ := exists_steps_of_toInt? hx
    obtain ⟨c, j, l, hj, rfl, hsteps', hl⟩ := exists_steps_of_toInt? (h.symm.trans hx)
    generalize Nat.pow 2 1074 = unit at hsteps hsteps'
    have hsigned : k = l ∧ (k = 0 ∨ b = c) := by
      rw [← hl] at hk
      unfold signed at hk
      cases b <;> cases c <;> simp at hk ⊢ <;> omega
    obtain ⟨rfl, rfl | rfl⟩ := hsigned
    · have hzero {index : Nat} (hindex : stepsOfIndex index = 0 * unit) : index = 0 := by
        rw [Nat.zero_mul] at hindex
        exact Decidable.byContradiction fun hne => stepsOfIndex_ne_zero hne hindex
      obtain rfl := hzero hsteps
      obtain rfl := hzero hsteps'
      exact .inr ⟨rfl, rfl⟩
    · obtain rfl := stepsOfIndex_inj (hsteps.trans hsteps'.symm)
      exact .inl rfl
  · rintro (rfl | ⟨hx, hy⟩)
    · rfl
    · rw [toInt?_of_isZero hx, toInt?_of_isZero hy]

end Double

end ValueLattice
