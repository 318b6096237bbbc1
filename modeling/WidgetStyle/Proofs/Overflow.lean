import WidgetStyle.Proofs.ReadingBack

/-!
# Numerals that are too large

A quotient has no magnitude from halfway between the greatest magnitude and the ceiling on, since
the tie at this place goes to the even side, which is the ceiling. A numeral is rounded once, so it
is infinite from there on, and the early answers to numerals with their point far away agree.
-/

namespace WidgetStyle.Number

/-- Halfway between the greatest number of 32 bits and the power of two behind it. -/
def Single.limit : Nat :=
  (2 ^ 25 - 1) * 2 ^ 103

theorem Single.limit_mul : (limit : ℚ) * 2 ^ 149 = (2 ^ 25 - 1) * 2 ^ 252 := by
  have hlimit : (limit : ℚ) = (2 ^ 25 - 1) * 2 ^ 103 := by norm_num [limit]
  rw [hlimit, mul_assoc, ← pow_add]

theorem Format.two_pow_ceiling (front back : Nat) (hsum : front + back = single.ceiling) :
    2 ^ single.ceiling = 2 ^ front * 2 ^ back := by
  rw [← Nat.pow_add, hsum]

namespace Format.RoundsTo

variable {value : ℚ} {mantissa exponent : Nat}

/-- What is rounded to the ceiling or beyond is not below the limit. -/
theorem limit_le (hrounds : single.RoundsTo value mantissa exponent)
    (hceiling : 2 ^ single.ceiling ≤ mantissa * 2 ^ exponent) :
    (Single.limit : ℚ) * 2 ^ 149 ≤ value := by
  have hmantissa : mantissa ≤ 2 ^ 24 := hrounds.mantissa_le
  have hexponent : 253 ≤ exponent := by
    have hpow : 2 ^ single.ceiling ≤ 2 ^ (24 + exponent) := by
      calc 2 ^ single.ceiling ≤ mantissa * 2 ^ exponent := hceiling
        _ ≤ 2 ^ 24 * 2 ^ exponent := Nat.mul_le_mul_right _ hmantissa
        _ = 2 ^ (24 + exponent) := (Nat.pow_add _ _ _).symm
    have hle := (Nat.pow_le_pow_iff_right (by decide)).mp hpow
    rw [show single.ceiling = 277 from rfl] at hle
    omega
  rw [Single.limit_mul]
  rcases Nat.eq_or_lt_of_le hexponent with rfl | hlarge
  · have hfull : 2 ^ 24 ≤ mantissa := by
      rw [two_pow_ceiling 24 253 rfl] at hceiling
      exact Nat.le_of_mul_le_mul_right hceiling (Nat.two_pow_pos 253)
    have hfull' : (2 ^ 24 : ℚ) ≤ mantissa := by exact_mod_cast hfull
    have hmul := mul_le_mul_of_nonneg_right hfull' (by positivity : (0 : ℚ) ≤ 2 ^ 253)
    have hnear := (abs_le.mp hrounds.near).2
    rw [pow_succ _ 252] at hmul hnear
    linarith
  · have habove : (2 : ℚ) ^ (24 + exponent) ≤ 2 * value :=
      hrounds.above.resolve_left (by omega)
    have hpow : (2 : ℚ) ^ (26 + 252) ≤ 2 ^ (24 + exponent) :=
      pow_le_pow_right₀ one_le_two (by omega)
    have hpos : (0 : ℚ) < 2 ^ 252 := by positivity
    rw [pow_add] at hpow
    linarith

/-- What is beyond the limit is rounded to the ceiling or beyond. -/
theorem ceiling_le (hrounds : single.RoundsTo value mantissa exponent)
    (hlimit : (Single.limit : ℚ) * 2 ^ 149 < value) :
    2 ^ single.ceiling ≤ mantissa * 2 ^ exponent := by
  rw [Single.limit_mul] at hlimit
  have hpos : (0 : ℚ) < 2 ^ 252 := by positivity
  have hexponent : 253 ≤ exponent := by
    have hbelow : value < 2 ^ (24 + exponent) := hrounds.below
    have hpow : (2 : ℚ) ^ (24 + 252) < 2 ^ (24 + exponent) := by
      rw [pow_add]
      linarith
    have hlt := (pow_lt_pow_iff_right₀ one_lt_two).mp hpow
    omega
  rcases Nat.eq_or_lt_of_le hexponent with rfl | hlarge
  · have hnear := (abs_le.mp hrounds.near).1
    rw [pow_succ _ 252] at hnear
    have hfull : (2 ^ 24 - 1 : ℚ) < mantissa := by
      by_contra hless
      have hmul := mul_le_mul_of_nonneg_right (not_lt.mp hless) hpos.le
      linarith
    have hfull' : 2 ^ 24 < mantissa + 1 := by
      have hsum : (2 ^ 24 : ℚ) < mantissa + 1 := by linarith
      exact_mod_cast hsum
    rw [two_pow_ceiling 24 253 rfl]
    exact Nat.mul_le_mul_right _ (Nat.lt_succ_iff.mp hfull')
  · have hfull : 2 ^ 24 ≤ 2 * mantissa := hrounds.le_mantissa (by decide) (by omega)
    have hpow : 2 ^ 254 ≤ 2 ^ exponent := Nat.pow_le_pow_right (by decide) hlarge
    have hhalf : 2 ^ 23 ≤ mantissa := by omega
    rw [two_pow_ceiling 23 254 rfl]
    exact Nat.mul_le_mul hhalf hpow

end Format.RoundsTo

/-- A quotient has no magnitude exactly from the limit on. -/
theorem Format.ceiling_le_roundUnits_iff {num den : Nat} (hden : 0 < den) :
    2 ^ single.ceiling ≤ single.roundUnits num den ↔ Single.limit * den ≤ num := by
  obtain ⟨mantissa, exponent, hround, hrounds⟩ :=
    exists_roundsTo (f := .single) (by decide) num hden
  have hden' : (0 : ℚ) < den := by exact_mod_cast hden
  have hvalue : (num * 2 ^ single.scale / den : ℚ) = num / den * 2 ^ 149 :=
    mul_div_right_comm _ _ _
  have hbits : (0 : ℚ) < 2 ^ 149 := by positivity
  rw [hvalue] at hrounds
  constructor
  · intro hceiling
    rw [hround] at hceiling
    have hle := le_of_mul_le_mul_right (hrounds.limit_le hceiling) hbits
    rw [le_div_iff₀ hden'] at hle
    exact_mod_cast hle
  · intro hlimit
    rcases Nat.eq_or_lt_of_le hlimit with heq | hlt
    · -- the tie
      have htie : single.roundUnits num den = single.roundUnits Single.limit 1 := by
        apply roundUnits_congr hden Nat.one_pos
        rw [Nat.mul_one, heq]
      rw [htie]
      decide +kernel
    · have hlt' : (Single.limit : ℚ) < num / den := by
        rw [lt_div_iff₀ hden']
        exact_mod_cast hlt
      rw [hround]
      exact hrounds.ceiling_le (mul_lt_mul_of_pos_right hlt' hbits)

namespace Single

/-- Neither infinite nor not-a-number. -/
def isFinite : Single → Bool
  | .finite _ _ => true
  | .nan | .infinite _ => false

theorem isFinite_ofRatio (negative : Bool) (num den : Nat) :
    (ofRatio negative num den).isFinite = (Format.single.round num den).isSome := by
  rw [ofRatio_eq_elim]
  dsimp only
  cases Format.single.round num den with
  | none => rfl
  | some magnitude => rfl

theorem isFinite_ofRatio_iff (negative : Bool) {num den : Nat} (hden : 0 < den) :
    (ofRatio negative num den).isFinite = true ↔ num < limit * den := by
  have hround : (Format.single.round num den).isSome = true ↔
      Format.single.roundUnits num den < 2 ^ Format.single.ceiling := by
    unfold Format.round
    split
    · next hbelow => exact iff_of_true rfl hbelow
    · next hbelow => exact iff_of_false Bool.false_ne_true hbelow
  rw [isFinite_ofRatio, hround, ← not_le, Format.ceiling_le_roundUnits_iff hden, not_le]

end Single

/-! ### Numerals -/

namespace Digit

theorem value_lt (digits : List Digit) : value digits < 10 ^ digits.length := by
  induction digits with
  | nil => exact Nat.one_pos
  | cons d digits ih =>
    rw [value_cons, List.length_cons, Nat.pow_succ']
    have hdigit : d.val * 10 ^ digits.length ≤ 9 * 10 ^ digits.length :=
      Nat.mul_le_mul_right _ (Nat.lt_succ_iff.mp d.isLt)
    omega

theorem pow_le_value {d : Digit} (hd : d ≠ zero) (digits : List Digit) :
    10 ^ digits.length ≤ value (d :: digits) := by
  have hpos : 0 < d.val := Nat.pos_of_ne_zero fun hzero => hd (Fin.ext hzero)
  rw [value_cons]
  exact le_trans (Nat.le_mul_of_pos_left _ hpos) (Nat.le_add_right _ _)

/-- Zeros at the front do not count. -/
theorem value_dropWhile (digits : List Digit) :
    value (digits.dropWhile (· == zero)) = value digits := by
  induction digits with
  | nil => rfl
  | cons d digits ih =>
    by_cases hd : d = zero
    · subst hd
      have hvalue : value (zero :: digits) = value digits := by
        rw [value_cons]
        change 0 * _ + _ = _
        rw [Nat.zero_mul, Nat.zero_add]
      rw [List.dropWhile_cons_of_pos, ih, hvalue]
      exact beq_self_eq_true zero
    · rw [List.dropWhile_cons_of_neg (by simpa using hd)]

end Digit

namespace Numeral

/-- What a numeral stands for, without its sign. -/
def value (numeral : Numeral) : ℚ :=
  Digit.value numeral.digits * 10 ^ numeral.power

theorem value_lt (numeral : Numeral) : numeral.value < 10 ^ numeral.point := by
  have hlt := Digit.value_lt (numeral.digits.dropWhile (· == Digit.zero))
  rw [Digit.value_dropWhile] at hlt
  have hpower : (0 : ℚ) < 10 ^ numeral.power := zpow_pos (by norm_num) _
  have hlt' : (Digit.value numeral.digits : ℚ) <
      10 ^ (numeral.digits.dropWhile (· == Digit.zero)).length := by exact_mod_cast hlt
  rw [value, point, zpow_add₀ (by norm_num), zpow_natCast]
  exact mul_lt_mul_of_pos_right hlt' hpower

theorem le_value {numeral : Numeral} (hsome : Digit.value numeral.digits ≠ 0) :
    (10 : ℚ) ^ (numeral.point - 1) ≤ numeral.value := by
  have hvalue := Digit.value_dropWhile numeral.digits
  have hfirst := List.head?_dropWhile_not (· == Digit.zero) numeral.digits
  rw [value, point]
  cases hdigits : numeral.digits.dropWhile (· == Digit.zero) with
  | nil =>
    rw [hdigits] at hvalue
    exact absurd hvalue.symm hsome
  | cons d digits =>
    rw [hdigits] at hvalue hfirst
    have hd : d ≠ Digit.zero := by simpa using hfirst
    have hle : (10 ^ digits.length : ℚ) ≤ Digit.value numeral.digits := by
      rw [← hvalue]
      exact_mod_cast Digit.pow_le_value hd digits
    have hpoint : ((d :: digits).length : Int) + numeral.power - 1 =
        (digits.length : Int) + numeral.power := by
      rw [List.length_cons]
      omega
    rw [hpoint, zpow_add₀ (by norm_num), zpow_natCast]
    exact mul_le_mul_of_nonneg_right hle (zpow_pos (by norm_num) _).le

/-- **A numeral is a finite number exactly below the limit.** -/
theorem isFinite_toSingle_iff (numeral : Numeral) :
    numeral.toSingle.isFinite = true ↔ numeral.value < Single.limit := by
  have hlimit : (1 : ℚ) ≤ Single.limit := by exact_mod_cast (by decide : 1 ≤ Single.limit)
  unfold toSingle
  dsimp only
  split
  · next hsmall =>
    -- far to the left, or zero
    have hless : numeral.value < 1 := by
      rcases hsmall with hzero | hpoint
      · rw [value, hzero, Nat.cast_zero, zero_mul]
        exact one_pos
      · apply numeral.value_lt.trans_le
        exact zpow_le_one_of_nonpos₀ (by norm_num) (by omega)
    rw [Single.isFinite_ofRatio_iff _ Nat.one_pos]
    exact iff_of_true (by decide) (hless.trans_le hlimit)
  · next hlarge =>
    split
    · next hpoint =>
      -- far to the right
      have hmore : (Single.limit : ℚ) ≤ numeral.value := by
        calc (Single.limit : ℚ) ≤ 10 ^ (150 : Int) := by norm_num [Single.limit]
          _ ≤ 10 ^ (numeral.point - 1) := zpow_le_zpow_right₀ (by norm_num) (by omega)
          _ ≤ numeral.value := le_value fun hzero => hlarge (Or.inl hzero)
      exact iff_of_false Bool.false_ne_true (not_lt.mpr hmore)
    · split
      · next hneg =>
        have hpos : 0 < 10 ^ numeral.power.natAbs := Nat.pow_pos (by decide)
        have hpower : numeral.power = -(numeral.power.natAbs : Int) := by omega
        rw [Single.isFinite_ofRatio_iff _ hpos, value]
        generalize numeral.power.natAbs = k at *
        rw [hpower, zpow_neg, zpow_natCast, ← div_eq_mul_inv, div_lt_iff₀ (by exact_mod_cast hpos)]
        exact_mod_cast Iff.rfl
      · next hnonneg =>
        have hpower : numeral.power = (numeral.power.natAbs : Int) := by omega
        rw [Single.isFinite_ofRatio_iff _ Nat.one_pos, Nat.mul_one, value]
        generalize numeral.power.natAbs = k at *
        rw [hpower, zpow_natCast]
        exact_mod_cast Iff.rfl

end Numeral

end WidgetStyle.Number
