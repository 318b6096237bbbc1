import Mathlib.Tactic.NormNum
import WidgetStyle.Number.Reading
import WidgetStyle.Proofs.Rounding

/-!
# Scaling in the format of 64 bits

A word is scaled by a power of ten, with a rounding of the power and another one of the result.
Where the values are neither very small nor very large the two together are off by one part in
`2 ^ 52` and a little more (`Nearby`), and where the power is small and the result is a number of
the format nothing is lost.
-/

namespace WidgetStyle.Number

/-- `value'` is `value`, off by at most one part in `2 ^ 52`, or a little more. -/
structure Nearby (value value' : ℚ) : Prop where
  low : (2 ^ 72 - (2 ^ 20 + 1)) * value ≤ 2 ^ 72 * value'
  high : 2 ^ 72 * value' ≤ (2 ^ 72 + (2 ^ 20 + 1)) * value

namespace Nearby

variable {value value' between factor : ℚ}

theorem refl (hvalue : 0 ≤ value) : Nearby value value := by
  constructor
  · linarith
  · linarith

theorem mul_right (hnearby : Nearby value value') (hfactor : 0 ≤ factor) :
    Nearby (value * factor) (value' * factor) := by
  have hlow := mul_le_mul_of_nonneg_right hnearby.low hfactor
  have hhigh := mul_le_mul_of_nonneg_right hnearby.high hfactor
  constructor
  · linarith
  · linarith

/-- What is between two nearby values is nearby. -/
theorem convex (hnearby : Nearby value value') (hvalue : 0 ≤ value)
    (hbetween : value ≤ between ∧ between ≤ value' ∨ value' ≤ between ∧ between ≤ value) :
    Nearby value between := by
  have hself := refl hvalue
  rcases hbetween with ⟨hlow, hhigh⟩ | ⟨hlow, hhigh⟩
  · exact ⟨hself.low.trans (by linarith), le_trans (by linarith) hnearby.high⟩
  · exact ⟨hnearby.low.trans (by linarith), le_trans (by linarith) hself.high⟩

end Nearby

namespace Wide

/-! ### Single steps -/

/-- A quotient that is a number of 64 bits is rounded to this number. -/
theorem exists_exact {num den mantissa exponent : Nat} (hden : 0 < den)
    (hshort : mantissa ≤ 2 ^ 53) (hexponent : exponent ≤ 2000)
    (hexact : (num / den : ℚ) * 2 ^ Format.double.scale = mantissa * 2 ^ exponent) :
    ∃ number, ofRatio? num den = some number ∧ number.value = num / den := by
  have hfits : Format.double.Fits (mantissa * 2 ^ exponent) := by
    refine Format.fits_of_short hshort ?_
    change 53 + exponent < 2098
    omega
  have hunits : num * 2 ^ Format.double.scale = mantissa * 2 ^ exponent * den := by
    rw [div_mul_eq_mul_div, div_eq_iff (Nat.cast_ne_zero.mpr hden.ne')] at hexact
    exact_mod_cast hexact
  refine ⟨⟨_, hfits⟩,
    Format.round_eq_some (Format.roundUnits_of_fits (by decide) hfits hden hunits), ?_⟩
  rw [Magnitude.value, div_eq_iff (by positivity), hexact]
  push_cast
  rfl

/-- A moderate quotient is rounded with a small error. -/
theorem exists_about {num den : Nat} (hden : 0 < den) (hlow : 1 ≤ (num / den : ℚ) * 2 ^ 1000)
    (hhigh : (num / den : ℚ) ≤ 2 ^ 1000) :
    ∃ number, ofRatio? num den = some number ∧ number.About (num / den) := by
  refine Format.exists_about (by decide) hden ?_
  refine Format.moderate_of_bounds ?_ ?_ hlow hhigh
  · change 53 + 1000 ≤ 1074 + 1
    decide
  · change 1000 + 1074 + 1 < 2098
    decide

theorem exists_word {word : Nat} (hword : word ≤ 2 ^ 53) :
    ∃ number, ofRatio? word 1 = some number ∧ number.value = word := by
  have hexact : (word / (1 : Nat) : ℚ) * 2 ^ Format.double.scale =
      word * 2 ^ Format.double.scale := by
    rw [Nat.cast_one, div_one]
  have hexponent : Format.double.scale ≤ 2000 := by decide
  obtain ⟨number, hnumber, hvalue⟩ := exists_exact Nat.one_pos hword hexponent hexact
  refine ⟨number, hnumber, ?_⟩
  rw [hvalue, Nat.cast_one, div_one]

/-- Small powers of ten are exact. -/
theorem exists_power_exact {power : Nat} (hpower : power ≤ 22) :
    ∃ number, powerOfTen? power = some number ∧ number.value = 10 ^ power := by
  have hshort : 5 ^ power ≤ 2 ^ 53 :=
    (Nat.pow_le_pow_right (by decide) hpower).trans (by decide)
  have hvalue : ((10 ^ power : Nat) / (1 : Nat) : ℚ) = 10 ^ power := by
    rw [Nat.cast_one, div_one, Nat.cast_pow, Nat.cast_ofNat]
  have hexponent : power + Format.double.scale ≤ 2000 := by
    change power + 1074 ≤ 2000
    omega
  have hexact : ((10 ^ power : Nat) / (1 : Nat) : ℚ) * 2 ^ Format.double.scale =
      (5 ^ power : Nat) * 2 ^ (power + Format.double.scale) := by
    rw [hvalue, pow_add, ← mul_assoc, Nat.cast_pow, ← mul_pow]
    norm_num
  obtain ⟨number, hnumber, hsame⟩ := exists_exact Nat.one_pos hshort hexponent hexact
  exact ⟨number, hnumber, hsame.trans hvalue⟩

theorem exists_power {power : Nat} (hpower : power ≤ 300) :
    ∃ number, powerOfTen? power = some number ∧ number.About (10 ^ power) := by
  have hvalue : ((10 ^ power : Nat) / (1 : Nat) : ℚ) = 10 ^ power := by
    rw [Nat.cast_one, div_one, Nat.cast_pow, Nat.cast_ofNat]
  have hlow : (1 : ℚ) ≤ 10 ^ power * 2 ^ 1000 :=
    one_le_mul_of_one_le_of_one_le (one_le_pow₀ (by norm_num)) (one_le_pow₀ one_le_two)
  have hhigh : (10 : ℚ) ^ power ≤ 2 ^ 1000 := by
    calc (10 : ℚ) ^ power ≤ 10 ^ 300 := pow_le_pow_right₀ (by norm_num) hpower
      _ = (10 ^ 3) ^ 100 := by rw [← pow_mul]
      _ ≤ (2 ^ 10) ^ 100 := pow_le_pow_left₀ (by norm_num) (by norm_num) 100
      _ = 2 ^ 1000 := by rw [← pow_mul]
  rw [← hvalue] at hlow hhigh ⊢
  exact exists_about Nat.one_pos hlow hhigh

theorem times_quotient (a b : Wide) :
    ((a.units * b.units : Nat) /
      (2 ^ Format.double.scale * 2 ^ Format.double.scale : Nat) : ℚ) = a.value * b.value := by
  rw [Magnitude.value, Magnitude.value, div_mul_div_comm]
  push_cast
  rfl

theorem over_quotient (a b : Wide) : (a.units / b.units : ℚ) = a.value / b.value := by
  rw [Magnitude.value, Magnitude.value, div_div_div_cancel_right₀ (by positivity)]

theorem units_pos {number : Wide} (hpos : 0 < number.value) : 0 < number.units := by
  refine Nat.pos_of_ne_zero ?_
  intro hzero
  rw [Magnitude.value, hzero, Nat.cast_zero, zero_div] at hpos
  exact lt_irrefl 0 hpos

/-! ### Scaling by a power of ten -/

theorem scale?_of_nonneg (number : Wide) {power : Nat} (hpower : power ≤ greatestPower) :
    number.scale? power = (powerOfTen? power).bind number.times? := by
  rw [scale?, if_pos (Int.natCast_nonneg power), Int.natAbs_natCast, grow?, if_pos hpower]

theorem shrinkBy?_zero (number : Wide) : number.shrinkBy? 0 = some number := by
  -- its equations are not asked for, since they would be sought by computing the greatest power
  delta shrinkBy?
  rfl

theorem scale?_of_neg (number : Wide) {power : Nat} (hpos : 0 < power)
    (hpower : power ≤ greatestPower) :
    number.scale? (-power) = (powerOfTen? power).bind number.over? := by
  have hsteps : (power - 1) / greatestPower = 0 :=
    Nat.div_eq_of_lt (Nat.lt_of_lt_of_le (Nat.pred_lt hpos.ne') hpower)
  have hnegative : ¬ (0 : Int) ≤ -power := by omega
  rw [scale?, if_neg hnegative, Int.natAbs_neg, Int.natAbs_natCast]
  unfold shrink?
  dsimp only
  rw [hsteps, shrinkBy?_zero, Option.bind_some, Nat.mul_zero, Nat.sub_zero]

variable {number power scaled : Wide} {value : ℚ}

theorem nearby_of_times (hpower : power.About value) (hpos : 0 ≤ number.value) (hvalue : 0 ≤ value)
    (hscaled : scaled.About (number.value * power.value)) :
    Nearby (number.value * value) scaled.value := by
  have hlow := mul_le_mul_of_nonneg_left hpower.low hpos
  have hhigh := mul_le_mul_of_nonneg_left hpower.high hpos
  have hlow' := hscaled.low
  have hhigh' := hscaled.high
  have hproduct : 0 ≤ number.value * value := mul_nonneg hpos hvalue
  change number.value * ((2 ^ 53 - 1) * value) ≤ number.value * (2 ^ 53 * power.value) at hlow
  change number.value * (2 ^ 53 * power.value) ≤ number.value * ((2 ^ 53 + 1) * value) at hhigh
  change (2 ^ 53 - 1) * (number.value * power.value) ≤ 2 ^ 53 * scaled.value at hlow'
  change 2 ^ 53 * scaled.value ≤ (2 ^ 53 + 1) * (number.value * power.value) at hhigh'
  constructor
  · linarith
  · linarith

theorem About.pos (hpower : power.About value) (hvalue : 0 < value) : 0 < power.value := by
  have hlow : (2 ^ 53 - 1) * value ≤ 2 ^ 53 * power.value := hpower.low
  linarith

theorem nearby_of_over (hpower : power.About value) (hpos : 0 ≤ number.value) (hvalue : 0 < value)
    (hscaled : scaled.About (number.value / power.value)) :
    Nearby (number.value / value) scaled.value := by
  have hpower' := About.pos hpower hvalue
  have hlow : (2 ^ 53 - 1) * value ≤ 2 ^ 53 * power.value := hpower.low
  have hhigh : 2 ^ 53 * power.value ≤ (2 ^ 53 + 1) * value := hpower.high
  have hlow' : (2 ^ 53 - 1) * (number.value / power.value) ≤ 2 ^ 53 * scaled.value := hscaled.low
  have hhigh' : 2 ^ 53 * scaled.value ≤ (2 ^ 53 + 1) * (number.value / power.value) := hscaled.high
  have hquotient : 0 ≤ number.value / power.value := div_nonneg hpos hpower'.le
  have hexact : 0 ≤ number.value / value := div_nonneg hpos hvalue.le
  have hcross : number.value / power.value * power.value = number.value / value * value := by
    rw [div_mul_cancel₀ _ hpower'.ne', div_mul_cancel₀ _ hvalue.ne']
  generalize number.value / power.value = quotient at *
  generalize number.value / value = exact at *
  -- the bounds for the power of ten become bounds for the quotient
  have hdown : (2 ^ 53 - 1) * quotient ≤ 2 ^ 53 * exact := by
    have hmul := mul_le_mul_of_nonneg_left hlow hquotient
    refine le_of_mul_le_mul_right ?_ hvalue
    linarith
  have hup : 2 ^ 53 * exact ≤ (2 ^ 53 + 1) * quotient := by
    have hmul := mul_le_mul_of_nonneg_left hhigh hquotient
    refine le_of_mul_le_mul_right ?_ hvalue
    linarith
  constructor
  · linarith
  · linarith

theorem exists_times {a b : Wide} (hlow : 1 ≤ a.value * b.value * 2 ^ 1000)
    (hhigh : a.value * b.value ≤ 2 ^ 1000) :
    ∃ product, a.times? b = some product ∧ product.About (a.value * b.value) := by
  rw [← times_quotient] at hlow hhigh ⊢
  exact exists_about (Nat.mul_pos (Nat.two_pow_pos _) (Nat.two_pow_pos _)) hlow hhigh

theorem exists_over {a b : Wide} (hb : 0 < b.value) (hlow : 1 ≤ a.value / b.value * 2 ^ 1000)
    (hhigh : a.value / b.value ≤ 2 ^ 1000) :
    ∃ quotient, a.over? b = some quotient ∧ quotient.About (a.value / b.value) := by
  rw [← over_quotient] at hlow hhigh ⊢
  exact exists_about (units_pos hb) hlow hhigh

/-- A value within a factor of two of a moderate one is hardly less moderate. -/
theorem bounds_of_twice {value value' : ℚ} (hless : value ≤ 2 * value') (hmore : value' ≤ 2 * value)
    (hlow : 1 ≤ value * 2 ^ 200) (hhigh : value ≤ 2 ^ 200) :
    1 ≤ value' * 2 ^ 1000 ∧ value' ≤ 2 ^ 1000 := by
  have hwider : (2 ^ 200 * 2 : ℚ) ≤ 2 ^ 1000 := by
    rw [← pow_succ]
    exact pow_le_pow_right₀ one_le_two (by decide)
  have hvalue : 0 ≤ value' := by linarith
  constructor
  · calc 1 ≤ value * 2 ^ 200 := hlow
      _ ≤ 2 * value' * 2 ^ 200 := mul_le_mul_of_nonneg_right hless (by positivity)
      _ = value' * (2 ^ 200 * 2) := by ring
      _ ≤ value' * 2 ^ 1000 := mul_le_mul_of_nonneg_left hwider hvalue
  · calc value' ≤ 2 * value := hmore
      _ ≤ 2 ^ 200 * 2 := by linarith
      _ ≤ 2 ^ 1000 := hwider

theorem About.twice (habout : power.About value) (hvalue : 0 < value) :
    value ≤ 2 * power.value ∧ power.value ≤ 2 * value := by
  have hlow : (2 ^ 53 - 1) * value ≤ 2 ^ 53 * power.value := habout.low
  have hhigh : 2 ^ 53 * power.value ≤ (2 ^ 53 + 1) * value := habout.high
  constructor
  · linarith
  · linarith

theorem div_le_twice {a b b' : ℚ} (ha : 0 ≤ a) (hb : 0 < b) (hb' : 0 < b') (hless : b' ≤ 2 * b) :
    a / b ≤ 2 * (a / b') := by
  rw [div_le_iff₀ hb]
  calc a = a / b' * b' := (div_mul_cancel₀ a hb'.ne').symm
    _ ≤ a / b' * (2 * b) := mul_le_mul_of_nonneg_left hless (div_nonneg ha hb'.le)
    _ = 2 * (a / b') * b := by ring

/-- **Scaling has a small error**, where the result is moderate. -/
theorem exists_nearby (hnumber : 0 < number.value) {power : Int} (hpower : power.natAbs ≤ 300)
    (hlow : 1 ≤ number.value * 10 ^ power * 2 ^ 200) (hhigh : number.value * 10 ^ power ≤ 2 ^ 200) :
    ∃ scaled, number.scale? power = some scaled ∧
      Nearby (number.value * 10 ^ power) scaled.value := by
  rcases le_or_gt 0 power with hnonneg | hneg
  · obtain ⟨k, rfl⟩ := Int.eq_ofNat_of_zero_le hnonneg
    rw [Int.natAbs_natCast] at hpower
    rw [zpow_natCast] at hlow hhigh ⊢
    obtain ⟨ten, hten, habout⟩ := exists_power hpower
    have hvalue : (0 : ℚ) < 10 ^ k := by positivity
    obtain ⟨hless, hmore⟩ := About.twice habout hvalue
    have hless' := mul_le_mul_of_nonneg_left hless hnumber.le
    have hmore' := mul_le_mul_of_nonneg_left hmore hnumber.le
    rw [mul_left_comm] at hless' hmore'
    obtain ⟨hlow', hhigh'⟩ := bounds_of_twice hless' hmore' hlow hhigh
    obtain ⟨scaled, hscaled, herror⟩ := exists_times hlow' hhigh'
    refine ⟨scaled, ?_, nearby_of_times habout hnumber.le hvalue.le herror⟩
    rw [scale?_of_nonneg _ (hpower.trans (by decide)), hten, Option.bind_some, hscaled]
  · obtain ⟨k, rfl⟩ := Int.exists_eq_neg_ofNat hneg.le
    rw [Int.natAbs_neg, Int.natAbs_natCast] at hpower
    rw [zpow_neg, zpow_natCast, ← div_eq_mul_inv] at hlow hhigh ⊢
    obtain ⟨ten, hten, habout⟩ := exists_power hpower
    have hvalue : (0 : ℚ) < 10 ^ k := by positivity
    have hten' := About.pos habout hvalue
    obtain ⟨hless, hmore⟩ := About.twice habout hvalue
    have hless' := div_le_twice hnumber.le hvalue hten' hmore
    have hmore' := div_le_twice hnumber.le hten' hvalue hless
    obtain ⟨hlow', hhigh'⟩ := bounds_of_twice hless' hmore' hlow hhigh
    obtain ⟨scaled, hscaled, herror⟩ := exists_over hten' hlow' hhigh'
    refine ⟨scaled, ?_, nearby_of_over habout hnumber.le hvalue herror⟩
    rw [scale?_of_neg _ (by omega) (hpower.trans (by decide)), hten, Option.bind_some, hscaled]

/-- **Scaling is exact** where the power of ten is small and the result is a number of 64 bits. -/
theorem exists_scale_exact {power : Int} {mantissa exponent : Nat} (hpower : power.natAbs ≤ 22)
    (hshort : mantissa ≤ 2 ^ 53) (hexponent : exponent ≤ 2000)
    (hexact : number.value * 10 ^ power * 2 ^ Format.double.scale = mantissa * 2 ^ exponent) :
    ∃ scaled, number.scale? power = some scaled ∧ scaled.value = number.value * 10 ^ power := by
  rcases le_or_gt 0 power with hnonneg | hneg
  · obtain ⟨k, rfl⟩ := Int.eq_ofNat_of_zero_le hnonneg
    rw [Int.natAbs_natCast] at hpower
    rw [zpow_natCast] at hexact ⊢
    obtain ⟨ten, hten, hvalue⟩ := exists_power_exact hpower
    rw [← hvalue, ← times_quotient] at hexact ⊢
    have hden : 0 < 2 ^ Format.double.scale * 2 ^ Format.double.scale :=
      Nat.mul_pos (Nat.two_pow_pos _) (Nat.two_pow_pos _)
    obtain ⟨scaled, hscaled, hsame⟩ := exists_exact hden hshort hexponent hexact
    refine ⟨scaled, ?_, hsame⟩
    rw [scale?_of_nonneg _ (hpower.trans (by decide)), hten, Option.bind_some]
    exact hscaled
  · obtain ⟨k, rfl⟩ := Int.exists_eq_neg_ofNat hneg.le
    rw [Int.natAbs_neg, Int.natAbs_natCast] at hpower
    rw [zpow_neg, zpow_natCast, ← div_eq_mul_inv] at hexact ⊢
    obtain ⟨ten, hten, hvalue⟩ := exists_power_exact hpower
    have hten' : 0 < ten.value := by
      rw [hvalue]
      positivity
    rw [← hvalue, ← over_quotient] at hexact ⊢
    obtain ⟨scaled, hscaled, hsame⟩ := exists_exact (units_pos hten') hshort hexponent hexact
    refine ⟨scaled, ?_, hsame⟩
    rw [scale?_of_neg _ (by omega) (hpower.trans (by decide)), hten, Option.bind_some]
    exact hscaled

end Wide

end WidgetStyle.Number
