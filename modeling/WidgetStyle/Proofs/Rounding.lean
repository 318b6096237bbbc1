import Mathlib.Algebra.Order.Field.Rat
import Mathlib.Data.Nat.Cast.Order.Field
import Mathlib.Tactic.Linarith
import Mathlib.Tactic.Positivity
import Mathlib.Tactic.Push
import Mathlib.Tactic.Ring
import WidgetStyle.Number.Rounding

/-!
# Rounding to a binary format

Between two powers of two the numbers of a format are the multiples of one step, and what a value
is rounded to is a multiple of the step at this value, by at most half a step away
(`Format.RoundsTo`). All that is used of rounding follows from this. The error is small against the
value. A number of the format is rounded to itself. And if one value is rounded below another one,
then halfway between the lower result and the next number of the format there is a midpoint that
has the two values on its two sides.
-/

namespace WidgetStyle.Number

/-! ### The nearest whole number -/

theorem nearest_bounds (num : Nat) {den : Nat} (hden : 0 < den) :
    2 * num ≤ (2 * nearest num den + 1) * den ∧ 2 * (nearest num den * den) ≤ 2 * num + den := by
  have hsplit := Nat.div_add_mod num den
  have hrest := Nat.mod_lt num hden
  unfold nearest
  generalize num / den = whole at *
  generalize num % den = rest at *
  subst hsplit
  split
  · constructor <;> linarith
  · split
    · constructor <;> linarith
    · split
      · constructor <;> linarith
      · constructor <;> linarith

theorem nearest_mul_left {num den factor : Nat} (hfactor : 0 < factor) :
    nearest (factor * num) (factor * den) = nearest num den := by
  have hleft (a b : Nat) : 2 * (factor * a) < factor * b ↔ 2 * a < b := by
    rw [Nat.mul_left_comm, Nat.mul_lt_mul_left hfactor]
  have hright (a b : Nat) : factor * b < 2 * (factor * a) ↔ b < 2 * a := by
    rw [Nat.mul_left_comm, Nat.mul_lt_mul_left hfactor]
  simp only [nearest, Nat.mul_mod_mul_left, Nat.mul_div_mul_left _ _ hfactor, hleft, hright]

namespace Format

variable {f : Format}

/-- Only the quotient matters. -/
theorem roundUnits_mul_left {num den factor : Nat} (hfactor : 0 < factor) :
    f.roundUnits (factor * num) (factor * den) = f.roundUnits num den := by
  unfold roundUnits
  rw [Nat.mul_assoc, Nat.mul_div_mul_left _ _ hfactor, Nat.mul_assoc factor den,
    nearest_mul_left hfactor]

theorem roundUnits_congr {num den num' den' : Nat} (hden : 0 < den) (hden' : 0 < den')
    (hsame : num * den' = num' * den) : f.roundUnits num den = f.roundUnits num' den' := by
  calc f.roundUnits num den = f.roundUnits (den' * num) (den' * den) :=
        (roundUnits_mul_left hden').symm
    _ = f.roundUnits (den * num') (den * den') := by
        rw [Nat.mul_comm den' num, hsame, Nat.mul_comm num', Nat.mul_comm den' den]
    _ = f.roundUnits num' den' := roundUnits_mul_left hden

/-! ### The step at a value -/

/-- `mantissa` steps of `2 ^ exponent` quanta are nearest to a value, counted in quanta, and this is
the step at the value. -/
structure RoundsTo (f : Format) (value : ℚ) (mantissa exponent : Nat) : Prop where
  near : |(mantissa * 2 ^ exponent : ℚ) - value| ≤ 2 ^ exponent / 2
  below : value < 2 ^ (f.precision + exponent)
  above : exponent = 0 ∨ (2 : ℚ) ^ (f.precision + exponent) ≤ 2 * value

theorem lt_two_pow_surplus (units : Nat) : units < 2 ^ (f.precision + f.surplus units) := by
  refine Nat.lt_of_lt_of_le Nat.lt_log2_self (Nat.pow_le_pow_right (by decide) ?_)
  unfold surplus
  omega

theorem two_pow_surplus_le (hprecision : 0 < f.precision) {units : Nat}
    (hsurplus : f.surplus units ≠ 0) : 2 ^ (f.precision + f.surplus units) ≤ 2 * units := by
  unfold surplus at hsurplus ⊢
  have hunits : units ≠ 0 := by
    rintro rfl
    rw [Nat.log2_zero] at hsurplus
    omega
  have hexponent : f.precision + (units.log2 + 1 - f.precision) = units.log2 + 1 := by omega
  rw [hexponent, Nat.pow_succ, Nat.mul_comm]
  exact Nat.mul_le_mul_left 2 (Nat.log2_self_le hunits)

theorem exists_roundsTo (hprecision : 0 < f.precision) (num : Nat) {den : Nat} (hden : 0 < den) :
    ∃ mantissa exponent, f.roundUnits num den = mantissa * 2 ^ exponent ∧
      f.RoundsTo (num * 2 ^ f.scale / den) mantissa exponent := by
  refine ⟨_, _, rfl, ?_, ?_, ?_⟩
  · have hstep : 0 < den * 2 ^ f.surplus (num * 2 ^ f.scale / den) :=
      Nat.mul_pos hden (Nat.two_pow_pos _)
    obtain ⟨hupper, hlower⟩ := nearest_bounds (num * 2 ^ f.scale) hstep
    generalize nearest _ _ = mantissa at *
    generalize f.surplus _ = exponent at *
    have hden' : (0 : ℚ) < den := Nat.cast_pos.mpr hden
    have hupper' : (2 : ℚ) * (num * 2 ^ f.scale) ≤ (2 * mantissa + 1) * (den * 2 ^ exponent) := by
      exact_mod_cast hupper
    have hlower' : (2 : ℚ) * (mantissa * (den * 2 ^ exponent)) ≤
        2 * (num * 2 ^ f.scale) + den * 2 ^ exponent := by
      exact_mod_cast hlower
    rw [abs_le]
    constructor
    · rw [neg_le_sub_iff_le_add, div_le_iff₀ hden']
      linarith
    · rw [sub_le_iff_le_add, ← sub_le_iff_le_add', le_div_iff₀ hden']
      linarith
  · rw [div_lt_iff₀ (Nat.cast_pos.mpr hden)]
    have hbelow := f.lt_two_pow_surplus (num * 2 ^ f.scale / den)
    rw [Nat.div_lt_iff_lt_mul hden] at hbelow
    exact_mod_cast hbelow
  · by_cases hsurplus : f.surplus (num * 2 ^ f.scale / den) = 0
    · exact Or.inl hsurplus
    · right
      have habove := two_pow_surplus_le hprecision hsurplus
      have hfloor : ((num * 2 ^ f.scale / den : Nat) : ℚ) ≤ (num * 2 ^ f.scale : Nat) / den :=
        Nat.cast_div_le
      have habove' : (2 : ℚ) ^ (f.precision + f.surplus (num * 2 ^ f.scale / den)) ≤
          2 * (num * 2 ^ f.scale / den : Nat) := by
        exact_mod_cast habove
      push_cast at hfloor
      linarith

namespace RoundsTo

variable {value value' : ℚ} {mantissa exponent mantissa' exponent' : Nat}

theorem mantissa_le (hrounds : f.RoundsTo value mantissa exponent) :
    mantissa ≤ 2 ^ f.precision := by
  have hstep : (0 : ℚ) < 2 ^ exponent := by positivity
  have hnear := (abs_le.mp hrounds.near).2
  have hbelow := hrounds.below
  rw [pow_add] at hbelow
  have hlt : (mantissa : ℚ) < 2 ^ f.precision + 1 := by
    by_contra hge
    have hmul := mul_le_mul_of_nonneg_right (not_lt.mp hge) hstep.le
    linarith
  have hlt' : mantissa < 2 ^ f.precision + 1 := by exact_mod_cast hlt
  exact Nat.lt_succ_iff.mp hlt'

/-- Where the step is not the least one, the mantissa has all its bits. -/
theorem le_mantissa (hprecision : 0 < f.precision) (hrounds : f.RoundsTo value mantissa exponent)
    (hexponent : exponent ≠ 0) : 2 ^ f.precision ≤ 2 * mantissa := by
  have hstep : (0 : ℚ) < 2 ^ exponent := by positivity
  have hnear := (abs_le.mp hrounds.near).1
  have habove := hrounds.above.resolve_left hexponent
  rw [pow_add] at habove
  have hle : (2 : ℚ) ^ f.precision ≤ 2 * mantissa + 1 := by
    by_contra hlt
    have hmul := mul_lt_mul_of_pos_right (not_le.mp hlt) hstep
    linarith
  have hle' : 2 ^ f.precision ≤ 2 * mantissa + 1 := by exact_mod_cast hle
  obtain ⟨bits, hbits⟩ := Nat.exists_eq_succ_of_ne_zero hprecision.ne'
  rw [hbits, Nat.pow_succ] at hle' ⊢
  omega

/-- What is not rounded to zero is at least half a quantum. -/
theorem one_le_two_mul (hrounds : f.RoundsTo value mantissa exponent) (hmantissa : 0 < mantissa) :
    1 ≤ 2 * value := by
  have hstep : (1 : ℚ) ≤ 2 ^ exponent := one_le_pow₀ one_le_two
  have hmantissa' : (1 : ℚ) ≤ mantissa := by exact_mod_cast hmantissa
  have hmul := mul_le_mul_of_nonneg_right hmantissa' (by positivity : (0 : ℚ) ≤ 2 ^ exponent)
  have hnear := (abs_le.mp hrounds.near).2
  linarith

/-- What is rounded below the ceiling is below it. -/
theorem lt_ceiling (hprecision : 0 < f.precision) (hceiling : f.precision ≤ f.ceiling)
    (hrounds : f.RoundsTo value mantissa exponent)
    (hbelow : mantissa * 2 ^ exponent < 2 ^ f.ceiling) : value < 2 ^ f.ceiling := by
  refine hrounds.below.trans_le (pow_le_pow_right₀ one_le_two ?_)
  by_cases hexponent : exponent = 0
  · rwa [hexponent, Nat.add_zero]
  · have hfull := hrounds.le_mantissa hprecision hexponent
    have hlt : 2 ^ (f.precision + exponent) < 2 ^ (f.ceiling + 1) := by
      calc 2 ^ (f.precision + exponent) = 2 ^ f.precision * 2 ^ exponent := Nat.pow_add _ _ _
        _ ≤ 2 * mantissa * 2 ^ exponent := Nat.mul_le_mul_right _ hfull
        _ = 2 * (mantissa * 2 ^ exponent) := Nat.mul_assoc _ _ _
        _ < 2 * 2 ^ f.ceiling := Nat.mul_lt_mul_of_pos_left hbelow (by decide)
        _ = 2 ^ (f.ceiling + 1) := Nat.pow_succ'.symm
    exact Nat.lt_succ_iff.mp ((Nat.pow_lt_pow_iff_right (by decide)).mp hlt)

end RoundsTo

/-! ### Midpoints -/

/-- `mantissa` halves of a step are halfway between a number of the format and the next one. -/
structure Midpoint (f : Format) (lower mantissa exponent : Nat) : Prop where
  short : mantissa < 2 ^ (f.precision + 1)
  full : exponent = 0 ∨ 2 ^ f.precision ≤ mantissa
  odd : mantissa % 2 = 1
  next : 2 * lower + 2 ^ exponent = mantissa * 2 ^ exponent

namespace RoundsTo

variable {value value' : ℚ} {mantissa exponent mantissa' exponent' : Nat}

/-- A result with a smaller step is no larger. -/
theorem le_of_exponent_lt (hprecision : 0 < f.precision)
    (hlower : f.RoundsTo value mantissa exponent) (hupper : f.RoundsTo value' mantissa' exponent')
    (hlt : exponent' < exponent) : mantissa' * 2 ^ exponent' ≤ mantissa * 2 ^ exponent := by
  have hfull := hlower.le_mantissa hprecision (Nat.ne_zero_of_lt hlt)
  have hstep : 2 * 2 ^ exponent' ≤ 2 ^ exponent := by
    rw [Nat.mul_comm, ← Nat.pow_succ]
    exact Nat.pow_le_pow_right (by decide) hlt
  calc mantissa' * 2 ^ exponent' ≤ 2 * mantissa * 2 ^ exponent' :=
        Nat.mul_le_mul_right _ (hupper.mantissa_le.trans hfull)
    _ = mantissa * (2 * 2 ^ exponent') := by ring
    _ ≤ mantissa * 2 ^ exponent := Nat.mul_le_mul_left _ hstep

/-- A result with a larger step is beyond all midpoints of smaller steps. -/
theorem beyond_of_exponent_lt (hprecision : 0 < f.precision)
    (hupper : f.RoundsTo value' mantissa' exponent') {middle step : Nat}
    (hmiddle : middle < 2 ^ (f.precision + 1)) (hlt : step < exponent') :
    middle * 2 ^ step + 2 ^ step ≤ 2 * (mantissa' * 2 ^ exponent') ∧
      (middle * 2 ^ step : ℚ) ≤ 2 * value' := by
  have hfull := hupper.le_mantissa hprecision (Nat.ne_zero_of_lt hlt)
  have hbeyond : (middle + 1) * 2 ^ step ≤ 2 ^ (f.precision + exponent') := by
    calc (middle + 1) * 2 ^ step ≤ 2 ^ (f.precision + 1) * 2 ^ step :=
          Nat.mul_le_mul_right _ hmiddle
      _ = 2 ^ (f.precision + 1 + step) := (Nat.pow_add _ _ _).symm
      _ ≤ 2 ^ (f.precision + exponent') := Nat.pow_le_pow_right (by decide) (by omega)
  constructor
  · calc middle * 2 ^ step + 2 ^ step = (middle + 1) * 2 ^ step := by ring
      _ ≤ 2 ^ (f.precision + exponent') := hbeyond
      _ = 2 ^ f.precision * 2 ^ exponent' := Nat.pow_add _ _ _
      _ ≤ 2 * mantissa' * 2 ^ exponent' := Nat.mul_le_mul_right _ hfull
      _ = 2 * (mantissa' * 2 ^ exponent') := Nat.mul_assoc _ _ _
  · have habove := hupper.above.resolve_left (Nat.ne_zero_of_lt hlt)
    have hbeyond' : ((middle : ℚ) + 1) * 2 ^ step ≤ 2 ^ (f.precision + exponent') := by
      exact_mod_cast hbeyond
    have hstep : (0 : ℚ) < 2 ^ step := by positivity
    linarith

/-- A value is not below the midpoint under its result. -/
theorem midpoint_le (hupper : f.RoundsTo value' mantissa' exponent') {middle : Nat}
    (hnext : middle * 2 ^ exponent' + 2 ^ exponent' ≤ 2 * (mantissa' * 2 ^ exponent')) :
    (middle * 2 ^ exponent' : ℚ) ≤ 2 * value' := by
  have hnear := (abs_le.mp hupper.near).2
  have hnext' : (middle : ℚ) * 2 ^ exponent' + 2 ^ exponent' ≤
      2 * (mantissa' * 2 ^ exponent') := by exact_mod_cast hnext
  linarith

/-- Behind a result comes a midpoint, half a step further. If the result is a power of two, this is
the half of a larger step. -/
theorem exists_midpoint_behind (hprecision : 0 < f.precision)
    (hlower : f.RoundsTo value mantissa exponent) :
    ∃ middle step, f.Midpoint (mantissa * 2 ^ exponent) middle step ∧
      2 * value ≤ middle * 2 ^ step ∧
      (step = exponent ∨ step = exponent + 1 ∧ mantissa = 2 ^ f.precision) := by
  have hpow : 2 ^ (f.precision + 1) = 2 * 2 ^ f.precision := Nat.pow_succ'
  rcases Nat.lt_or_eq_of_le hlower.mantissa_le with hmantissa | hmantissa
  · refine ⟨2 * mantissa + 1, exponent, ⟨by omega, ?_, by omega, by ring⟩, ?_, Or.inl rfl⟩
    · by_cases hzero : exponent = 0
      · exact Or.inl hzero
      · exact Or.inr ((hlower.le_mantissa hprecision hzero).trans (Nat.le_succ _))
    · have hnear := (abs_le.mp hlower.near).1
      push_cast
      linarith
  · obtain ⟨bits, hbits⟩ := Nat.exists_eq_succ_of_ne_zero hprecision.ne'
    have heven : 2 ^ f.precision = 2 * 2 ^ bits := by rw [hbits, Nat.pow_succ']
    have hbits' : 0 < 2 ^ bits := Nat.two_pow_pos bits
    refine ⟨2 ^ f.precision + 1, exponent + 1, ⟨by omega, Or.inr (Nat.le_succ _), by omega, ?_⟩,
      ?_, Or.inr ⟨rfl, hmantissa⟩⟩
    · rw [hmantissa]
      ring
    · have hbelow := hlower.below
      have hstep : (0 : ℚ) < 2 ^ exponent := by positivity
      rw [pow_add] at hbelow
      rw [pow_succ]
      push_cast
      linarith

/-- A result behind a midpoint is half a step further at least, and its value is not in front of the
midpoint. -/
theorem behind_midpoint (hprecision : 0 < f.precision)
    (hupper : f.RoundsTo value' mantissa' exponent') {lower middle step : Nat}
    (hmidpoint : f.Midpoint lower middle step) (hstep : step ≤ exponent')
    (hlt : lower < mantissa' * 2 ^ exponent') :
    middle * 2 ^ step + 2 ^ step ≤ 2 * (mantissa' * 2 ^ exponent') ∧
      (middle * 2 ^ step : ℚ) ≤ 2 * value' := by
  rcases Nat.lt_or_eq_of_le hstep with hless | rfl
  · exact hupper.beyond_of_exponent_lt hprecision hmidpoint.short hless
  · have hmiddle : middle < 2 * mantissa' + 1 := by
      apply Nat.lt_of_mul_lt_mul_right (a := 2 ^ step)
      calc middle * 2 ^ step = 2 * lower + 2 ^ step := hmidpoint.next.symm
        _ < 2 * (mantissa' * 2 ^ step) + 2 ^ step := by omega
        _ = (2 * mantissa' + 1) * 2 ^ step := by ring
    have hodd := hmidpoint.odd
    have hnext : middle * 2 ^ step + 2 ^ step ≤ 2 * (mantissa' * 2 ^ step) := by
      calc middle * 2 ^ step + 2 ^ step = (middle + 1) * 2 ^ step := by ring
        _ ≤ 2 * mantissa' * 2 ^ step := Nat.mul_le_mul_right _ (by omega)
        _ = 2 * (mantissa' * 2 ^ step) := Nat.mul_assoc _ _ _
    exact ⟨hnext, hupper.midpoint_le hnext⟩

/-- **Rounding separates at midpoints**: of two values with different results, the one is at most
the midpoint behind the lower result, and the other is at least this midpoint. -/
theorem exists_midpoint (hprecision : 0 < f.precision)
    (hlower : f.RoundsTo value mantissa exponent) (hupper : f.RoundsTo value' mantissa' exponent')
    (hlt : mantissa * 2 ^ exponent < mantissa' * 2 ^ exponent') :
    ∃ middle step, f.Midpoint (mantissa * 2 ^ exponent) middle step ∧
      middle * 2 ^ step + 2 ^ step ≤ 2 * (mantissa' * 2 ^ exponent') ∧
      2 * value ≤ middle * 2 ^ step ∧ (middle * 2 ^ step : ℚ) ≤ 2 * value' := by
  obtain ⟨middle, step, hmidpoint, hvalue, hcase⟩ := hlower.exists_midpoint_behind hprecision
  have hexponent : exponent ≤ exponent' := by
    by_contra hless
    exact absurd hlt (Nat.not_lt.mpr (hlower.le_of_exponent_lt hprecision hupper (by omega)))
  have hstep : step ≤ exponent' := by
    rcases hcase with rfl | ⟨rfl, hmantissa⟩
    · exact hexponent
    · refine Nat.lt_of_le_of_ne hexponent ?_
      rintro rfl
      have hmul := Nat.mul_le_mul_right (2 ^ exponent) hupper.mantissa_le
      rw [hmantissa] at hlt
      exact absurd hlt (Nat.not_lt.mpr hmul)
  obtain ⟨hnext, hbehind⟩ := hupper.behind_midpoint hprecision hmidpoint hstep hlt
  exact ⟨middle, step, hmidpoint, hnext, hvalue, hbehind⟩

end RoundsTo

/-! ### Errors -/

/-- The error is at most one part in `2 ^ precision`, except for very small values. -/
theorem RoundsTo.error_le {value : ℚ} {mantissa exponent : Nat}
    (hrounds : f.RoundsTo value mantissa exponent) (hlarge : (2 : ℚ) ^ f.precision ≤ 2 * value) :
    |(mantissa * 2 ^ exponent : ℚ) - value| * 2 ^ f.precision ≤ value := by
  have hstep : (2 : ℚ) ^ exponent * 2 ^ f.precision ≤ 2 * value := by
    rcases hrounds.above with hzero | habove
    · rw [hzero, pow_zero, one_mul]
      exact hlarge
    · rwa [pow_add, mul_comm] at habove
  have hbits : (0 : ℚ) ≤ 2 ^ f.precision := by positivity
  have herror := mul_le_mul_of_nonneg_right hrounds.near hbits
  linarith

/-- A number of the format is a multiple of the step at it. -/
theorem RoundsTo.step_dvd (hprecision : 0 < f.precision) {units mantissa exponent : Nat}
    (hfits : f.Fits units) (hrounds : f.RoundsTo units mantissa exponent) :
    2 ^ exponent ∣ units := by
  obtain ⟨bits, power, hshort, rfl⟩ := hfits.short
  rcases hrounds.above with hzero | habove
  · rw [hzero, Nat.pow_zero]
    exact Nat.one_dvd _
  · have habove' : 2 ^ (f.precision + exponent) ≤ 2 * (bits * 2 ^ power) := by exact_mod_cast habove
    have hpower : exponent ≤ power + 1 := by
      have hle : 2 ^ (f.precision + exponent) ≤ 2 ^ (f.precision + (power + 1)) := by
        calc 2 ^ (f.precision + exponent) ≤ 2 * (bits * 2 ^ power) := habove'
          _ ≤ 2 * (2 ^ f.precision * 2 ^ power) :=
              Nat.mul_le_mul_left 2 (Nat.mul_le_mul_right _ hshort)
          _ = 2 ^ (f.precision + (power + 1)) := by ring
      exact Nat.le_of_add_le_add_left ((Nat.pow_le_pow_iff_right (by decide)).mp hle)
    rcases Nat.lt_or_eq_of_le hpower with hless | rfl
    · exact dvd_mul_of_dvd_right (Nat.pow_dvd_pow 2 (Nat.lt_succ_iff.mp hless)) _
    · -- the number is a power of two, written with one bit more than needed
      have hle : 2 ^ f.precision * 2 ^ (power + 1) ≤ bits * 2 ^ (power + 1) := by
        calc 2 ^ f.precision * 2 ^ (power + 1) = 2 ^ (f.precision + (power + 1)) :=
              (Nat.pow_add _ _ _).symm
          _ ≤ 2 * (bits * 2 ^ power) := habove'
          _ = bits * 2 ^ (power + 1) := by ring
      have hbits : bits = 2 ^ f.precision :=
        Nat.le_antisymm hshort (Nat.le_of_mul_le_mul_right hle (Nat.two_pow_pos _))
      rw [hbits, ← Nat.pow_add]
      exact Nat.pow_dvd_pow 2 (by omega)

theorem RoundsTo.eq_of_fits (hprecision : 0 < f.precision) {units mantissa exponent : Nat}
    (hfits : f.Fits units) (hrounds : f.RoundsTo units mantissa exponent) :
    mantissa * 2 ^ exponent = units := by
  obtain ⟨steps, rfl⟩ := hrounds.step_dvd hprecision hfits
  have hstep : (0 : ℚ) < 2 ^ exponent := by positivity
  obtain ⟨hlow, hhigh⟩ := abs_le.mp hrounds.near
  push_cast at hlow hhigh
  have hle : mantissa < steps + 1 := by
    have hlt : (mantissa : ℚ) < steps + 1 := by
      by_contra hge
      have hmul := mul_le_mul_of_nonneg_right (not_lt.mp hge) hstep.le
      linarith
    exact_mod_cast hlt
  have hge : steps < mantissa + 1 := by
    have hlt : (steps : ℚ) < mantissa + 1 := by
      by_contra hge
      have hmul := mul_le_mul_of_nonneg_right (not_lt.mp hge) hstep.le
      linarith
    exact_mod_cast hlt
  obtain rfl : mantissa = steps := by omega
  exact Nat.mul_comm _ _

/-- A quotient that is a number of the format is rounded to this number. -/
theorem roundUnits_of_fits (hprecision : 0 < f.precision) {units num den : Nat}
    (hfits : f.Fits units) (hden : 0 < den) (hexact : num * 2 ^ f.scale = units * den) :
    f.roundUnits num den = units := by
  obtain ⟨mantissa, exponent, hround, hrounds⟩ := exists_roundsTo hprecision num hden
  have hvalue : (num * 2 ^ f.scale / den : ℚ) = units := by
    rw [div_eq_iff (Nat.cast_ne_zero.mpr hden.ne')]
    exact_mod_cast hexact
  rw [hvalue] at hrounds
  rw [hround, hrounds.eq_of_fits hprecision hfits]

theorem fits_of_short {mantissa exponent : Nat} (hshort : mantissa ≤ 2 ^ f.precision)
    (hbelow : f.precision + exponent < f.ceiling) : f.Fits (mantissa * 2 ^ exponent) := by
  refine ⟨⟨mantissa, exponent, hshort, rfl⟩, ?_⟩
  calc mantissa * 2 ^ exponent ≤ 2 ^ f.precision * 2 ^ exponent := Nat.mul_le_mul_right _ hshort
    _ = 2 ^ (f.precision + exponent) := (Nat.pow_add _ _ _).symm
    _ < 2 ^ f.ceiling := Nat.pow_lt_pow_right (by decide) hbelow

theorem round_eq_some {num den : Nat} {magnitude : Magnitude f}
    (hunits : f.roundUnits num den = magnitude.units) : f.round num den = some magnitude := by
  obtain ⟨units, hfits⟩ := magnitude
  obtain rfl : f.roundUnits num den = units := hunits
  exact dif_pos hfits.below

end Format

/-! ### Values of magnitudes -/

namespace Magnitude

variable {f : Format}

def value (magnitude : Magnitude f) : ℚ :=
  magnitude.units / 2 ^ f.scale

theorem value_mul (magnitude : Magnitude f) : magnitude.value * 2 ^ f.scale = magnitude.units :=
  div_mul_cancel₀ _ (by positivity)

/-- The magnitude is off by at most one part in `2 ^ precision`. -/
structure About (magnitude : Magnitude f) (value : ℚ) : Prop where
  low : (2 ^ f.precision - 1) * value ≤ 2 ^ f.precision * magnitude.value
  high : 2 ^ f.precision * magnitude.value ≤ (2 ^ f.precision + 1) * value

end Magnitude

namespace Format

variable {f : Format}

/-- A value is neither too small nor too large to be rounded with a small error. -/
structure Moderate (f : Format) (value : ℚ) : Prop where
  low : 2 ^ f.precision ≤ 2 * (value * 2 ^ f.scale)
  high : 2 * (value * 2 ^ f.scale) < 2 ^ f.ceiling

theorem moderate_of_bounds {least greatest : Nat} {value : ℚ}
    (hleast : f.precision + least ≤ f.scale + 1) (hgreatest : greatest + f.scale + 1 < f.ceiling)
    (hlow : 1 ≤ value * 2 ^ least) (hhigh : value ≤ 2 ^ greatest) : f.Moderate value := by
  constructor
  · have hvalue : 0 ≤ value := by
      by_contra hneg
      have hmul := mul_neg_of_neg_of_pos (not_le.mp hneg) (by positivity : (0 : ℚ) < 2 ^ least)
      linarith
    calc (2 : ℚ) ^ f.precision = 1 * 2 ^ f.precision := (one_mul _).symm
      _ ≤ value * 2 ^ least * 2 ^ f.precision := mul_le_mul_of_nonneg_right hlow (by positivity)
      _ = value * 2 ^ (f.precision + least) := by rw [pow_add]; ring
      _ ≤ value * 2 ^ (f.scale + 1) :=
          mul_le_mul_of_nonneg_left (pow_le_pow_right₀ one_le_two hleast) hvalue
      _ = 2 * (value * 2 ^ f.scale) := by rw [pow_succ]; ring
  · calc 2 * (value * 2 ^ f.scale) ≤ 2 * (2 ^ greatest * 2 ^ f.scale) := by
          have hmul := mul_le_mul_of_nonneg_right hhigh (by positivity : (0 : ℚ) ≤ 2 ^ f.scale)
          linarith
      _ = 2 ^ (greatest + f.scale + 1) := by rw [pow_succ, pow_add]; ring
      _ < 2 ^ f.ceiling := pow_lt_pow_right₀ one_lt_two hgreatest

/-- **A moderate value is rounded with a small error.** -/
theorem exists_about (hprecision : 0 < f.precision) {num den : Nat} (hden : 0 < den)
    (hmoderate : f.Moderate (num / den)) :
    ∃ magnitude, f.round num den = some magnitude ∧ magnitude.About (num / den) := by
  obtain ⟨mantissa, exponent, hround, hrounds⟩ := exists_roundsTo hprecision num hden
  have hunits : ((f.roundUnits num den : Nat) : ℚ) = mantissa * 2 ^ exponent := by
    exact_mod_cast hround
  rw [mul_div_right_comm] at hrounds
  have hvalue : (0 : ℚ) ≤ num / den := by positivity
  generalize (num / den : ℚ) = value at *
  have hbits : (0 : ℚ) < 2 ^ f.precision := by positivity
  have hbits' : (1 : ℚ) ≤ 2 ^ f.precision := one_le_pow₀ one_le_two
  have hunit : (0 : ℚ) < 2 ^ f.scale := by positivity
  have herror : |(f.roundUnits num den - value * 2 ^ f.scale) * 2 ^ f.precision| ≤
      value * 2 ^ f.scale := by
    rw [hunits, abs_mul, abs_of_pos hbits]
    exact hrounds.error_le hmoderate.low
  obtain ⟨hdown, hup⟩ := abs_le.mp herror
  have hbelow : f.roundUnits num den < 2 ^ f.ceiling := by
    have hlt : ((f.roundUnits num den : Nat) : ℚ) < 2 ^ f.ceiling := by
      refine lt_of_le_of_lt ?_ hmoderate.high
      refine le_of_mul_le_mul_right ?_ hbits
      have hmul := mul_le_mul_of_nonneg_left hbits' (mul_nonneg hvalue hunit.le)
      linarith
    exact_mod_cast hlt
  refine ⟨⟨_, f.roundUnits_short num den, hbelow⟩, round_eq_some rfl, ?_, ?_⟩
  · refine le_of_mul_le_mul_right ?_ hunit
    rw [mul_assoc (2 ^ f.precision), Magnitude.value_mul]
    linarith
  · refine le_of_mul_le_mul_right ?_ hunit
    rw [mul_assoc (2 ^ f.precision), Magnitude.value_mul]
    linarith

end Format

end WidgetStyle.Number
