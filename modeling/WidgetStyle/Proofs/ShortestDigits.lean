import WidgetStyle.Number.Layout
import WidgetStyle.Proofs.Numerals
import WidgetStyle.Proofs.Rounding

/-!
# Shortest decimals

What the search for the shortest decimal finds reads back, and it is one of the two neighbours of
the magnitude on its grid. It has few digits, since the search has come from a coarser grid on which
nothing reads back: there the lower neighbour is on the other side of a midpoint, so the grid is as
coarse as half a step of the format.
-/

namespace WidgetStyle.Number

namespace Magnitude

variable {f : Format} {magnitude : Magnitude f}

/-- A neighbour of the magnitude on a decimal grid that reads back. -/
structure Neighbour (magnitude : Magnitude f) (digits grid : Nat) : Prop where
  readsBack : magnitude.readsBack digits grid = true
  le_exact : digits * 10 ^ grid ≤ magnitude.exact + 10 ^ grid
  exact_le : magnitude.exact ≤ digits * 10 ^ grid + 10 ^ grid

theorem readsBack_exact (hprecision : 0 < f.precision) (magnitude : Magnitude f) :
    magnitude.readsBack magnitude.exact 0 = true := by
  refine beq_iff_eq.mpr (Format.roundUnits_of_fits hprecision magnitude.fits ?_ ?_)
  · exact Nat.pow_pos (by decide)
  · rw [Nat.pow_zero, Nat.mul_one, exact, Nat.mul_assoc, ← Nat.mul_pow]

theorem exact_value (magnitude : Magnitude f) :
    (magnitude.exact * 2 ^ f.scale / (10 ^ f.scale : Nat) : ℚ) = magnitude.units := by
  have hunit : ((10 ^ f.scale : Nat) : ℚ) ≠ 0 := by positivity
  rw [div_eq_iff hunit]
  have hexact : magnitude.exact * 2 ^ f.scale = magnitude.units * 10 ^ f.scale := by
    rw [exact, Nat.mul_assoc, ← Nat.mul_pow]
  exact_mod_cast hexact

theorem exists_roundsTo_self (hprecision : 0 < f.precision) (magnitude : Magnitude f) :
    ∃ mantissa exponent, mantissa * 2 ^ exponent = magnitude.units ∧
      f.RoundsTo magnitude.units mantissa exponent := by
  have hunit : 0 < 10 ^ f.scale := Nat.pow_pos (by decide)
  obtain ⟨mantissa, exponent, hround, hrounds⟩ :=
    f.exists_roundsTo hprecision magnitude.exact hunit
  have hself := readsBack_exact hprecision magnitude
  rw [readsBack, Nat.pow_zero, Nat.mul_one, beq_iff_eq, hround] at hself
  rw [magnitude.exact_value] at hrounds
  exact ⟨mantissa, exponent, hself, hrounds⟩

/-- A lower value with another result is separated from the magnitude by half a step. -/
theorem exists_midpoint_below (hprecision : 0 < f.precision) {value : ℚ} {mantissa exponent : Nat}
    (hrounds : f.RoundsTo value mantissa exponent) (hbelow : value ≤ magnitude.units)
    (hother : mantissa * 2 ^ exponent ≠ magnitude.units) :
    ∃ middle step : Nat, middle < 2 ^ (f.precision + 1) ∧ 2 * value ≤ middle * 2 ^ step ∧
      (middle * 2 ^ step + 2 ^ step : ℚ) ≤ 2 * magnitude.units := by
  obtain ⟨mantissa', exponent', hself, hrounds'⟩ := exists_roundsTo_self hprecision magnitude
  rw [← hself] at hother
  rcases Nat.lt_or_gt_of_ne hother with hless | hmore
  · obtain ⟨middle, step, hmidpoint, hnext, hbefore, -⟩ :=
      hrounds.exists_midpoint hprecision hrounds' hless
    rw [hself] at hnext
    exact ⟨middle, step, hmidpoint.short, hbefore, by exact_mod_cast hnext⟩
  · -- a lower value is not rounded above
    obtain ⟨middle, step, hmidpoint, -, -, habove⟩ :=
      hrounds'.exists_midpoint hprecision hrounds hmore
    have hnext : 2 * (magnitude.units : ℚ) + 2 ^ step = middle * 2 ^ step := by
      have hnext := hmidpoint.next
      rw [hself] at hnext
      exact_mod_cast hnext
    have hstep : (0 : ℚ) < 2 ^ step := by positivity
    linarith

/-- **Only on a coarse grid nothing reads back.** -/
theorem exact_le_of_not_readsBack (hprecision : 0 < f.precision) {grid : Nat}
    (hnot : magnitude.readsBack (magnitude.exact / 10 ^ grid) grid = false) :
    magnitude.exact ≤ (2 ^ (f.precision + 1) + 1) * 10 ^ grid := by
  have hfloor : magnitude.exact / 10 ^ grid * 10 ^ grid ≤ magnitude.exact :=
    Nat.div_mul_le_self _ _
  have hceil : magnitude.exact < magnitude.exact / 10 ^ grid * 10 ^ grid + 10 ^ grid :=
    Nat.lt_div_mul_add (Nat.pow_pos (by decide))
  rw [readsBack, beq_eq_false_iff_ne] at hnot
  generalize magnitude.exact / 10 ^ grid * 10 ^ grid = below at *
  have hunit : 0 < 10 ^ f.scale := Nat.pow_pos (by decide)
  obtain ⟨mantissa, exponent, hbelow, hrounds⟩ := f.exists_roundsTo hprecision below hunit
  rw [hbelow] at hnot
  -- values are compared in steps of the decimal grid instead of quanta
  have hvalue := magnitude.exact_value
  rw [mul_div_assoc] at hrounds hvalue
  have hfactor : (0 : ℚ) < 2 ^ f.scale / (10 ^ f.scale : Nat) := by positivity
  generalize (2 ^ f.scale / (10 ^ f.scale : Nat) : ℚ) = factor at *
  have hfloor' : (below : ℚ) * factor ≤ magnitude.units := by
    rw [← hvalue]
    exact mul_le_mul_of_nonneg_right (by exact_mod_cast hfloor) hfactor.le
  have hceil' : (magnitude.units : ℚ) ≤ below * factor + (10 ^ grid : Nat) * factor := by
    rw [← hvalue, ← add_mul]
    exact mul_le_mul_of_nonneg_right (by exact_mod_cast hceil.le) hfactor.le
  obtain ⟨middle, step, hshort, hbefore, hnext⟩ :=
    exists_midpoint_below hprecision hrounds hfloor' hnot
  have hstep : (0 : ℚ) < 2 ^ step := by positivity
  have hcoarse : (2 : ℚ) ^ step ≤ 2 * ((10 ^ grid : Nat) * factor) := by linarith
  have hshort' : (middle : ℚ) * 2 ^ step ≤ 2 ^ (f.precision + 1) * 2 ^ step :=
    mul_le_mul_of_nonneg_right (by exact_mod_cast hshort.le) hstep.le
  have hbits : (0 : ℚ) ≤ 2 ^ (f.precision + 1) := by positivity
  have hcoarse' := mul_le_mul_of_nonneg_left hcoarse hbits
  have hle : (magnitude.exact : ℚ) * factor ≤
      (2 ^ (f.precision + 1) + 1) * (10 ^ grid : Nat) * factor := by linarith
  have hle' := le_of_mul_le_mul_right hle hfactor
  exact_mod_cast hle'

/-! ### The search -/

theorem neighbour_below {grid : Nat}
    (hreads : magnitude.readsBack (magnitude.exact / 10 ^ grid) grid = true) :
    magnitude.Neighbour (magnitude.exact / 10 ^ grid) grid := by
  have hsplit := Nat.div_add_mod' magnitude.exact (10 ^ grid)
  have hmod := Nat.mod_lt magnitude.exact (Nat.pow_pos (by decide) : 0 < 10 ^ grid)
  exact ⟨hreads, by omega, by omega⟩

theorem neighbour_above {grid : Nat}
    (hreads : magnitude.readsBack (magnitude.exact / 10 ^ grid + 1) grid = true) :
    magnitude.Neighbour (magnitude.exact / 10 ^ grid + 1) grid := by
  have hsplit := Nat.div_add_mod' magnitude.exact (10 ^ grid)
  have hmod := Nat.mod_lt magnitude.exact (Nat.pow_pos (by decide) : 0 < 10 ^ grid)
  refine ⟨hreads, ?_, ?_⟩
  · rw [Nat.add_mul]
    omega
  · rw [Nat.add_mul]
    omega

theorem nearer_cases (tie : Tie) (exact below step : Nat) :
    nearer tie exact below step = below ∨ nearer tie exact below step = below + 1 := by
  unfold nearer
  split
  · exact Or.inl rfl
  · split
    · exact Or.inr rfl
    · split
      · exact Or.inr rfl
      · split
        · exact Or.inl rfl
        · exact Or.inr rfl

theorem neighbour_of_onGrid {tie : Tie} {grid digits : Nat}
    (hfound : magnitude.onGrid tie grid = some digits) :
    magnitude.Neighbour digits grid ∧ digits ≤ magnitude.exact / 10 ^ grid + 1 := by
  simp only [onGrid] at hfound
  split at hfound
  · next hbelow habove =>
    cases hfound
    rcases nearer_cases tie magnitude.exact (magnitude.exact / 10 ^ grid) (10 ^ grid) with
      hlow | hhigh
    · rw [hlow]
      exact ⟨neighbour_below hbelow, Nat.le_succ _⟩
    · rw [hhigh]
      exact ⟨neighbour_above habove, le_refl _⟩
  · next hbelow habove =>
    cases hfound
    exact ⟨neighbour_below hbelow, Nat.le_succ _⟩
  · next hbelow habove =>
    cases hfound
    exact ⟨neighbour_above habove, le_refl _⟩
  · cases hfound

theorem not_readsBack_of_onGrid {tie : Tie} {grid : Nat}
    (hnone : magnitude.onGrid tie grid = none) :
    magnitude.readsBack (magnitude.exact / 10 ^ grid) grid = false := by
  simp only [onGrid] at hnone
  split at hnone
  · cases hnone
  · cases hnone
  · cases hnone
  · next hbelow habove => exact hbelow

/-- A neighbour with few digits. -/
structure Short (magnitude : Magnitude f) (digits grid : Nat) : Prop
    extends magnitude.Neighbour digits grid where
  few : digits ≤ 10 * (2 ^ (f.precision + 1) + 1) + 1

/-- The search starts on a grid that is coarse, and goes on from a grid on which nothing reads
back. -/
theorem exists_short_of_search (hprecision : 0 < f.precision) (tie : Tie) (grid : Nat)
    (hcoarse : magnitude.exact ≤ (2 ^ (f.precision + 1) + 1) * 10 ^ (grid + 1)) :
    ∃ digits place : Nat, magnitude.search tie grid = ⟨digits, place - f.scale⟩ ∧
      magnitude.Short digits place := by
  have hfew (grid : Nat)
      (hcoarse : magnitude.exact ≤ (2 ^ (f.precision + 1) + 1) * 10 ^ (grid + 1)) :
      magnitude.exact / 10 ^ grid ≤ 10 * (2 ^ (f.precision + 1) + 1) := by
    refine Nat.div_le_of_le_mul (hcoarse.trans_eq ?_)
    rw [Nat.pow_succ, Nat.mul_comm 10, Nat.mul_comm _ 10, ← Nat.mul_assoc, Nat.mul_comm]
    ring
  induction grid with
  | zero =>
    refine ⟨magnitude.exact, 0, by simp [search],
      ⟨readsBack_exact hprecision magnitude, ?_, ?_⟩, ?_⟩
    · omega
    · omega
    · omega
  | succ grid ih =>
    rw [search]
    split
    · next digits hfound =>
      obtain ⟨hneighbour, hdigits⟩ := neighbour_of_onGrid hfound
      exact ⟨digits, grid + 1, rfl, hneighbour, hdigits.trans (Nat.succ_le_succ (hfew _ hcoarse))⟩
    · next hnone =>
      exact ih (exact_le_of_not_readsBack hprecision (not_readsBack_of_onGrid hnone))

theorem not_readsBack_zero (hprecision : 0 < f.precision) (hunits : magnitude.units ≠ 0)
    (grid : Nat) : magnitude.readsBack 0 grid = false := by
  have hzero : f.roundUnits (0 * 10 ^ grid) (10 ^ f.scale) = 0 := by
    refine Format.roundUnits_of_fits hprecision (zero f).fits (Nat.pow_pos (by decide)) ?_
    rw [Nat.zero_mul, Nat.zero_mul]
    exact (Nat.zero_mul _).symm
  rw [readsBack, hzero, beq_eq_false_iff_ne]
  exact hunits.symm

/-- **The shortest decimal** of a magnitude other than zero is a neighbour of it that reads back,
with few digits. -/
theorem exists_short_of_shortest (hprecision : 0 < f.precision) (tie : Tie)
    (hunits : magnitude.units ≠ 0) :
    ∃ digits grid : Nat, magnitude.shortest tie = ⟨digits, grid - f.scale⟩ ∧
      magnitude.Short digits grid ∧ 0 < digits := by
  have hcoarse : magnitude.exact ≤
      (2 ^ (f.precision + 1) + 1) * 10 ^ ((Digit.ofNat magnitude.exact).length + 1) := by
    calc magnitude.exact ≤ 10 ^ (Digit.ofNat magnitude.exact).length :=
          (Digit.lt_pow_length_ofNat magnitude.exact).le
      _ ≤ 10 ^ ((Digit.ofNat magnitude.exact).length + 1) :=
          Nat.pow_le_pow_right (by decide) (Nat.le_succ _)
      _ ≤ _ := Nat.le_mul_of_pos_left _ (Nat.succ_pos _)
  obtain ⟨digits, grid, hsearch, hshort⟩ := exists_short_of_search hprecision tie _ hcoarse
  refine ⟨digits, grid, ?_, hshort, ?_⟩
  · rw [shortest, if_neg hunits, hsearch]
  · refine Nat.pos_of_ne_zero ?_
    rintro rfl
    have hreads := hshort.readsBack
    rw [not_readsBack_zero hprecision hunits] at hreads
    cases hreads

end Magnitude

end WidgetStyle.Number
