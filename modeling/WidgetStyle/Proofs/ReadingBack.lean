import WidgetStyle.Proofs.NearMisses
import WidgetStyle.Proofs.Narrowing
import WidgetStyle.Proofs.Numerals
import WidgetStyle.Proofs.ShortestDigits

/-!
# Reading shortest decimals back

The shortest decimal of a number of 32 bits reads back if it is rounded once. It is rounded several
times where numbers are exchanged, and the value that is finally rounded is a little off. A midpoint
would have to lie in between for the result to be another one. But then the decimal is near to a
midpoint, and it is one of three decimals for which the reading can be followed, or it is the
midpoint, and then the value is not off at all.
-/

namespace WidgetStyle.Number

namespace Magnitude

variable {magnitude : Magnitude .single} {digits grid : Nat}

/-! ### Counting in quanta -/

/-- `value` is a decimal counted in quanta, and `mantissa` steps of `2 ^ exponent` are the magnitude
it is rounded to. -/
structure Counted (magnitude : Magnitude .single) (digits grid : Nat) (value : ℚ)
    (mantissa exponent : Nat) : Prop where
  decimal : value * 5 ^ 149 = digits * 10 ^ grid
  units : mantissa * 2 ^ exponent = magnitude.units
  rounds : Format.single.RoundsTo value mantissa exponent

theorem Neighbour.exists_counted (hneighbour : magnitude.Neighbour digits grid) :
    ∃ value mantissa exponent, magnitude.Counted digits grid value mantissa exponent := by
  have hunit : 0 < 10 ^ Format.single.scale := by decide
  obtain ⟨mantissa, exponent, hround, hrounds⟩ :=
    Format.exists_roundsTo (f := .single) (by decide) (digits * 10 ^ grid) hunit
  refine ⟨_, mantissa, exponent, ?_, ?_, hrounds⟩
  · change ((digits * 10 ^ grid : Nat) : ℚ) * 2 ^ 149 / (10 ^ 149 : Nat) * 5 ^ 149 = _
    rw [div_mul_eq_mul_div, div_eq_iff (by norm_num), mul_assoc, ← mul_pow]
    push_cast
    norm_num
  · rw [← hround]
    exact beq_iff_eq.mp hneighbour.readsBack

namespace Counted

variable {value : ℚ} {mantissa exponent : Nat}

theorem nonneg (hcounted : magnitude.Counted digits grid value mantissa exponent) : 0 ≤ value := by
  refine nonneg_of_mul_nonneg_left ?_ (by positivity : (0 : ℚ) < 5 ^ 149)
  rw [hcounted.decimal]
  positivity

theorem lt_ceiling (hcounted : magnitude.Counted digits grid value mantissa exponent) :
    value < 2 ^ 277 := by
  refine hcounted.rounds.lt_ceiling (by decide) (by decide) ?_
  rw [hcounted.units]
  exact magnitude.fits.below

theorem one_le_two_mul (hcounted : magnitude.Counted digits grid value mantissa exponent)
    (hunits : magnitude.units ≠ 0) : 1 ≤ 2 * value := by
  refine hcounted.rounds.one_le_two_mul (Nat.pos_of_ne_zero ?_)
  rintro rfl
  exact hunits (hcounted.units.symm.trans (Nat.zero_mul _))

theorem digits_pos (hcounted : magnitude.Counted digits grid value mantissa exponent)
    (hunits : magnitude.units ≠ 0) : 0 < digits := by
  refine Nat.pos_of_ne_zero ?_
  rintro rfl
  have hdecimal := hcounted.decimal
  have hlow := hcounted.one_le_two_mul hunits
  rw [Nat.cast_zero, zero_mul] at hdecimal
  linarith

/-- A word with a power of ten, if it is the decimal. -/
theorem quanta_eq (hcounted : magnitude.Counted digits grid value mantissa exponent) {word : ℚ}
    {power : Int} (hsame : word * 10 ^ power = digits * 10 ^ (grid - 149 : Int)) :
    word * 10 ^ power * 2 ^ 149 = value := by
  have htens : (10 : ℚ) ^ (grid - 149 : Int) * 10 ^ 149 = 10 ^ grid := by
    rw [← zpow_natCast 10 149, ← zpow_add₀ (by norm_num), ← zpow_natCast 10 grid]
    norm_num
  refine mul_right_cancel₀ (by positivity : (5 : ℚ) ^ 149 ≠ 0) ?_
  rw [hcounted.decimal, hsame, mul_assoc, ← mul_pow, mul_assoc,
    show (2 * 5 : ℚ) = 10 by norm_num, htens]

end Counted

/-! ### Midpoints near to the decimal -/

/-- A midpoint, counted in halves of a quantum, that lies between two values and is half a step or
more away from the magnitude. -/
structure Separator (magnitude : Magnitude .single) (value value' : ℚ) (middle step : Nat) :
    Prop where
  short : middle < 2 ^ 25
  full : step = 0 ∨ 2 ^ 24 ≤ middle
  away : 2 * magnitude.units + 2 ^ step ≤ middle * 2 ^ step ∨
    middle * 2 ^ step + 2 ^ step ≤ 2 * magnitude.units
  between : 2 * value ≤ middle * 2 ^ step ∧ (middle * 2 ^ step : ℚ) ≤ 2 * value' ∨
    2 * value' ≤ middle * 2 ^ step ∧ (middle * 2 ^ step : ℚ) ≤ 2 * value

variable {value value' : ℚ} {mantissa exponent mantissa' exponent' middle step : Nat}

/-- **A wrong result has a midpoint on the way to it.** -/
theorem Counted.exists_separator
    (hcounted : magnitude.Counted digits grid value mantissa exponent)
    (hrounds' : Format.single.RoundsTo value' mantissa' exponent')
    (hother : mantissa' * 2 ^ exponent' ≠ magnitude.units) :
    ∃ middle step, magnitude.Separator value value' middle step := by
  rw [← hcounted.units] at hother
  rcases Nat.lt_or_gt_of_ne hother with hless | hmore
  · obtain ⟨middle, step, hmidpoint, hnext, hbetween⟩ :=
      hrounds'.exists_midpoint (by decide) hcounted.rounds hless
    rw [hcounted.units] at hnext
    exact ⟨middle, step, hmidpoint.short, hmidpoint.full, Or.inr hnext, Or.inr hbetween⟩
  · obtain ⟨middle, step, hmidpoint, -, hbetween⟩ :=
      hcounted.rounds.exists_midpoint (by decide) hrounds' hmore
    have hnext := hmidpoint.next
    rw [hcounted.units] at hnext
    exact ⟨middle, step, hmidpoint.short, hmidpoint.full, Or.inl hnext.le, Or.inl hbetween⟩

namespace Separator

theorem nearby (hseparator : magnitude.Separator value value' middle step)
    (hnearby : Nearby value value') (hnonneg : 0 ≤ value) :
    Nearby (2 * value) (middle * 2 ^ step) := by
  have htwice := hnearby.mul_right (zero_le_two (α := ℚ))
  rw [mul_comm value, mul_comm value'] at htwice
  exact htwice.convex (mul_nonneg zero_le_two hnonneg) hseparator.between

theorem step_lt (hseparator : magnitude.Separator value value' middle step)
    (hnearby : Nearby (2 * value) (middle * 2 ^ step)) (hvalue : value < 2 ^ 277) :
    step < 256 := by
  have hlt : (middle * 2 ^ step : ℚ) < 2 ^ (2 + 277) := by
    have hhigh := hnearby.high
    have hnonneg : (0 : ℚ) ≤ middle * 2 ^ step := by positivity
    rw [pow_add]
    calc (middle * 2 ^ step : ℚ) ≤ 2 ^ 2 * value := by linarith
      _ < 2 ^ 2 * 2 ^ 277 := mul_lt_mul_of_pos_left hvalue (by norm_num)
  have hlt' : middle * 2 ^ step < 2 ^ (2 + 277) := by exact_mod_cast hlt
  rcases hseparator.full with hzero | hfull
  · omega
  · have hpow : 2 ^ (24 + step) < 2 ^ (2 + 277) := by
      calc 2 ^ (24 + step) = 2 ^ 24 * 2 ^ step := Nat.pow_add _ _ _
        _ ≤ middle * 2 ^ step := Nat.mul_le_mul_right _ hfull
        _ < 2 ^ (2 + 277) := hlt'
    have hstep := (Nat.pow_lt_pow_iff_right (by decide)).mp hpow
    omega

/-- The decimal is at most one place of its grid away from the magnitude, and the midpoint is half
a step away, so the step is not much larger than the place. -/
theorem coarse (hseparator : magnitude.Separator value value' middle step)
    (hneighbour : magnitude.Neighbour digits grid)
    (hdecimal : value * 5 ^ 149 = digits * 10 ^ grid)
    (hnearby : Nearby (2 * value) (middle * 2 ^ step)) :
    (2 ^ 25 - 1) * (2 ^ step * 5 ^ 149) ≤ 2 ^ 26 * 10 ^ grid := by
  have hless : (digits * 10 ^ grid : ℚ) ≤ magnitude.units * 5 ^ 149 + 10 ^ grid := by
    exact_mod_cast hneighbour.le_exact
  have hmore : (magnitude.units * 5 ^ 149 : ℚ) ≤ digits * 10 ^ grid + 10 ^ grid := by
    exact_mod_cast hneighbour.exact_le
  have hfives : (0 : ℚ) ≤ 5 ^ 149 := by positivity
  have hshort : (middle * 2 ^ step * 5 ^ 149 : ℚ) ≤ 2 ^ 25 * 2 ^ step * 5 ^ 149 := by
    have hmiddle : (middle : ℚ) ≤ 2 ^ 25 := by exact_mod_cast hseparator.short.le
    exact mul_le_mul_of_nonneg_right (mul_le_mul_of_nonneg_right hmiddle (by positivity)) hfives
  obtain ⟨hlow, hhigh⟩ := hnearby.mul_right hfives
  have hcoarse : (2 ^ 25 * (2 ^ step * 5 ^ 149) : ℚ) ≤
      2 ^ 26 * 10 ^ grid + 2 ^ step * 5 ^ 149 := by
    rcases hseparator.away with haway | haway
    · have haway' : (2 * magnitude.units + 2 ^ step : ℚ) * 5 ^ 149 ≤ middle * 2 ^ step * 5 ^ 149 :=
        mul_le_mul_of_nonneg_right (by exact_mod_cast haway) hfives
      linarith
    · have haway' : (middle * 2 ^ step + 2 ^ step : ℚ) * 5 ^ 149 ≤ 2 * magnitude.units * 5 ^ 149 :=
        mul_le_mul_of_nonneg_right (by exact_mod_cast haway) hfives
      linarith
  have hcoarse' : 2 ^ 25 * (2 ^ step * 5 ^ 149) ≤ 2 ^ 26 * 10 ^ grid + 2 ^ step * 5 ^ 149 := by
    exact_mod_cast hcoarse
  rw [Nat.sub_mul, Nat.one_mul]
  exact Nat.sub_le_of_le_add hcoarse'

end Separator

/-- Nearness of whole multiples, in whole numbers. -/
theorem near_of_nearby {num den : Nat} (hnearby : Nearby (num * digits) (middle * den)) :
    Near num den digits middle := by
  have hlow := hnearby.low
  have hhigh := hnearby.high
  have hlow' : (2 ^ 72 * (num * digits) : ℚ) ≤
      2 ^ 72 * (middle * den) + (2 ^ 20 + 1) * (num * digits) := by
    linarith
  constructor
  · rw [Nat.sub_mul]
    refine Nat.sub_le_of_le_add ?_
    exact_mod_cast hlow'
  · exact_mod_cast hhigh

/-- **A wrong result has a midpoint near to the decimal**: if a value near to the decimal is rounded
to another number, then the decimal is near to a midpoint, and it is the midpoint or one of the
three that come close. -/
theorem Counted.eq_or_close (hcounted : magnitude.Counted digits grid value mantissa exponent)
    (hneighbour : magnitude.Neighbour digits grid) (hunits : magnitude.units ≠ 0)
    (hnearby : Nearby value value') (hrounds' : Format.single.RoundsTo value' mantissa' exponent')
    (hother : mantissa' * 2 ^ exponent' ≠ magnitude.units) :
    (∃ middle step : Nat, middle < 2 ^ 25 ∧ step < 256 ∧ 2 * value = middle * 2 ^ step) ∨
      ∃ close ∈ closeDecimals, digits = close.2.1 ∧ grid = close.2.2 := by
  have hfives : (0 : ℚ) < 5 ^ 149 := by positivity
  have hpos := hcounted.digits_pos hunits
  obtain ⟨middle, step, hseparator⟩ := hcounted.exists_separator hrounds' hother
  have hmidpoint := hseparator.nearby hnearby hcounted.nonneg
  have hstep := hseparator.step_lt hmidpoint hcounted.lt_ceiling
  have hcoarse := hseparator.coarse hneighbour hcounted.decimal hmidpoint
  have hdecimal : 2 * value * 5 ^ 149 = (2 * 10 ^ grid : Nat) * digits := by
    rw [mul_assoc, hcounted.decimal]
    push_cast
    ring
  have hmiddle : (middle * 2 ^ step * 5 ^ 149 : ℚ) = middle * (2 ^ step * 5 ^ 149 : Nat) := by
    push_cast
    ring
  have hnear : Near (2 * 10 ^ grid) (2 ^ step * 5 ^ 149) digits middle := by
    refine near_of_nearby ?_
    rw [← hdecimal, ← hmiddle]
    exact hmidpoint.mul_right hfives.le
  rcases Number.eq_or_close hstep hseparator.short hpos hcoarse hnear with hexact | hclose
  · refine Or.inl ⟨middle, step, hseparator.short, hstep, ?_⟩
    refine mul_right_cancel₀ hfives.ne' ?_
    rw [hdecimal, hmiddle]
    exact_mod_cast hexact
  · exact Or.inr hclose

end Magnitude

/-! ### The midpoint itself -/

theorem le_of_five_pow_lt {k : Nat} (hpow : 5 ^ k < 2 ^ 53) : k ≤ 22 := by
  by_contra hlarge
  have hle : 5 ^ 23 ≤ 5 ^ k := Nat.pow_le_pow_right (by decide) (by omega)
  omega

/-- A word scaled to a midpoint is scaled by a small power of ten. -/
theorem natAbs_le_of_midpoint {word middle step : Nat} {power : Int} (hpos : 0 < word)
    (hword : word < 2 ^ 53) (hmiddle : middle < 2 ^ 25)
    (hsame : (word * 10 ^ power * 2 ^ 150 : ℚ) = middle * 2 ^ step) : power.natAbs ≤ 22 := by
  have hcoprime (k n : Nat) : (5 ^ k).Coprime (2 ^ n) := Nat.Coprime.pow k n (by decide)
  rcases le_or_gt 0 power with hnonneg | hneg
  · obtain ⟨k, rfl⟩ := Int.eq_ofNat_of_zero_le hnonneg
    rw [zpow_natCast] at hsame
    have hsame' : word * 10 ^ k * 2 ^ 150 = middle * 2 ^ step := by exact_mod_cast hsame
    have hdvd : 5 ^ k ∣ middle := by
      refine (hcoprime k step).dvd_of_dvd_mul_right ⟨word * 2 ^ k * 2 ^ 150, ?_⟩
      rw [← hsame', show (10 : Nat) = 5 * 2 from rfl, Nat.mul_pow]
      ring
    have hmiddle' : 0 < middle := by
      refine Nat.pos_of_ne_zero ?_
      rintro rfl
      rw [Nat.zero_mul] at hsame'
      have hleft : 0 < word * 10 ^ k * 2 ^ 150 := by positivity
      omega
    have hle := Nat.le_of_dvd hmiddle' hdvd
    rw [Int.natAbs_natCast]
    exact le_of_five_pow_lt (by omega)
  · obtain ⟨k, rfl⟩ := Int.exists_eq_neg_ofNat hneg.le
    rw [zpow_neg, zpow_natCast, mul_assoc, inv_mul_eq_div, mul_div_assoc',
      div_eq_iff (by positivity)] at hsame
    have hsame' : word * 2 ^ 150 = middle * 2 ^ step * 10 ^ k := by exact_mod_cast hsame
    have hdvd : 5 ^ k ∣ word := by
      refine (hcoprime k 150).dvd_of_dvd_mul_right ⟨middle * 2 ^ step * 2 ^ k, ?_⟩
      rw [hsame', show (10 : Nat) = 5 * 2 from rfl, Nat.mul_pow]
      ring
    have hle := Nat.le_of_dvd hpos hdvd
    rw [Int.natAbs_neg, Int.natAbs_natCast]
    exact le_of_five_pow_lt (by omega)

/-! ### Reading -/

/-- The reading of a word with a power of ten, up to the last rounding. -/
def widen? (word : Nat) (power : Int) : Option Wide :=
  (Wide.ofRatio? word 1).bind fun number => number.scale? power

theorem widen_close : ∀ close ∈ closeDecimals,
    (widen? close.2.1 (close.2.2 - 149)).map (fun number =>
      Format.single.roundUnits number.units (2 ^ Format.double.scale)) =
      some (Format.single.roundUnits (close.2.1 * 10 ^ close.2.2) (10 ^ 149)) := by
  decide +kernel

/-- A number of 64 bits that is the decimal itself is rounded as the decimal is. -/
theorem roundUnits_of_exact {scaled : Wide} {value : ℚ} {digits grid : Nat}
    (hexact : scaled.value * 2 ^ 149 = value) (hvalue : value * 5 ^ 149 = digits * 10 ^ grid) :
    Format.single.roundUnits scaled.units (2 ^ Format.double.scale) =
      Format.single.roundUnits (digits * 10 ^ grid) (10 ^ Format.single.scale) := by
  refine Format.roundUnits_congr (Nat.two_pow_pos _) (Nat.pow_pos (by decide)) ?_
  have hunits := scaled.value_mul
  have hsame : (scaled.units * 10 ^ Format.single.scale : ℚ) =
      digits * 10 ^ grid * 2 ^ Format.double.scale := by
    rw [← hvalue, ← hexact, ← hunits, show (10 : ℚ) = 2 * 5 by norm_num, mul_pow]
    change _ * (2 ^ 149 * 5 ^ 149) = _
    ring
  exact_mod_cast hsame

theorem Wide.exists_roundsTo (scaled : Wide) : ∃ mantissa exponent,
    Format.single.roundUnits scaled.units (2 ^ Format.double.scale) = mantissa * 2 ^ exponent ∧
      Format.single.RoundsTo (scaled.value * 2 ^ 149) mantissa exponent := by
  obtain ⟨mantissa, exponent, hround, hrounds⟩ :=
    Format.exists_roundsTo (f := .single) (by decide) scaled.units
      (Nat.two_pow_pos Format.double.scale)
  have hvalue : (scaled.units * 2 ^ Format.single.scale / (2 ^ Format.double.scale : Nat) : ℚ) =
      scaled.value * 2 ^ 149 := by
    rw [Magnitude.value, mul_div_right_comm]
    push_cast
    rfl
  rw [hvalue] at hrounds
  exact ⟨mantissa, exponent, hround, hrounds⟩

namespace Magnitude.Counted

variable {magnitude : Magnitude .single} {digits grid mantissa exponent word : Nat} {value : ℚ}
  {power : Int}

theorem word_pos (hcounted : magnitude.Counted digits grid value mantissa exponent)
    (hunits : magnitude.units ≠ 0) (hsame : word * 10 ^ power * 2 ^ 149 = value) : 0 < word := by
  refine Nat.pos_of_ne_zero ?_
  rintro rfl
  have hlow := hcounted.one_le_two_mul hunits
  rw [Nat.cast_zero, zero_mul, zero_mul] at hsame
  linarith

/-- The value is moderate, so that the word can be scaled to it. -/
theorem exists_widen (hcounted : magnitude.Counted digits grid value mantissa exponent)
    (hunits : magnitude.units ≠ 0) (hword : word < 2 ^ 53) (hpower : power.natAbs ≤ 300)
    (hsame : word * 10 ^ power * 2 ^ 149 = value) :
    ∃ scaled, widen? word power = some scaled ∧ Nearby value (scaled.value * 2 ^ 149) := by
  have hpos : (0 : ℚ) < word := by exact_mod_cast hcounted.word_pos hunits hsame
  have hlow : 1 ≤ word * 10 ^ power * (2 ^ 200 : ℚ) := by
    calc 1 ≤ 2 * value := hcounted.one_le_two_mul hunits
      _ ≤ value * 2 ^ 51 := by linarith [hcounted.nonneg]
      _ = word * 10 ^ power * 2 ^ 200 := by
          rw [← hsame]
          ring
  have hhigh : word * 10 ^ power ≤ (2 ^ 200 : ℚ) := by
    refine le_of_mul_le_mul_right ?_ (by positivity : (0 : ℚ) < 2 ^ 149)
    rw [hsame, ← pow_add]
    exact hcounted.lt_ceiling.le.trans (pow_le_pow_right₀ one_le_two (by decide))
  obtain ⟨number, hnumber, hvalue⟩ := Wide.exists_word hword.le
  rw [← hvalue] at hpos hlow hhigh hsame
  obtain ⟨scaled, hscaled, hnearby⟩ := Wide.exists_nearby hpos hpower hlow hhigh
  refine ⟨scaled, ?_, ?_⟩
  · rw [widen?, hnumber, Option.bind_some, hscaled]
  · rw [← hsame]
    exact hnearby.mul_right (by positivity)

/-- On a midpoint nothing is lost. -/
theorem exists_widen_exact (hcounted : magnitude.Counted digits grid value mantissa exponent)
    (hunits : magnitude.units ≠ 0) (hword : word < 2 ^ 53)
    (hsame : word * 10 ^ power * 2 ^ 149 = value) {middle step : Nat} (hmiddle : middle < 2 ^ 25)
    (hstep : step < 256) (hmidpoint : 2 * value = middle * 2 ^ step) :
    ∃ scaled, widen? word power = some scaled ∧ scaled.value * 2 ^ 149 = value := by
  have hmidpoint' : word * 10 ^ power * 2 ^ 150 = (middle * 2 ^ step : ℚ) := by
    rw [← hmidpoint, ← hsame]
    ring
  have hpower := natAbs_le_of_midpoint (hcounted.word_pos hunits hsame) hword hmiddle hmidpoint'
  have hexact : word * 10 ^ power * 2 ^ Format.double.scale =
      (middle * 2 ^ (step + 924) : ℚ) := by
    rw [pow_add, ← mul_assoc, ← hmidpoint', mul_assoc _ (2 ^ 150), ← pow_add]
    rfl
  obtain ⟨number, hnumber, hvalue⟩ := Wide.exists_word hword.le
  rw [← hvalue] at hexact hsame
  obtain ⟨scaled, hscaled, hvalue'⟩ :=
    Wide.exists_scale_exact hpower (hmiddle.le.trans (by decide)) (by omega) hexact
  refine ⟨scaled, ?_, ?_⟩
  · rw [widen?, hnumber, Option.bind_some, hscaled]
  · rw [hvalue', hsame]

end Magnitude.Counted

/-- **The shortest decimal reads back**, whatever word and power of ten it is read as, if the word
fits the wider format. For the three decimals that come close to a midpoint the word has to be that
of the digits. -/
theorem Magnitude.Short.exists_widened {magnitude : Magnitude .single} {digits grid word : Nat}
    {power : Int} (hshort : magnitude.Short digits grid) (hunits : magnitude.units ≠ 0)
    (hword : word < 2 ^ 53) (hpower : power.natAbs ≤ 300)
    (hsame : (word * 10 ^ power : ℚ) = digits * 10 ^ (grid - 149 : Int))
    (hclose : (∃ close ∈ closeDecimals, digits = close.2.1 ∧ grid = close.2.2) →
      word = digits ∧ power = grid - 149) :
    ∃ number, widen? word power = some number ∧
      Format.single.roundUnits number.units (2 ^ Format.double.scale) = magnitude.units := by
  obtain ⟨value, mantissa, exponent, hcounted⟩ := hshort.toNeighbour.exists_counted
  have hreads := beq_iff_eq.mp hshort.readsBack
  have hquanta := hcounted.quanta_eq hsame
  obtain ⟨scaled, hwiden, hnearby⟩ := hcounted.exists_widen hunits hword hpower hquanta
  refine ⟨scaled, hwiden, ?_⟩
  by_contra hother
  obtain ⟨mantissa', exponent', hround', hrounds'⟩ := scaled.exists_roundsTo
  have hother' := hround' ▸ hother
  rcases hcounted.eq_or_close hshort.toNeighbour hunits hnearby hrounds' hother' with
    ⟨middle, step, hmiddle, hstep, hmidpoint⟩ | hhard
  · -- the decimal is the midpoint, and nothing is lost on the way
    obtain ⟨exact, hexact, hvalue⟩ :=
      hcounted.exists_widen_exact hunits hword hquanta hmiddle hstep hmidpoint
    obtain rfl := Option.some.inj (hwiden.symm.trans hexact)
    exact hother ((roundUnits_of_exact hvalue hcounted.decimal).trans hreads)
  · obtain ⟨rfl, rfl⟩ := hclose hhard
    obtain ⟨close, hmem, rfl, rfl⟩ := hhard
    have hsettled := widen_close close hmem
    rw [hwiden] at hsettled
    exact hother ((Option.some.inj hsettled).trans hreads)

/-! ### Numbers in exchanged texts -/

theorem Numeral.exchanged?_of_fits {numeral : Numeral} (hpoint : numeral.isWhole = false)
    (hfits : Digit.value numeral.digits < UInt64.size) :
    numeral.exchanged? = (widen? (Digit.value numeral.digits) numeral.power).map fun number =>
      number.narrow numeral.negative := by
  have hnone : numeral.word? = none := by
    rw [Numeral.word?, if_neg (fun hboth => absurd hboth.1 (by rw [hpoint]; decide))]
  rw [Numeral.exchanged?, hnone]
  simp only [Collected.ofNumeral_of_fits hfits]
  rfl

/-- As an equation of functions, so that no rounding is unfolded to compare its sides. -/
theorem Single.ofRatio_eq_elim : ofRatio = fun negative num den =>
    (Format.single.round num den).elim (infinite negative) (finite negative) := by
  delta ofRatio
  funext negative num den
  generalize Format.single.round num den = rounded
  cases rounded <;> rfl

theorem Single.ofRatio_of_round (negative : Bool) {num den : Nat} {magnitude : Magnitude .single}
    (hround : Format.single.round num den = some magnitude) :
    ofRatio negative num den = .finite negative magnitude := by
  rw [ofRatio_eq_elim]
  simp only [hround, Option.elim_some]

theorem Wide.narrow_eq (negative : Bool) {number : Wide} {magnitude : Magnitude .single}
    (hunits : Format.single.roundUnits number.units (2 ^ Format.double.scale) = magnitude.units) :
    number.narrow negative = .finite negative magnitude :=
  Single.ofRatio_of_round negative (Format.round_eq_some hunits)

/-- The power of a shortest decimal is moderate. -/
theorem Magnitude.Short.grid_lt {magnitude : Magnitude .single} {digits grid : Nat}
    (hshort : magnitude.Short digits grid) (hdigits : 0 < digits) : grid < 449 := by
  obtain ⟨value, mantissa, exponent, hcounted⟩ := hshort.toNeighbour.exists_counted
  have hlt : (10 ^ grid : ℚ) < 10 ^ (277 + 149) := by
    calc (10 ^ grid : ℚ) ≤ digits * 10 ^ grid :=
          le_mul_of_one_le_left (by positivity) (by exact_mod_cast hdigits)
      _ = value * 5 ^ 149 := hcounted.decimal.symm
      _ < 2 ^ 277 * 5 ^ 149 := mul_lt_mul_of_pos_right hcounted.lt_ceiling (by positivity)
      _ ≤ 10 ^ 277 * 10 ^ 149 := by gcongr <;> norm_num
      _ = 10 ^ (277 + 149) := (pow_add _ _ _).symm
  have hgrid := (pow_lt_pow_iff_right₀ (by norm_num)).mp hlt
  omega

theorem Magnitude.Short.exists_exchanged {magnitude : Magnitude .single} {digits grid : Nat}
    (hshort : magnitude.Short digits grid) (hunits : magnitude.units ≠ 0) (hdigits : 0 < digits)
    {numeral : Numeral} (hwrites : numeral.Writes digits (grid - 149)) :
    numeral.exchanged? = some (.finite numeral.negative magnitude) := by
  have hfew : digits < 2 ^ 53 := lt_of_le_of_lt hshort.few (by decide)
  have hgrid := hshort.grid_lt hdigits
  obtain ⟨number, hnumber, hnarrow⟩ : ∃ number,
      widen? (Digit.value numeral.digits) numeral.power = some number ∧
        Format.single.roundUnits number.units (2 ^ Format.double.scale) = magnitude.units := by
    rcases hwrites.same with ⟨hword, hpower⟩ | ⟨hnonneg, hword, hsmall, hpower⟩
    · rw [hword, hpower]
      exact hshort.exists_widened hunits hfew (by omega) rfl fun _ => ⟨rfl, rfl⟩
    · have hword' : Digit.value numeral.digits < 2 ^ 53 := lt_trans hsmall (by decide)
      refine hshort.exists_widened hunits hword' (by omega) ?_ ?_
      · have hpower' : (grid - 149 : Int) = (grid - 149 : Int).toNat := by omega
        rw [hword, hpower, hpower', zpow_natCast, Int.toNat_natCast, zpow_neg_one, Nat.cast_mul,
          Nat.cast_pow, pow_succ, mul_assoc, mul_assoc]
        norm_num
      · -- the three are fractions
        rintro ⟨close, hmem, -, rfl⟩
        have hfraction : ∀ close ∈ closeDecimals, close.2.2 < 149 := by decide
        have hless := hfraction close hmem
        omega
  have hfits : Digit.value numeral.digits < UInt64.size := by
    rcases hwrites.same with ⟨hword, -⟩ | ⟨-, -, hsmall, -⟩
    · rw [hword]
      exact lt_trans hfew (by decide)
    · exact lt_trans hsmall (by decide)
  rw [Numeral.exchanged?_of_fits hwrites.notWhole hfits, hnumber, Option.map_some,
    Wide.narrow_eq _ hnarrow]

theorem exchanged?_zero (negative : Bool) :
    Numeral.exchanged? ⟨negative, [.zero], [.zero], none⟩ =
      some (.finite negative (.zero .single)) := by
  cases negative <;> decide +kernel

/-- The numeral of a magnitude in an exchanged text. -/
theorem exists_writes (negative : Bool) (magnitude : Magnitude .single) :
    ∃ digits power, (Layout.exchange.ofMagnitude negative magnitude).Writes digits power := by
  by_cases hunits : magnitude.units = 0
  · have hshortest : magnitude.shortest .even = ⟨0, 0⟩ := if_pos hunits
    refine ⟨0, 0, ?_⟩
    rw [Layout.ofMagnitude, show Layout.exchange.tie = .even from rfl, hshortest]
    exact Layout.writes_zero negative
  · obtain ⟨digits, grid, hshortest, hshort, hpos⟩ :=
      Magnitude.exists_short_of_shortest (by decide) .even hunits
    refine ⟨digits, grid - Format.single.scale, ?_⟩
    rw [Layout.ofMagnitude, show Layout.exchange.tie = .even from rfl, hshortest]
    exact Layout.writes_numeral negative hpos _

/-- **Exchanged numbers read back**: what is written for a finite number is read as that number. -/
theorem exchanged?_ofMagnitude (negative : Bool) (magnitude : Magnitude .single) :
    (Layout.exchange.ofMagnitude negative magnitude).exchanged? =
      some (.finite negative magnitude) := by
  by_cases hunits : magnitude.units = 0
  · have hshortest : magnitude.shortest .even = ⟨0, 0⟩ := if_pos hunits
    have hzero : magnitude = .zero .single := by
      obtain ⟨units, hfits⟩ := magnitude
      obtain rfl : units = 0 := hunits
      rfl
    rw [Layout.ofMagnitude, show Layout.exchange.tie = .even from rfl, hshortest,
      Layout.numeral_zero, exchanged?_zero, hzero]
  · obtain ⟨digits, grid, hshortest, hshort, hpos⟩ :=
      Magnitude.exists_short_of_shortest (by decide) .even hunits
    have hwrites := Layout.writes_numeral negative hpos (grid - Format.single.scale)
    have hexchanged := hshort.exists_exchanged hunits hpos hwrites
    rw [Layout.negative_numeral] at hexchanged
    rw [Layout.ofMagnitude, show Layout.exchange.tie = .even from rfl, hshortest]
    exact hexchanged

end WidgetStyle.Number
