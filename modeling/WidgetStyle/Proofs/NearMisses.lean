import Mathlib.Data.Nat.GCD.Basic
import Mathlib.Tactic.Linarith
import Mathlib.Tactic.Ring
import WidgetStyle.Number.Rounding

/-!
# Short decimals close to midpoints

A decimal that is not a midpoint of the format of 32 bits may still come close to one. How close
is a question about two whole numbers, the digits and the steps of the midpoint, whose quotient has
to be near a fixed one for each power of two. If the quotient lies between two fractions that are
next to each other, the two whole numbers are at least the sums of their parts
(`parts_le_of_between`), and these are soon too large. The two fractions are found by the Euclidean
algorithm and checked, for one power of two after the other. It turns out that within one part in
`2 ^ 52` of a midpoint there are no decimals of the digits in question, up to three.
-/

namespace WidgetStyle.Number

/-! ### Fractions between fractions -/

/-- A fraction between two that are next to each other has larger parts. -/
theorem parts_le_of_between {a b c d m s : Nat} (hnext : b * c = a * d + 1)
    (hleft : a * s < m * b) (hright : m * d < c * s) : a + c ≤ m ∧ b + d ≤ s := by
  have hleft' (k : Nat) : k * (a * s + 1) ≤ k * (m * b) := Nat.mul_le_mul_left k hleft
  have hright' (k : Nat) : k * (m * d + 1) ≤ k * (c * s) := Nat.mul_le_mul_left k hright
  constructor
  · have hsplit : b * c * m = a * d * m + m := by rw [hnext]; ring
    linarith [hleft' c, hright' a]
  · have hsplit : b * c * s = a * d * s + s := by rw [hnext]; ring
    linarith [hleft' d, hright' b]

/-- `digits * num` is within one part in `2 ^ 52`, or a little more, of `middle * den`. -/
structure Near (num den digits middle : Nat) : Prop where
  low : (2 ^ 72 - (2 ^ 20 + 1)) * (num * digits) ≤ 2 ^ 72 * (middle * den)
  high : 2 ^ 72 * (middle * den) ≤ (2 ^ 72 + (2 ^ 20 + 1)) * (num * digits)

/-- The fraction lies below all that are near `num / den`. -/
def Under (num den : Nat) (fraction : Nat × Nat) : Prop :=
  2 ^ 72 * (fraction.1 * den) < (2 ^ 72 - (2 ^ 20 + 1)) * (num * fraction.2)

/-- The fraction lies above all that are near `num / den`. -/
def Over (num den : Nat) (fraction : Nat × Nat) : Prop :=
  (2 ^ 72 + (2 ^ 20 + 1)) * (num * fraction.2) < 2 ^ 72 * (fraction.1 * den)

/-- Two fractions are next to each other, and what lies between them has a part that is too
large. -/
def Adjacent (left right : Nat × Nat) : Prop :=
  left.2 * right.1 = left.1 * right.2 + 1 ∧
    (2 ^ 25 ≤ left.1 + right.1 ∨ 2 ^ 25 < left.2 + right.2)

instance (num den : Nat) (fraction : Nat × Nat) : Decidable (Under num den fraction) :=
  inferInstanceAs (Decidable (_ < _))

instance (num den : Nat) (fraction : Nat × Nat) : Decidable (Over num den fraction) :=
  inferInstanceAs (Decidable (_ < _))

instance (left right : Nat × Nat) : Decidable (Adjacent left right) :=
  inferInstanceAs (Decidable (_ ∧ _))

section

variable {num den digits middle : Nat}

theorem Under.lt {fraction : Nat × Nat} (hunder : Under num den fraction)
    (hnear : Near num den digits middle) (hdigits : 0 < digits) :
    fraction.1 * digits < middle * fraction.2 := by
  refine Nat.lt_of_mul_lt_mul_left (a := 2 ^ 72 * den) ?_
  calc 2 ^ 72 * den * (fraction.1 * digits) = 2 ^ 72 * (fraction.1 * den) * digits := by ring
    _ < (2 ^ 72 - (2 ^ 20 + 1)) * (num * fraction.2) * digits :=
        Nat.mul_lt_mul_of_pos_right hunder hdigits
    _ = (2 ^ 72 - (2 ^ 20 + 1)) * (num * digits) * fraction.2 := by ring
    _ ≤ 2 ^ 72 * (middle * den) * fraction.2 := Nat.mul_le_mul_right _ hnear.low
    _ = 2 ^ 72 * den * (middle * fraction.2) := by ring

theorem Over.lt {fraction : Nat × Nat} (hover : Over num den fraction)
    (hnear : Near num den digits middle) (hdigits : 0 < digits) :
    middle * fraction.2 < fraction.1 * digits := by
  refine Nat.lt_of_mul_lt_mul_left (a := 2 ^ 72 * den) ?_
  calc 2 ^ 72 * den * (middle * fraction.2) = 2 ^ 72 * (middle * den) * fraction.2 := by ring
    _ ≤ (2 ^ 72 + (2 ^ 20 + 1)) * (num * digits) * fraction.2 := Nat.mul_le_mul_right _ hnear.high
    _ = (2 ^ 72 + (2 ^ 20 + 1)) * (num * fraction.2) * digits := by ring
    _ < 2 ^ 72 * (fraction.1 * den) * digits := Nat.mul_lt_mul_of_pos_right hover hdigits
    _ = 2 ^ 72 * den * (fraction.1 * digits) := by ring

/-- Nothing with small parts lies between fractions that are adjacent. -/
theorem Adjacent.not_between {left right : Nat × Nat} (hadjacent : Adjacent left right)
    (hdigits : digits ≤ 2 ^ 25) (hmiddle : middle < 2 ^ 25)
    (hleft : left.1 * digits < middle * left.2) :
    ¬ middle * right.2 < right.1 * digits := by
  intro hright
  obtain ⟨hmiddle', hdigits'⟩ := parts_le_of_between hadjacent.1 hleft hright
  rcases hadjacent.2 with hlarge | hlarge
  · omega
  · omega

/-- Where the quotient itself has small parts, what is near to it is equal to it. -/
theorem Near.eq_of_small (hnear : Near num den digits middle) (hdigits : digits ≤ 2 ^ 25)
    (hsmall : num / num.gcd den * 2 ^ 25 * (2 ^ 20 + 1) < 2 ^ 72) (hnum : 0 < num) :
    num * digits = middle * den := by
  obtain ⟨hlow, hhigh⟩ := hnear
  have hgcd : 0 < num.gcd den := Nat.gcd_pos_of_pos_left den hnum
  obtain ⟨a, ha⟩ := Nat.gcd_dvd_left num den
  obtain ⟨b, hb⟩ := Nat.gcd_dvd_right num den
  generalize num.gcd den = common at *
  subst ha hb
  rw [Nat.mul_div_cancel_left a hgcd] at hsmall
  have hsmall' : (2 ^ 20 + 1) * (a * digits) < 2 ^ 72 := by
    calc (2 ^ 20 + 1) * (a * digits) = a * digits * (2 ^ 20 + 1) := Nat.mul_comm _ _
      _ ≤ a * 2 ^ 25 * (2 ^ 20 + 1) := Nat.mul_le_mul_right _ (Nat.mul_le_mul_left a hdigits)
      _ < 2 ^ 72 := hsmall
  have hlow' : (2 ^ 72 - (2 ^ 20 + 1)) * (a * digits) ≤ 2 ^ 72 * (middle * b) := by
    refine Nat.le_of_mul_le_mul_left ?_ hgcd
    linarith
  have hhigh' : 2 ^ 72 * (middle * b) ≤ (2 ^ 72 + (2 ^ 20 + 1)) * (a * digits) := by
    refine Nat.le_of_mul_le_mul_left ?_ hgcd
    linarith
  have hsame : a * digits = middle * b := by omega
  rw [Nat.mul_assoc, hsame, Nat.mul_left_comm]

end

/-! ### All powers of two -/

/-- Two fractions with small parts next to `num / den`, by the Euclidean algorithm. What it finds is
checked and nothing is assumed of it. -/
def neighbours : (fuel num den : Nat) → (before last : Nat × Nat) → (Nat × Nat) × (Nat × Nat)
  | 0, _, _, before, last => (before, last)
  | fuel + 1, num, den, before, last =>
    let next := (num / den * last.1 + before.1, num / den * last.2 + before.2)
    if next.1 < 2 ^ 25 ∧ next.2 ≤ 2 ^ 25 then neighbours fuel den (num % den) last next
    else
      let steps := min ((2 ^ 25 - 1 - before.1) / last.1) ((2 ^ 25 - before.2) / last.2)
      (last, (steps * last.1 + before.1, steps * last.2 + before.2))

/-- Two adjacent fractions with all that is near `num / den` between them. -/
def Encloses (num den : Nat) (left right : Nat × Nat) : Prop :=
  Adjacent left right ∧ Under num den left ∧ Over num den right

instance (num den : Nat) (left right : Nat × Nat) : Decidable (Encloses num den left right) :=
  inferInstanceAs (Decidable (_ ∧ _ ∧ _))

/-- No fraction with small parts is near `num / den` unless it is equal to it. -/
def Isolated (num den : Nat) : Prop :=
  num / num.gcd den * 2 ^ 25 * (2 ^ 20 + 1) < 2 ^ 72 ∨
    let found := neighbours 32 num den (0, 1) (1, 0)
    Encloses num den found.1 found.2 ∨ Encloses num den found.2 found.1

instance (num den : Nat) : Decidable (Isolated num den) :=
  inferInstanceAs (Decidable (_ ∨ _ ∨ _))

theorem Isolated.eq_of_near {num den digits middle : Nat} (hisolated : Isolated num den)
    (hnum : 0 < num) (hnear : Near num den digits middle) (hdigits : digits ≤ 2 ^ 25)
    (hmiddle : middle < 2 ^ 25) : num * digits = middle * den := by
  rcases Nat.eq_zero_or_pos digits with rfl | hpos
  · have hhigh := hnear.high
    omega
  · rcases hisolated with hsmall | ⟨hadjacent, hunder, hover⟩ | ⟨hadjacent, hunder, hover⟩
    · exact hnear.eq_of_small hdigits hsmall hnum
    · exact absurd (hover.lt hnear hpos)
        (hadjacent.not_between hdigits hmiddle (hunder.lt hnear hpos))
    · exact absurd (hover.lt hnear hpos)
        (hadjacent.not_between hdigits hmiddle (hunder.lt hnear hpos))

/-! ### The decimals that come closer -/

/-- A fraction that is near `num / den`, between two adjacent ones that are not. Only the fraction
itself has parts that are small enough, and none of its multiples. -/
structure Exposed (num den : Nat) (left fraction right : Nat × Nat) : Prop where
  isUnder : Under num den left
  before : Adjacent left fraction
  behind : Adjacent fraction right
  isOver : Over num den right
  coprime : fraction.1.Coprime fraction.2
  single : 2 ^ 25 ≤ 2 * fraction.1

instance (num den : Nat) (left fraction right : Nat × Nat) :
    Decidable (Exposed num den left fraction right) :=
  decidable_of_iff (Under num den left ∧ Adjacent left fraction ∧ Adjacent fraction right ∧
      Over num den right ∧ fraction.1.Coprime fraction.2 ∧ 2 ^ 25 ≤ 2 * fraction.1)
    ⟨fun ⟨hunder, hbefore, hbehind, hover, hcoprime, hsingle⟩ =>
      ⟨hunder, hbefore, hbehind, hover, hcoprime, hsingle⟩,
    fun hexposed => ⟨hexposed.isUnder, hexposed.before, hexposed.behind, hexposed.isOver,
      hexposed.coprime, hexposed.single⟩⟩

theorem Exposed.eq_of_near {num den digits middle : Nat} {left fraction right : Nat × Nat}
    (hexposed : Exposed num den left fraction right) (hnear : Near num den digits middle)
    (hpos : 0 < digits) (hdigits : digits ≤ 2 ^ 25) (hmiddle : middle < 2 ^ 25) :
    digits = fraction.2 := by
  have hsame : middle * fraction.2 = fraction.1 * digits := by
    rcases Nat.lt_trichotomy (middle * fraction.2) (fraction.1 * digits) with hless | hsame | hmore
    · have hleft := hexposed.isUnder.lt hnear hpos
      exact absurd hless (hexposed.before.not_between hdigits hmiddle hleft)
    · exact hsame
    · have hright := hexposed.isOver.lt hnear hpos
      exact absurd hright (hexposed.behind.not_between hdigits hmiddle hmore)
  have hsingle := hexposed.single
  obtain ⟨times, rfl⟩ : fraction.1 ∣ middle :=
    hexposed.coprime.dvd_of_dvd_mul_right ⟨digits, hsame⟩
  have htimes : times * fraction.2 = digits := by
    rw [Nat.mul_assoc] at hsame
    exact Nat.eq_of_mul_eq_mul_left (by omega) hsame
  obtain rfl | rfl | hmany : times = 0 ∨ times = 1 ∨ 2 ≤ times := by omega
  · omega
  · omega
  · have hmul := Nat.mul_le_mul_left fraction.1 hmany
    omega

/-! ### All powers of two -/

/-- The finest decimal grid that is not much finer than half a step of `2 ^ step` quanta. -/
def gridAt (step : Nat) : Nat :=
  (30103 * step + 10384549) / 100000 + 1

theorem grid_of_step : ∀ step < 256,
    2 ^ 26 * 10 ^ (gridAt step - 1) < (2 ^ 25 - 1) * (2 ^ step * 5 ^ 149) ∧
      (2 ^ 25 - 1) * (2 ^ step * 5 ^ 149) ≤ 2 ^ 26 * 10 ^ gridAt step := by
  decide +kernel

/-- The decimals that come close to a midpoint: the power of two, the digits and the grid. -/
def closeDecimals : List (Nat × Nat × Nat) :=
  [(42, 7038531, 117), (43, 14077062, 117), (100, 25645849, 134)]

theorem isolated_or_close : ∀ step < 256,
    step ∈ closeDecimals.map Prod.fst ∨
      Isolated (2 * 10 ^ gridAt step) (2 ^ step * 5 ^ 149) := by
  decide +kernel

theorem exists_exposed : ∀ close ∈ closeDecimals, ∃ left middle right,
    Exposed (2 * 10 ^ close.2.2) (2 ^ close.1 * 5 ^ 149) left (middle, close.2.1) right := by
  simp only [closeDecimals, List.forall_mem_cons, List.not_mem_nil, false_implies, implies_true,
    and_true]
  refine ⟨⟨(14495598, 4466801), 22841339, (31187080, 9610261), ?_⟩,
    ⟨(30089138, 18543863), 22841339, (15593540, 9610261), ?_⟩,
    ⟨(10657433, 9465702), 28874659, (18217226, 16180147), ?_⟩⟩
  · decide +kernel
  · decide +kernel
  · decide +kernel

theorem gridAt_close : ∀ close ∈ closeDecimals,
    gridAt close.1 = close.2.2 ∧ close.2.1 % 10 ≠ 0 := by
  decide

/-- The digits of a decimal near a midpoint, on a grid that is not finer than the midpoint needs. -/
theorem Near.digits_le {step digits middle : Nat} (hstep : step < 256) (hmiddle : middle < 2 ^ 25)
    (hnear : Near (2 * 10 ^ gridAt step) (2 ^ step * 5 ^ 149) digits middle) :
    digits ≤ 2 ^ 25 := by
  have hcoarse := (grid_of_step step hstep).2
  have hgrid : 0 < 10 ^ gridAt step := Nat.pow_pos (by decide)
  have hle : 10 ^ gridAt step * ((2 ^ 72 - (2 ^ 20 + 1)) * 2 * digits) ≤
      10 ^ gridAt step * (2 ^ 72 * 2 ^ 26) := by
    calc 10 ^ gridAt step * ((2 ^ 72 - (2 ^ 20 + 1)) * 2 * digits) =
          (2 ^ 72 - (2 ^ 20 + 1)) * (2 * 10 ^ gridAt step * digits) := by ring
      _ ≤ 2 ^ 72 * (middle * (2 ^ step * 5 ^ 149)) := hnear.low
      _ ≤ 2 ^ 72 * ((2 ^ 25 - 1) * (2 ^ step * 5 ^ 149)) :=
          Nat.mul_le_mul_left _ (Nat.mul_le_mul_right _ (Nat.le_pred_of_lt hmiddle))
      _ ≤ 2 ^ 72 * (2 ^ 26 * 10 ^ gridAt step) := Nat.mul_le_mul_left _ hcoarse
      _ = 10 ^ gridAt step * (2 ^ 72 * 2 ^ 26) := by ring
  have hle' := Nat.le_of_mul_le_mul_left hle hgrid
  omega

/-- **Decimals keep away from midpoints.** A decimal near a midpoint, with digits not much finer
than half a step, is equal to the midpoint or one of three. -/
theorem eq_or_close {step grid digits middle : Nat} (hstep : step < 256) (hmiddle : middle < 2 ^ 25)
    (hpos : 0 < digits) (hgrid : (2 ^ 25 - 1) * (2 ^ step * 5 ^ 149) ≤ 2 ^ 26 * 10 ^ grid)
    (hnear : Near (2 * 10 ^ grid) (2 ^ step * 5 ^ 149) digits middle) :
    2 * 10 ^ grid * digits = middle * (2 ^ step * 5 ^ 149) ∨
      ∃ close ∈ closeDecimals, digits = close.2.1 ∧ grid = close.2.2 := by
  have hfine := (grid_of_step step hstep).1
  have hgrid' : gridAt step ≤ grid := by
    by_contra hless
    have hpow : 10 ^ grid ≤ 10 ^ (gridAt step - 1) := Nat.pow_le_pow_right (by decide) (by omega)
    omega
  -- the decimal is moved to the finest grid
  obtain ⟨more, rfl⟩ := Nat.exists_eq_add_of_le hgrid'
  have hmoved : 2 * 10 ^ (gridAt step + more) * digits =
      2 * 10 ^ gridAt step * (digits * 10 ^ more) := by ring
  have hnear' : Near (2 * 10 ^ gridAt step) (2 ^ step * 5 ^ 149) (digits * 10 ^ more) middle :=
    ⟨hmoved ▸ hnear.low, hmoved ▸ hnear.high⟩
  have hdigits := hnear'.digits_le hstep hmiddle
  have hpos' : 0 < digits * 10 ^ more := Nat.mul_pos hpos (Nat.pow_pos (by decide))
  rcases isolated_or_close step hstep with hclose | hisolated
  · right
    obtain ⟨close, hmem, rfl⟩ := List.mem_map.mp hclose
    obtain ⟨hplace, htrimmed⟩ := gridAt_close close hmem
    obtain ⟨left, fraction, right, hexposed⟩ := exists_exposed close hmem
    rw [← hplace] at hexposed
    have hsame : digits * 10 ^ more = close.2.1 := hexposed.eq_of_near hnear' hpos' hdigits hmiddle
    obtain rfl : more = 0 := by
      by_contra hmore
      obtain ⟨less, rfl⟩ := Nat.exists_eq_succ_of_ne_zero hmore
      rw [Nat.pow_succ, ← Nat.mul_assoc] at hsame
      omega
    refine ⟨close, hmem, ?_, hplace⟩
    rwa [Nat.pow_zero, Nat.mul_one] at hsame
  · left
    have hnum : 0 < 2 * 10 ^ gridAt step := Nat.mul_pos (by decide) (Nat.pow_pos (by decide))
    rw [hmoved]
    exact hisolated.eq_of_near hnum hnear' hdigits hmiddle

end WidgetStyle.Number
