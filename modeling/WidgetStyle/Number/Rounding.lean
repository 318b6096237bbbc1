/-!
# Rounding to a binary format

A binary format holds the magnitudes that are whole multiples of its quantum `2 ^ -scale`, have
few significant bits, and stay below a ceiling. A quotient of naturals is rounded to the nearest
of them, and a tie goes to the even one; a quotient that rounds to the ceiling or beyond has no
magnitude. Everything is exact arithmetic on naturals.

The numbers of style values are those of 32 bits: not-a-number, two infinities, and a sign with a
magnitude. Zero has two signs. Structural equality tells all of them apart; `Single.equals` is the
comparison of numbers, in which the two zeros are equal and not-a-number differs from everything.
-/

namespace WidgetStyle.Number

-- In this namespace powers are those of natural numbers, whatever else of that form is in sight.
attribute [scoped instance (2000)] instPowNat

/-- The whole number nearest to `num / den`; of two equally near, the even one. -/
def nearest (num den : Nat) : Nat :=
  if 2 * (num % den) < den then num / den
  else if den < 2 * (num % den) then num / den + 1
  else if num / den % 2 = 0 then num / den
  else num / den + 1

theorem nearest_le_succ (num den : Nat) : nearest num den ≤ num / den + 1 := by
  unfold nearest
  split <;> (try split) <;> (try split) <;> omega

/-- A binary format: magnitudes are multiples of `2 ^ -scale` with at most `precision` significant
bits, and fewer than `2 ^ ceiling` such multiples. -/
structure Format where
  precision : Nat
  scale : Nat
  ceiling : Nat
deriving DecidableEq, Repr

namespace Format

/-- The format of 32 bits: steps of `2 ^ -149`, 24 significant bits, below `2 ^ 128`. -/
def single : Format := ⟨24, 149, 277⟩

/-- The format of 64 bits: steps of `2 ^ -1074`, 53 significant bits, below `2 ^ 1024`. -/
def double : Format := ⟨53, 1074, 2098⟩

/-- A number of quanta that the format holds. -/
structure Fits (f : Format) (units : Nat) : Prop where
  short : ∃ mantissa exponent : Nat, mantissa ≤ 2 ^ f.precision ∧ units = mantissa * 2 ^ exponent
  below : units < 2 ^ f.ceiling

/-- How many low bits a number of quanta has beyond the precision. -/
def surplus (f : Format) (units : Nat) : Nat :=
  units.log2 + 1 - f.precision

/-- The number of quanta nearest to `num / den` among those with few enough significant bits. -/
def roundUnits (f : Format) (num den : Nat) : Nat :=
  nearest (num * 2 ^ f.scale) (den * 2 ^ f.surplus (num * 2 ^ f.scale / den)) *
    2 ^ f.surplus (num * 2 ^ f.scale / den)

theorem div_surplus_lt (f : Format) (n : Nat) : n / 2 ^ f.surplus n < 2 ^ f.precision := by
  rw [Nat.div_lt_iff_lt_mul (Nat.two_pow_pos _), ← Nat.pow_add]
  exact Nat.lt_of_lt_of_le Nat.lt_log2_self
    (Nat.pow_le_pow_right (by decide) (by unfold surplus; omega))

theorem roundUnits_short (f : Format) (num den : Nat) :
    ∃ mantissa exponent : Nat, mantissa ≤ 2 ^ f.precision ∧
      f.roundUnits num den = mantissa * 2 ^ exponent := by
  refine ⟨_, _, ?_, rfl⟩
  have bound := f.div_surplus_lt (num * 2 ^ f.scale / den)
  rw [Nat.div_div_eq_div_mul] at bound
  have step := nearest_le_succ (num * 2 ^ f.scale)
    (den * 2 ^ f.surplus (num * 2 ^ f.scale / den))
  omega

end Format

/-- A magnitude of the format: `units` quanta. -/
structure Magnitude (f : Format) where
  units : Nat
  fits : f.Fits units
deriving DecidableEq, Repr

namespace Magnitude

def zero (f : Format) : Magnitude f :=
  ⟨0, ⟨0, 0, Nat.zero_le _, by simp⟩, Nat.two_pow_pos _⟩

end Magnitude

/-- The magnitude nearest to `num / den`, or none where that is the ceiling or more. -/
def Format.round (f : Format) (num den : Nat) : Option (Magnitude f) :=
  if below : f.roundUnits num den < 2 ^ f.ceiling then
    some ⟨f.roundUnits num den, f.roundUnits_short num den, below⟩
  else none

/-! ### Numbers of 32 bits -/

/-- A binary number of 32 bits. -/
inductive Single where
  | nan
  | infinite (negative : Bool)
  | finite (negative : Bool) (magnitude : Magnitude .single)
deriving DecidableEq, Repr

namespace Single

def zero : Single := .finite false (.zero .single)

/-- The number nearest to `num / den` with the given sign; a quotient too large is infinite. -/
def ofRatio (negative : Bool) (num den : Nat) : Single :=
  match Format.single.round num den with
  | some magnitude => .finite negative magnitude
  | none => .infinite negative

def equals : Single → Single → Bool
  | .infinite s, .infinite t => s == t
  | .finite s a, .finite t b => a.units == b.units && (s == t || a.units == 0)
  | _, _ => false

def isZero : Single → Bool
  | .finite _ magnitude => magnitude.units == 0
  | _ => false

end Single

end WidgetStyle.Number
