import WidgetStyle.Number.Numeral

/-!
# Shortest decimals and their layouts

The shortest decimal of a magnitude is the one with the fewest digits that rounds back to it, and
among those the nearest. The exact value of a magnitude is a whole multiple of `10 ^ -scale`, so
the search looks at ever finer decimal grids, from one that is coarser than the value down to the
one on which the value itself lies. On each grid only the two neighbours of the value can be
nearest, and whether one reads back is asked of the rounding itself.

A layout says how the shortest decimal is written: which of two equally near decimals is meant, for
which positions of the point no exponent is used, and whether whole numbers keep a point. The result
is a numeral.
-/

namespace WidgetStyle.Number

/-! ### Shortest decimals -/

/-- Which of two decimals that are equally near is chosen. -/
inductive Tie where
  | up
  | even
deriving DecidableEq, Repr

/-- The decimal `digits * 10 ^ power`. -/
structure Decimal where
  digits : Nat
  power : Int
deriving DecidableEq, Repr

namespace Magnitude

variable {f : Format}

/-- The exact value, counted in steps of `10 ^ -scale`. -/
def exact (magnitude : Magnitude f) : Nat :=
  magnitude.units * 5 ^ f.scale

/-- Whether `digits * 10 ^ grid` steps of `10 ^ -scale` round to this magnitude. -/
def readsBack (magnitude : Magnitude f) (digits grid : Nat) : Bool :=
  f.roundUnits (digits * 10 ^ grid) (10 ^ f.scale) == magnitude.units

/-- Of the two neighbours of `exact` on a grid, `below` and its successor, the nearer one. -/
def nearer (tie : Tie) (exact below step : Nat) : Nat :=
  if 2 * exact < (2 * below + 1) * step then below
  else if (2 * below + 1) * step < 2 * exact then below + 1
  else match tie with
    | .up => below + 1
    | .even => if below % 2 = 0 then below else below + 1

/-- The nearest decimal on the grid of `10 ^ grid` steps that reads back, if there is one. -/
def onGrid (tie : Tie) (magnitude : Magnitude f) (grid : Nat) : Option Nat :=
  let below := magnitude.exact / 10 ^ grid
  match magnitude.readsBack below grid, magnitude.readsBack (below + 1) grid with
  | true, true => some (nearer tie magnitude.exact below (10 ^ grid))
  | true, false => some below
  | false, true => some (below + 1)
  | false, false => none

/-- The decimal on the coarsest grid, from the given one on, that reads back. -/
def search (tie : Tie) (magnitude : Magnitude f) : (grid : Nat) → Decimal
  | 0 => ⟨magnitude.exact, -f.scale⟩
  | grid + 1 =>
    match magnitude.onGrid tie (grid + 1) with
    | some digits => ⟨digits, (grid + 1 : Nat) - (f.scale : Int)⟩
    | none => magnitude.search tie grid

/-- The shortest decimal that reads back; zero is the single digit nought. -/
def shortest (tie : Tie) (magnitude : Magnitude f) : Decimal :=
  if magnitude.units = 0 then ⟨0, 0⟩
  else magnitude.search tie (Digit.ofNat magnitude.exact).length

end Magnitude

/-! ### Layouts -/

/-- The decisions of a number format. -/
structure Layout where
  /-- Which of two equally near decimals is written. -/
  tie : Tie
  /-- Whole numbers are written with a point and a zero behind it. -/
  keepsPoint : Bool
  /-- The least and the greatest position of the point, counted from the first digit, that are
  written without exponent; none when all are. -/
  positional : Option (Int × Int)
deriving DecidableEq, Repr

namespace Layout

/-- Whether a number with its point at this position is written without exponent. -/
def isPositional (layout : Layout) (point : Int) : Bool :=
  match layout.positional with
  | some (least, greatest) => decide (least ≤ point ∧ point ≤ greatest)
  | none => true

/-- The fraction digits to write: where the layout keeps the point, an empty fraction is a zero. -/
def fraction (layout : Layout) (digits : List Digit) : List Digit :=
  if digits.isEmpty && layout.keepsPoint then [.zero] else digits

/-- The numeral of `digits * 10 ^ power`: the point inside, behind or before the digits, or behind
the first digit with an exponent. -/
def numeral (layout : Layout) (negative : Bool) (digits : List Digit) (power : Int) : Numeral :=
  let point := digits.length + power
  if !layout.isPositional point then
    { negative, whole := digits.take 1, fraction := digits.drop 1, exponent := some (point - 1) }
  else if 0 < point then
    { negative
      whole := (digits ++ List.replicate power.toNat Digit.zero).take point.toNat
      fraction := layout.fraction (digits.drop point.toNat)
      exponent := none }
  else
    { negative
      whole := [.zero]
      fraction := layout.fraction (List.replicate point.natAbs Digit.zero ++ digits)
      exponent := none }

/-- The numeral of a magnitude with a sign. -/
def ofMagnitude (layout : Layout) (negative : Bool) {f : Format} (magnitude : Magnitude f) :
    Numeral :=
  let decimal := magnitude.shortest layout.tie
  layout.numeral negative (Digit.ofNat decimal.digits) decimal.power

end Layout

/-- Numbers in running text: the fewest digits that read back, never an exponent, no point on a
whole number; of two equally near decimals the larger. -/
def Layout.plain : Layout where
  tie := .up
  keepsPoint := false
  positional := none

namespace Single

def text : Single → String
  | .nan => "NaN"
  | .infinite negative => if negative then "-inf" else "inf"
  | .finite negative magnitude => String.ofList (Layout.plain.ofMagnitude negative magnitude).text

end Single

end WidgetStyle.Number
