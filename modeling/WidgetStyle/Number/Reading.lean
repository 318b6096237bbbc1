import WidgetStyle.Number.Numeral

/-!
# Reading numbers

The text of one number that stands alone has an optional sign, then digits with an optional point
among, before or behind them and an optional exponent, or a name for infinity or not-a-number in any
case.

Where numbers are exchanged, a whole number that fits a word of 64 bits is rounded to 32 bits at
once. Any other number is first read as one of 64 bits: its digits are collected in a word, as far
as they fit, and the word is scaled by a power of ten, with a rounding at each step. The result is
then rounded once more. A number beyond the largest of 64 bits is refused.
-/

namespace WidgetStyle.Number

/-! ### Numbers that stand alone -/

namespace Numeral

/-- The exponent that fills a text: nothing, or the mark, an optional sign and digits. -/
def exponentOf? : List Char → Option (Option Int)
  | [] => some none
  | mark :: cs =>
    if mark = 'e' ∨ mark = 'E' then
      let (negative, unsigned) := match cs with
        | '-' :: cs => (true, cs)
        | '+' :: cs => (false, cs)
        | cs => (false, cs)
      match Digit.readAll unsigned with
      | ([], _) => none
      | (digits, []) => some (some (if negative then -Digit.value digits else Digit.value digits))
      | (_, _ :: _) => none
    else none

/-- The unsigned numeral that fills a text. A point needs a digit on one side only. -/
def ofUnsigned? (negative : Bool) (cs : List Char) : Option Numeral :=
  let (whole, rest) := Digit.readAll cs
  let (fraction, rest) := match rest with
    | '.' :: rest => Digit.readAll rest
    | rest => ([], rest)
  if whole.isEmpty && fraction.isEmpty then none
  else (exponentOf? rest).map fun exponent => { negative, whole, fraction, exponent }

end Numeral

namespace Single

def ofName? (negative : Bool) (name : List Char) : Option Single :=
  match String.ofList (name.map Char.toLower) with
  | "inf" | "infinity" => some (.infinite negative)
  | "nan" => some .nan
  | _ => none

def ofText? (text : String) : Option Single :=
  let (negative, unsigned) := match text.toList with
    | '-' :: cs => (true, cs)
    | '+' :: cs => (false, cs)
    | cs => (false, cs)
  match Numeral.ofUnsigned? negative unsigned with
  | some numeral => some numeral.toSingle
  | none => ofName? negative unsigned

end Single

/-! ### Numbers that are exchanged -/

/-- A non-negative number of 64 bits. -/
abbrev Wide := Magnitude .double

namespace Wide

/-- The number of 64 bits nearest to a quotient, if it is not too large. -/
def ofRatio? (num den : Nat) : Option Wide :=
  Format.double.round num den

def times? (a b : Wide) : Option Wide :=
  ofRatio? (a.units * b.units) (2 ^ Format.double.scale * 2 ^ Format.double.scale)

def over? (a b : Wide) : Option Wide :=
  ofRatio? a.units b.units

/-- A power of ten, if it is not too large. -/
def powerOfTen? (power : Nat) : Option Wide :=
  ofRatio? (10 ^ power) 1

/-- The largest power of ten by which a number is scaled in one step. -/
def greatestPower : Nat := 308

/-- A number divided several times by the greatest power of ten. Once it has become zero it stays
so. -/
def shrinkBy? (number : Wide) : (steps : Nat) → Option Wide
  | 0 => some number
  | steps + 1 =>
    if number.units = 0 then some number
    else
      match (powerOfTen? greatestPower).bind number.over? with
      | some smaller => smaller.shrinkBy? steps
      | none => none

/-- A number divided by a power of ten: by the greatest one as long as more than that is left, and
then by the rest. -/
def shrink? (number : Wide) (power : Nat) : Option Wide :=
  let steps := (power - 1) / greatestPower
  (number.shrinkBy? steps).bind fun number =>
    (powerOfTen? (power - greatestPower * steps)).bind number.over?

/-- A number multiplied by a power of ten, if the result is not too large. -/
def grow? (number : Wide) (power : Nat) : Option Wide :=
  if power ≤ greatestPower then (powerOfTen? power).bind number.times?
  else if number.units = 0 then some number
  else none

def scale? (number : Wide) (power : Int) : Option Wide :=
  if 0 ≤ power then number.grow? power.natAbs else number.shrink? power.natAbs

/-- The number of 32 bits nearest to one of 64 bits. -/
def narrow (negative : Bool) (number : Wide) : Single :=
  .ofRatio negative number.units (2 ^ Format.double.scale)

end Wide

/-- Digits collected in a word, and the power of ten by which it is multiplied. -/
structure Collected where
  word : Nat
  power : Int
deriving DecidableEq, Repr

namespace Collected

/-- Collect the digits before the point. From the first that does not fit on, each multiplies the
word by ten. -/
def whole (word : Nat) : List Digit → Collected
  | [] => ⟨word, 0⟩
  | d :: digits =>
    if 10 * word + d.val < UInt64.size then whole (10 * word + d.val) digits
    else ⟨word, digits.length + 1⟩

/-- Collect the digits behind the point. From the first that does not fit on, they are ignored. -/
def fraction (collected : Collected) : List Digit → Collected
  | [] => collected
  | d :: digits =>
    if 10 * collected.word + d.val < UInt64.size then
      fraction ⟨10 * collected.word + d.val, collected.power - 1⟩ digits
    else collected

/-- The digits of a numeral, with its exponent. -/
def ofNumeral (numeral : Numeral) : Collected :=
  let digits := (whole 0 numeral.whole).fraction numeral.fraction
  ⟨digits.word, digits.power + numeral.exponent.getD 0⟩

end Collected

namespace Numeral

/-- Whether a numeral is written without point and exponent. -/
def isWhole (numeral : Numeral) : Bool :=
  numeral.fraction.isEmpty && numeral.exponent.isNone

/-- The number of a whole numeral, if it fits a word of 64 bits: an unsigned one, or a signed one
below zero. -/
def word? (numeral : Numeral) : Option Nat :=
  let number := Digit.value numeral.whole
  if numeral.isWhole ∧
      (if numeral.negative then 0 < number ∧ number ≤ UInt64.size / 2 else number < UInt64.size)
  then some number
  else none

/-- The number of 32 bits that a numeral stands for where numbers are exchanged. -/
def exchanged? (numeral : Numeral) : Option Single :=
  match numeral.word? with
  | some number => some (.ofRatio numeral.negative number 1)
  | none =>
    let collected := Collected.ofNumeral numeral
    ((Wide.ofRatio? collected.word 1).bind fun number => number.scale? collected.power).map
      fun number => number.narrow numeral.negative

end Numeral

end WidgetStyle.Number
