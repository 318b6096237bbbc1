import WidgetStyle.Number.Rounding

/-!
# Decimal numerals

A numeral is a number as it is written: a sign, digits before and after the point, and perhaps an
exponent of ten. This module reads its parts, writes it, and rounds it to a number of 32 bits.
Digits are the ten of ASCII.
-/

namespace WidgetStyle.Number

abbrev Digit := Fin 10

namespace Digit

def zero : Digit := ⟨0, by decide⟩

def char (d : Digit) : Char :=
  Char.ofNat (48 + d.val)

def ofChar? (c : Char) : Option Digit :=
  if bound : 48 ≤ c.toNat ∧ c.toNat < 58 then some ⟨c.toNat - 48, by omega⟩ else none

def readAll : List Char → List Digit × List Char
  | [] => ([], [])
  | c :: cs =>
    match ofChar? c with
    | some d => (d :: (readAll cs).1, (readAll cs).2)
    | none => ([], c :: cs)

theorem char_of_ofChar? {c : Char} {d : Digit} (read : ofChar? c = some d) : d.char = c := by
  unfold ofChar? at read
  split at read
  · cases read
    rename_i bound
    unfold char
    rw [show 48 + (c.toNat - 48) = c.toNat by omega]
    exact Char.ofNat_toNat c
  · cases read

/-- Reading digits loses nothing. -/
theorem map_char_readAll (cs : List Char) :
    (readAll cs).1.map char ++ (readAll cs).2 = cs := by
  induction cs with
  | nil => rfl
  | cons c cs ih =>
    unfold readAll
    split
    · next d read => simp [char_of_ofChar? read, ih]
    · rfl

/-- The number that a row of digits stands for. -/
def value (digits : List Digit) : Nat :=
  digits.foldl (fun number d => 10 * number + d.val) 0

/-- The digits of a number, without leading zeros. -/
def ofNat (n : Nat) : List Digit :=
  if n < 10 then [Fin.ofNat 10 n] else ofNat (n / 10) ++ [Fin.ofNat 10 n]

end Digit

/-- Whether a character is a digit. -/
def isDigit (c : Char) : Bool :=
  (Digit.ofChar? c).isSome

/-- A decimal number as it is written. No fraction digits means no point. -/
structure Numeral where
  negative : Bool
  whole : List Digit
  fraction : List Digit
  exponent : Option Int
deriving DecidableEq, Repr

namespace Numeral

/-- The characters of an exponent: its sign is always written. -/
def exponentText (exponent : Int) : List Char :=
  'e' :: (if exponent < 0 then '-' else '+') :: (Digit.ofNat exponent.natAbs).map Digit.char

def text (numeral : Numeral) : List Char :=
  (if numeral.negative then ['-'] else []) ++ numeral.whole.map Digit.char ++
    (if numeral.fraction.isEmpty then [] else '.' :: numeral.fraction.map Digit.char) ++
    (match numeral.exponent with
      | some exponent => exponentText exponent
      | none => [])

/-- The point and the digits after it, if both stand at the front of a text. -/
def readFraction : List Char → List Digit × List Char
  | '.' :: cs =>
    match Digit.readAll cs with
    | ([], _) => ([], '.' :: cs)
    | (fraction, rest) => (fraction, rest)
  | cs => ([], cs)

/-- Whether a minus sign stands at the front of a text, and what follows it. -/
def readMinus : List Char → Bool × List Char
  | '-' :: cs => (true, cs)
  | cs => (false, cs)

/-- A numeral without exponent at the front of a text: perhaps a minus sign, digits, perhaps a
point with digits. No digit at all is also accepted, and left to the caller to refuse. -/
def readPlain (cs : List Char) : Numeral × List Char :=
  let (negative, unsigned) := readMinus cs
  let (whole, rest) := Digit.readAll unsigned
  let (fraction, rest) := readFraction rest
  ({ negative, whole, fraction, exponent := none }, rest)

theorem readMinus_text (cs : List Char) :
    (if (readMinus cs).1 then ['-'] else []) ++ (readMinus cs).2 = cs := by
  unfold readMinus
  split <;> rfl

theorem readFraction_text (cs : List Char) :
    (if (readFraction cs).1.isEmpty then [] else '.' :: (readFraction cs).1.map Digit.char) ++
      (readFraction cs).2 = cs := by
  unfold readFraction
  split
  · next cs =>
    split
    · rfl
    · next fraction rest _ read =>
      have joined := Digit.map_char_readAll cs
      rw [read] at joined
      cases fraction with
      | nil => simp_all
      | cons d fraction => simpa using joined
  · rfl

/-- Reading a numeral loses nothing. -/
theorem readPlain_text (cs : List Char) : (readPlain cs).1.text ++ (readPlain cs).2 = cs := by
  unfold readPlain
  simp only [text, List.append_assoc, List.append_nil]
  rw [readFraction_text, Digit.map_char_readAll, readMinus_text]

/-- All digits of a numeral, from the first before the point to the last behind it. -/
def digits (numeral : Numeral) : List Digit :=
  numeral.whole ++ numeral.fraction

/-- The power of ten by which the digits, read as one whole number, are multiplied. -/
def power (numeral : Numeral) : Int :=
  numeral.exponent.getD 0 - numeral.fraction.length

/-- Where the point stands, counted from the first digit that is not zero. -/
def point (numeral : Numeral) : Int :=
  (numeral.digits.dropWhile (· == Digit.zero)).length + numeral.power

/-- The number of 32 bits nearest to a numeral. A point far to the right or to the left settles
the answer before any power of ten is computed: the number is beyond the largest, or below half
of the smallest. -/
def toSingle (numeral : Numeral) : Single :=
  let number := Digit.value numeral.digits
  if number = 0 ∨ numeral.point < -150 then .ofRatio numeral.negative 0 1
  else if 150 < numeral.point then .infinite numeral.negative
  else if numeral.power < 0 then
    .ofRatio numeral.negative number (10 ^ numeral.power.natAbs)
  else .ofRatio numeral.negative (number * 10 ^ numeral.power.natAbs) 1

end Numeral

end WidgetStyle.Number
