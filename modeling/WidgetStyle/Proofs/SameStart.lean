import WidgetStyle.Proofs.Characters
import WidgetStyle.Proofs.Tokens

/-!
# Texts that start alike

A token is chosen by looking one character beyond it, or two where the first of them is a point or
a slash, and all blanks are the same to it. Texts that start alike (`SameStart`) cannot be told
apart from in front of them, and in particular more text or less is the same (`SameStart.append`).
So a numeral is read as it was before any other text that starts as the one behind it did
(`readPlain_of_sameStart`), and a numeral that is written is read back before a text that does not
go on with it (`readPlain_chars`).
-/

namespace WidgetStyle

open Sheet (opensBlank opensBlank_cons)
open Text (isBlank)

/-! ### Texts that start alike -/

/-- Neither a blank nor the slash that may open a comment. -/
def Plain (c : Char) : Prop :=
  isBlank c = false ∧ c ≠ '/'

instance (c : Char) : Decidable (Plain c) :=
  inferInstanceAs (Decidable (isBlank c = false ∧ c ≠ '/'))

/-- A class of plain characters. -/
def Apart (p : Char → Bool) : Prop :=
  ∀ c, p c = true → Plain c

theorem Apart.any_head {p : Char → Bool} (hp : Apart p) {rest : List Char}
    (hopens : opensBlank rest = true) : rest.head?.any p = false := by
  cases rest with
  | nil => rfl
  | cons c rest =>
    by_contra hc
    obtain ⟨hblank, hslash⟩ := hp c (by simpa using hc)
    simp [opensBlank_cons, hblank, hslash] at hopens

theorem apart_point : Apart (· == '.') := by
  intro c hc
  obtain rfl : c = '.' := by simpa using hc
  decide

theorem apart_minus : Apart (· == '-') := by
  intro c hc
  obtain rfl : c = '-' := by simpa using hc
  decide

theorem Number.apart_isDigit : Apart isDigit := by
  intro c hc
  have hdigit : 48 ≤ c.toNat ∧ c.toNat < 58 := by
    simp only [isDigit, Digit.ofChar?] at hc
    split at hc
    · assumption
    · cases hc
  constructor
  · by_contra hblank
    have hapart : Text.Ranges.apart Text.blankRanges [(48, 57)] = true := by decide
    have hcovers := Text.Ranges.covers_eq_false_of_apart hapart (Bool.not_eq_false _ ▸ hblank)
    simp [Text.Ranges.covers] at hcovers
    omega
  · rintro rfl
    exact absurd hdigit (by decide)

/-- A token in front of one of the two texts cannot tell them apart. Both start with blanks or
comments, or they start with the same character, and where this is a point a digit follows it in
both or in none. -/
structure SameStart (rest rest' : List Char) : Prop where
  opens : opensBlank rest = opensBlank rest'
  head : opensBlank rest = false → rest.head? = rest'.head?
  point : rest.head? = some '.' →
    rest.tail.head?.any Number.isDigit = rest'.tail.head?.any Number.isDigit

namespace SameStart

/-- Both texts start in the class, or none. -/
theorem any_head {rest rest' : List Char} (hsame : SameStart rest rest') {p : Char → Bool}
    (hp : Apart p) : rest.head?.any p = rest'.head?.any p := by
  cases hopens : opensBlank rest with
  | true => rw [hp.any_head hopens, hp.any_head (hsame.opens.symm.trans hopens)]
  | false => rw [hsame.head hopens]

theorem head_point_iff {rest rest' : List Char} (hsame : SameStart rest rest') :
    rest.head? = some '.' ↔ rest'.head? = some '.' := by
  have hpoint := hsame.any_head apart_point
  cases hhead : rest.head? <;> cases hhead' : rest'.head? <;> simp_all

theorem symm {rest rest' : List Char} (hsame : SameStart rest rest') : SameStart rest' rest := by
  refine ⟨hsame.opens.symm, ?_, ?_⟩
  · intro hopens
    exact (hsame.head (hsame.opens.trans hopens)).symm
  · intro hpoint
    exact (hsame.point (hsame.head_point_iff.mpr hpoint)).symm

/-- What is put behind a text does not change its start, if the text is more than a slash, and if no
digit comes to stand behind a point. -/
theorem append {rest : List Char} (more : List Char) (hsome : rest ≠ [])
    (hpoint : rest = ['.'] → more.head?.any Number.isDigit = false) (hslash : rest ≠ ['/']) :
    SameStart rest (rest ++ more) := by
  cases rest with
  | nil => exact absurd rfl hsome
  | cons c rest =>
    cases rest with
    | nil =>
      have hc : c ≠ '/' := by simpa using hslash
      refine ⟨?_, fun _ => rfl, ?_⟩
      · simp [opensBlank_cons, hc]
      · intro hhead
        obtain rfl : c = '.' := Option.some.inj hhead
        exact (hpoint rfl).symm
    | cons next rest => exact ⟨rfl, fun _ => rfl, fun _ => rfl⟩

/-- Texts that start alike do so behind plain characters as well. -/
theorem append_left {front rest rest' : List Char} (hsame : SameStart rest rest')
    (hfront : ∀ c ∈ front, Plain c) : SameStart (front ++ rest) (front ++ rest') := by
  cases front with
  | nil => exact hsame
  | cons c front =>
    have hc : c ≠ '/' := (hfront c List.mem_cons_self).2
    refine ⟨?_, fun _ => rfl, ?_⟩
    · simp [opensBlank_cons, beq_false_of_ne hc]
    · intro _
      cases front with
      | nil => exact hsame.any_head Number.apart_isDigit
      | cons next front => rfl

end SameStart

/-! ### Numbers -/

namespace Number

theorem Digit.readAll_of_no_digit {rest : List Char} (hstop : rest.head?.any isDigit = false) :
    readAll rest = ([], rest) := by
  cases rest with
  | nil => rfl
  | cons c rest =>
    have hdigit : ofChar? c = none := by simpa [isDigit] using hstop
    simp [readAll, hdigit]

theorem Digit.readAll_of_stop {cs rest : List Char} (hstop : rest.head?.any isDigit = false) :
    readAll ((readAll cs).1.map char ++ rest) = ((readAll cs).1, rest) := by
  induction cs with
  | nil => exact readAll_of_no_digit hstop
  | cons c cs ih =>
    cases hdigit : ofChar? c with
    | none =>
      simp only [readAll, hdigit]
      exact readAll_of_no_digit hstop
    | some d =>
      simp only [readAll, hdigit]
      rw [List.map_cons, char_of_ofChar? hdigit, List.cons_append, readAll, hdigit]
      simp only [ih]

theorem Digit.readAll_eq_nil_iff {cs : List Char} :
    (readAll cs).1 = [] ↔ cs.head?.any isDigit = false := by
  cases cs with
  | nil => simp [readAll]
  | cons c cs => cases hdigit : ofChar? c <;> simp [readAll, isDigit, hdigit]

/-- Digits are read up to the first character that is none. -/
theorem Digit.any_head_readAll (cs : List Char) : (readAll cs).2.head?.any isDigit = false := by
  induction cs with
  | nil => rfl
  | cons c cs ih => cases hdigit : ofChar? c <;> simp [readAll, isDigit, hdigit, ih]

theorem Digit.ofChar?_char : ∀ d : Digit, ofChar? d.char = some d := by
  decide

theorem Digit.readAll_chars (digits : List Digit) {rest : List Char}
    (hstop : rest.head?.any isDigit = false) :
    readAll (digits.map char ++ rest) = (digits, rest) := by
  induction digits with
  | nil => exact readAll_of_no_digit hstop
  | cons d digits ih =>
    rw [List.map_cons, List.cons_append, readAll, ofChar?_char]
    simp only [ih]

theorem Digit.any_head_chars {digits : List Digit} (hsome : digits ≠ []) {p : Char → Bool}
    (hp : ∀ d : Digit, p d.char = false) (rest : List Char) :
    (digits.map char ++ rest).head?.any p = false := by
  cases digits with
  | nil => exact absurd rfl hsome
  | cons d digits => exact hp d

namespace Numeral

/-- The point and the digits of a fraction, or nothing. -/
def fractionText (fraction : List Digit) : List Char :=
  if fraction.isEmpty then [] else '.' :: fraction.map Digit.char

theorem readMinus_of_stop {cs rest : List Char}
    (hstop : (readMinus cs).1 = false → rest.head?.any (· == '-') = false) :
    readMinus ((if (readMinus cs).1 then ['-'] else []) ++ rest) = ((readMinus cs).1, rest) := by
  cases hminus : (readMinus cs).1 with
  | true => rfl
  | false =>
    cases rest with
    | nil => rfl
    | cons c rest =>
      have hc : c ≠ '-' := by simpa using hstop hminus
      simp [readMinus, hc]

theorem readMinus_eq_false {cs : List Char} (hminus : (readMinus cs).1 = false) :
    (readMinus cs).2 = cs ∧ cs.head?.any (· == '-') = false := by
  cases cs with
  | nil => exact ⟨rfl, rfl⟩
  | cons c cs =>
    by_cases hc : c = '-'
    · subst hc
      cases hminus
    · simp [readMinus, hc]

theorem readFraction_point (cs : List Char) :
    readFraction ('.' :: cs) =
      if (Digit.readAll cs).1 = [] then ([], '.' :: cs) else Digit.readAll cs := by
  rw [readFraction]
  split
  · next hnone => rw [if_pos (by rw [hnone])]
  · next hsome heq =>
    rw [if_neg (by rw [heq]; exact hsome), heq]

theorem readFraction_of_ne_point {cs : List Char} (hpoint : cs.head? ≠ some '.') :
    readFraction cs = ([], cs) := by
  cases cs with
  | nil => rfl
  | cons c cs =>
    have hc : c ≠ '.' := by simpa using hpoint
    simp [readFraction, hc]

/-- A point is read where a digit follows it. -/
theorem readFraction_eq_nil_iff {cs : List Char} :
    (readFraction cs).1 = [] ↔ (cs.head? = some '.' → cs.tail.head?.any isDigit = false) := by
  by_cases hpoint : cs.head? = some '.'
  · obtain ⟨rest, rfl⟩ := List.head?_eq_some_iff.mp hpoint
    rw [readFraction_point]
    simp only [List.head?_cons, List.tail_cons, true_implies, ← Digit.readAll_eq_nil_iff]
    by_cases hnone : (Digit.readAll rest).1 = []
    · simp [hnone]
    · simp [hnone]
  · simp [readFraction_of_ne_point hpoint, hpoint]

theorem readFraction_snd {cs : List Char} (hnone : (readFraction cs).1 = []) :
    (readFraction cs).2 = cs := by
  have htext := readFraction_text cs
  rwa [hnone] at htext

/-- A point is read where a digit follows it, so behind the point one more character counts. -/
theorem readFraction_of_sameStart {cs rest : List Char}
    (hsame : SameStart (readFraction cs).2 rest) :
    readFraction (fractionText (readFraction cs).1 ++ rest) = ((readFraction cs).1, rest) := by
  by_cases hnone : (readFraction cs).1 = []
  · -- a point is left for the token behind
    rw [readFraction_snd hnone] at hsame
    have hnone' : (readFraction rest).1 = [] := by
      refine readFraction_eq_nil_iff.mpr ?_
      intro hpoint
      have hpoint' := hsame.head_point_iff.mpr hpoint
      rw [← hsame.point hpoint']
      exact readFraction_eq_nil_iff.mp hnone hpoint'
    rw [hnone]
    exact Prod.ext hnone' (readFraction_snd hnone')
  · have hpoint : cs.head? = some '.' := by
      by_contra hpoint
      rw [readFraction_of_ne_point hpoint] at hnone
      exact hnone rfl
    obtain ⟨cs, rfl⟩ := List.head?_eq_some_iff.mp hpoint
    have hdigits : (Digit.readAll cs).1 ≠ [] := by
      intro hdigits
      rw [readFraction_point, if_pos hdigits] at hnone
      exact hnone rfl
    rw [readFraction_point, if_neg hdigits] at hsame ⊢
    have hstop : rest.head?.any isDigit = false := by
      rw [← hsame.any_head apart_isDigit, Digit.any_head_readAll]
    rw [fractionText, if_neg (by simpa using hdigits), List.cons_append, readFraction_point,
      Digit.readAll_of_stop hstop, if_neg hdigits]

theorem text_readPlain (cs : List Char) :
    (readPlain cs).1.text = (if (readMinus cs).1 then ['-'] else []) ++
      ((readPlain cs).1.whole.map Digit.char ++ fractionText (readPlain cs).1.fraction) := by
  simp only [text, readPlain, List.append_nil, List.append_assoc]
  rfl

theorem plain_map_char (digits : List Digit) : ∀ c ∈ digits.map Digit.char, Plain c := by
  have hchar : ∀ d : Digit, Plain d.char := by decide
  intro c hc
  obtain ⟨d, -, rfl⟩ := List.mem_map.mp hc
  exact hchar d

theorem plain_fractionText (fraction : List Digit) : ∀ c ∈ fractionText fraction, Plain c := by
  unfold fractionText
  split
  · simp
  · intro c hc
    rcases List.mem_cons.mp hc with rfl | hc
    · decide
    · exact plain_map_char fraction c hc

theorem plain_text_readPlain (cs : List Char) : ∀ c ∈ (readPlain cs).1.text, Plain c := by
  intro c hc
  rw [text_readPlain, List.mem_append, List.mem_append] at hc
  rcases hc with hminus | hwhole | hfraction
  · split at hminus
    · obtain rfl : c = '-' := by simpa using hminus
      decide
    · cases hminus
  · exact plain_map_char _ c hwhole
  · exact plain_fractionText _ c hfraction

theorem readPlain_of_sameStart {cs rest : List Char} (hsame : SameStart (readPlain cs).2 rest) :
    readPlain ((readPlain cs).1.text ++ rest) = ((readPlain cs).1, rest) := by
  have hfraction : readFraction (fractionText (readPlain cs).1.fraction ++ rest) =
      ((readPlain cs).1.fraction, rest) := readFraction_of_sameStart hsame
  have hbehind : SameStart (Digit.readAll (readMinus cs).2).2
      (fractionText (readPlain cs).1.fraction ++ rest) := by
    rw [← readFraction_text (Digit.readAll (readMinus cs).2).2]
    exact hsame.append_left (plain_fractionText _)
  have hwhole : Digit.readAll ((Digit.readAll (readMinus cs).2).1.map Digit.char ++
      (fractionText (readPlain cs).1.fraction ++ rest)) =
      ((readPlain cs).1.whole, fractionText (readPlain cs).1.fraction ++ rest) := by
    refine Digit.readAll_of_stop ?_
    rw [← hbehind.any_head apart_isDigit, Digit.any_head_readAll]
  have hunsigned : SameStart (readMinus cs).2 ((Digit.readAll (readMinus cs).2).1.map Digit.char ++
      (fractionText (readPlain cs).1.fraction ++ rest)) := by
    have hfront := hbehind.append_left (plain_map_char (Digit.readAll (readMinus cs).2).1)
    rwa [Digit.map_char_readAll] at hfront
  have hstop : (readMinus cs).1 = false → ((Digit.readAll (readMinus cs).2).1.map Digit.char ++
      (fractionText (readPlain cs).1.fraction ++ rest)).head?.any (· == '-') = false := by
    intro hplain
    obtain ⟨hall, hstop⟩ := readMinus_eq_false hplain
    rw [← hunsigned.any_head apart_minus, hall]
    exact hstop
  have hminus := readMinus_of_stop hstop
  rw [text_readPlain, List.append_assoc, List.append_assoc]
  change readPlain (_ ++ ((Digit.readAll (readMinus cs).2).1.map Digit.char ++ _)) = _
  rw [readPlain, hminus]
  simp only [hwhole, hfraction]
  rfl

theorem readFraction_chars (fraction : List Digit) {rest : List Char}
    (hdigit : rest.head?.any isDigit = false) (hpoint : rest.head? ≠ some '.') :
    readFraction (fractionText fraction ++ rest) = (fraction, rest) := by
  cases fraction with
  | nil => exact readFraction_of_ne_point hpoint
  | cons d fraction =>
    change readFraction ('.' :: ((d :: fraction).map Digit.char ++ rest)) = _
    rw [readFraction_point, Digit.readAll_chars _ hdigit, if_neg (List.cons_ne_nil _ _)]

theorem readMinus_chars (negative : Bool) {rest : List Char}
    (hminus : rest.head?.any (· == '-') = false) :
    readMinus ((if negative then ['-'] else []) ++ rest) = (negative, rest) := by
  cases negative with
  | true => rfl
  | false =>
    cases rest with
    | nil => rfl
    | cons c rest =>
      have hc : c ≠ '-' := by simpa using hminus
      simp [readMinus, hc]

/-- Some digits, perhaps with a point among them, and no exponent. -/
structure IsDecimal (numeral : Numeral) : Prop where
  exponent_eq : numeral.exponent = none
  digits_ne_nil : numeral.digits ≠ []

/-- The part of a numeral before its exponent. -/
theorem readPlain_chars (numeral : Numeral) (hdigits : numeral.digits ≠ []) {rest : List Char}
    (hdigit : rest.head?.any isDigit = false) (hpoint : rest.head? ≠ some '.') :
    readPlain ((if numeral.negative then ['-'] else []) ++ (numeral.whole.map Digit.char ++
      (fractionText numeral.fraction ++ rest))) = ({ numeral with exponent := none }, rest) := by
  have hminus : (numeral.whole.map Digit.char ++
      (fractionText numeral.fraction ++ rest)).head?.any (· == '-') = false := by
    by_cases hwhole : numeral.whole = []
    · have hfraction : numeral.fraction ≠ [] := by simpa [digits, hwhole] using hdigits
      rw [hwhole, fractionText, if_neg (by simpa using hfraction)]
      rfl
    · exact Digit.any_head_chars hwhole (by decide) _
  have hstop : (fractionText numeral.fraction ++ rest).head?.any isDigit = false := by
    unfold fractionText
    split
    · exact hdigit
    · rfl
  simp only [readPlain, readMinus_chars _ hminus, Digit.readAll_chars _ hstop,
    readFraction_chars _ hdigit hpoint]

end Numeral

end Number

end WidgetStyle
