import WidgetStyle.Json

/-!
# Tokens of a JSON text

A JSON text consists of marks, scalars and blanks. A scalar is a string, a number or one of three
words. A text with anything else in it has no tokens.
-/

namespace WidgetStyle.Json

open Number (Numeral Digit)

/-- A mark, or a value without inner values. -/
inductive Token where
  | openArray
  | closeArray
  | openObject
  | closeObject
  | comma
  | colon
  | scalar (value : Json)
deriving Repr

def isBlank (c : Char) : Bool :=
  c == ' ' || c == '\t' || c == '\n' || c == '\r'

def mark? : Char → Option Token
  | '[' => some .openArray
  | ']' => some .closeArray
  | '{' => some .openObject
  | '}' => some .closeObject
  | ',' => some .comma
  | ':' => some .colon
  | _ => none

/-! ### Strings -/

def hexValue? (c : Char) : Option Nat :=
  if 48 ≤ c.toNat ∧ c.toNat < 58 then some (c.toNat - 48)
  else if 97 ≤ c.toNat ∧ c.toNat < 103 then some (c.toNat - 87)
  else if 65 ≤ c.toNat ∧ c.toNat < 71 then some (c.toNat - 55)
  else none

/-- The code that four hexadecimal digits stand for. -/
def code? (a b c d : Char) : Option Nat :=
  match hexValue? a, hexValue? b, hexValue? c, hexValue? d with
  | some a, some b, some c, some d => some (4096 * a + 256 * b + 16 * c + d)
  | _, _, _, _ => none

/-- The part of a string that an escaped code stands for. -/
def partOfCode (code : Nat) : Part :=
  if 0xD800 ≤ code ∧ code < 0xE000 then .half (UInt16.ofNat code) else .char (Char.ofNat code)

/-- The characters with an escape of one letter. -/
def ofEscape? : Char → Option Char
  | '"' => some '"'
  | '\\' => some '\\'
  | '/' => some '/'
  | 'b' => some '\x08'
  | 'f' => some '\x0c'
  | 'n' => some '\n'
  | 'r' => some '\r'
  | 't' => some '\t'
  | _ => none

/-- The string up to its closing quote, and what follows it. -/
def readString : List Char → Option (List Part × List Char)
  | [] => none
  | '"' :: rest => some ([], rest)
  | '\\' :: 'u' :: a :: b :: c :: d :: cs =>
    match code? a b c d, readString cs with
    | some code, some (parts, rest) => some (partOfCode code :: parts, rest)
    | _, _ => none
  | '\\' :: e :: cs =>
    match ofEscape? e, readString cs with
    | some c, some (parts, rest) => some (.char c :: parts, rest)
    | _, _ => none
  | c :: cs =>
    if c = '\\' ∨ c.toNat < 0x20 then none
    else (readString cs).map fun (parts, rest) => (.char c :: parts, rest)

theorem length_readString {cs rest : List Char} {parts : List Part}
    (done : readString cs = some (parts, rest)) : rest.length < cs.length := by
  fun_induction readString cs generalizing parts rest <;> simp_all <;> grind

/-! ### Numbers -/

/-- The digits of an exponent, behind its mark and sign. -/
def readExponentDigits (negative : Bool) (cs : List Char) : Option (Int × List Char) :=
  match Digit.readAll cs with
  | ([], _) => none
  | (digits, rest) =>
    some (if negative then -(Digit.value digits : Int) else Digit.value digits, rest)

/-- The exponent at the front of a text, if there is one. -/
def readExponent : List Char → Option (Int × List Char)
  | [] => none
  | mark :: cs =>
    if mark = 'e' ∨ mark = 'E' then
      match cs with
      | '-' :: cs => readExponentDigits true cs
      | '+' :: cs => readExponentDigits false cs
      | cs => readExponentDigits false cs
    else none

/-- The number at the front of a text. It has a digit before the point, and no superfluous zero in
front of others. -/
def readNumber (cs : List Char) : Option (Numeral × List Char) :=
  let (plain, rest) := Numeral.readPlain cs
  match plain.whole with
  | [] => none
  | first :: more =>
    if first = .zero ∧ more ≠ [] then none
    else
      match readExponent rest with
      | some (exponent, rest) => some ({ plain with exponent := some exponent }, rest)
      | none => some (plain, rest)

theorem length_readExponentDigits {negative : Bool} {cs rest : List Char} {exponent : Int}
    (done : readExponentDigits negative cs = some (exponent, rest)) : rest.length ≤ cs.length := by
  have all := congrArg List.length (Digit.map_char_readAll cs)
  rw [List.length_append] at all
  unfold readExponentDigits at done
  split at done
  · cases done
  · next read =>
    rw [read] at all
    cases done
    exact Nat.le.intro (by rw [Nat.add_comm]; exact all)

theorem length_readExponent {cs rest : List Char} {exponent : Int}
    (done : readExponent cs = some (exponent, rest)) : rest.length ≤ cs.length := by
  unfold readExponent at done
  split at done
  · cases done
  · split at done
    · split at done <;> have := length_readExponentDigits done <;> simp_all <;> omega
    · cases done

theorem length_readNumber {cs rest : List Char} {numeral : Numeral}
    (done : readNumber cs = some (numeral, rest)) : rest.length < cs.length := by
  have all := congrArg List.length (Numeral.readPlain_text cs)
  simp only [readNumber] at done
  split at done
  · cases done
  · next first more whole =>
    have digit : (Numeral.readPlain cs).1.text ≠ [] := by simp [Numeral.text, whole]
    have := List.length_pos_iff.2 digit
    rw [List.length_append] at all
    split at done
    · cases done
    · split at done
      · next exponent =>
        have := length_readExponent exponent
        cases done
        omega
      · cases done
        omega

/-! ### Texts -/

/-- The word at the front of a text, and what follows it. -/
def readWord : List Char → Option (Json × List Char)
  | 'n' :: 'u' :: 'l' :: 'l' :: rest => some (.null, rest)
  | 't' :: 'r' :: 'u' :: 'e' :: rest => some (.bool true, rest)
  | 'f' :: 'a' :: 'l' :: 's' :: 'e' :: rest => some (.bool false, rest)
  | _ => none

/-- The scalar at the front of a text, and what follows it. -/
def readScalar : List Char → Option (Json × List Char)
  | '"' :: cs => (readString cs).map fun (parts, rest) => (.string parts, rest)
  | cs =>
    match readWord cs with
    | some found => some found
    | none => (readNumber cs).map fun (numeral, rest) => (.number numeral, rest)

theorem length_readScalar {cs rest : List Char} {value : Json}
    (done : readScalar cs = some (value, rest)) : rest.length < cs.length := by
  unfold readScalar at done
  split at done
  · obtain ⟨⟨parts, behind⟩, string, same⟩ := Option.map_eq_some_iff.1 done
    cases same
    have := length_readString string
    simp only [List.length_cons]
    omega
  · split at done
    · next word =>
      cases done
      unfold readWord at word
      split at word <;> simp_all <;> grind
    · obtain ⟨⟨numeral, behind⟩, number, same⟩ := Option.map_eq_some_iff.1 done
      cases same
      exact length_readNumber number

def tokens (text : List Char) : Option (List Token) :=
  match text with
  | [] => some []
  | c :: cs =>
    if isBlank c then tokens cs
    else
      match mark? c with
      | some token => (tokens cs).map (token :: ·)
      | none =>
        match done : readScalar (c :: cs) with
        | none => none
        | some (value, rest) =>
          have : rest.length < cs.length + 1 := length_readScalar done
          (tokens rest).map (.scalar value :: ·)
termination_by text.length
decreasing_by all_goals simp only [List.length_cons]; omega

end WidgetStyle.Json
