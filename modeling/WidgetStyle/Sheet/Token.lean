import WidgetStyle.Sheet.Fault
import WidgetStyle.Text.Characters

/-!
# Tokens of a stylesheet

A stylesheet is cut into tokens, each with the characters it consists of, so that the texts of the
tokens joined together are the source again (`read_eq`, `tokens_eq`). Blanks are tokens, since they
separate selectors; a comment is a blank, and blanks and comments in a row are one token.
-/

namespace WidgetStyle.Sheet

open Number (Single Numeral Digit)
open Text (isBlank isAlphabetic isNumeric byteLength)

inductive TokenKind where
  | word (name : String)
  | number (value : Single) (suffix : String)
  | hash (name : String)
  | dot
  | star
  | greater
  | comma
  | colon
  | semicolon
  | openBrace
  | closeBrace
  | blank
deriving DecidableEq, Repr

structure Token where
  kind : TokenKind
  text : List Char
deriving DecidableEq, Repr

def byteLengthOf : List Token → Nat
  | [] => 0
  | token :: tokens => byteLength token.text + byteLengthOf tokens

/-! ### Characters of names -/

/-- A name starts with a letter or an underscore. -/
def isNameStart (c : Char) : Bool :=
  isAlphabetic c || c == '_'

/-- A name goes on with letters, numbers of any script, underscores and hyphens. -/
def isNameChar (c : Char) : Bool :=
  isAlphabetic c || isNumeric c || c == '_' || c == '-'

/-- Whether a number starts at `c`: with a digit, a point before a digit, or a minus sign before
one of the two. A minus sign before any point is read as the start of a number. -/
def startsNumber (c : Char) (cs : List Char) : Bool :=
  (Digit.ofChar? c).isSome ||
  c == '.' && (cs.head?.bind Digit.ofChar?).isSome ||
  c == '-' && cs.head?.any fun next => next == '.' || (Digit.ofChar? next).isSome

/-- Whether a name starts at `c`: with a letter or underscore, perhaps behind one hyphen. -/
def startsWord (c : Char) (cs : List Char) : Bool :=
  isNameStart c || c == '-' && cs.head?.any isNameStart

def mark? : Char → Option TokenKind
  | '.' => some .dot
  | '*' => some .star
  | '>' => some .greater
  | ',' => some .comma
  | ':' => some .colon
  | ';' => some .semicolon
  | '{' => some .openBrace
  | '}' => some .closeBrace
  | _ => none

/-! ### Reading one token -/

/-- The blanks and comments at the front of a text, and what follows them. Inside a comment,
`comment` is the number of bytes from its opening to the end of the text. -/
def readBlanks : (comment : Option Nat) → List Char → Except Refusal (List Char × List Char)
  | none, '/' :: '*' :: cs =>
    match readBlanks (some (byteLength ('/' :: '*' :: cs))) cs with
    | .ok (text, rest) => .ok ('/' :: '*' :: text, rest)
    | .error refusal => .error refusal
  | none, c :: cs =>
    if isBlank c then
      match readBlanks none cs with
      | .ok (text, rest) => .ok (c :: text, rest)
      | .error refusal => .error refusal
    else .ok ([], c :: cs)
  | none, [] => .ok ([], [])
  | some _, '*' :: '/' :: cs =>
    match readBlanks none cs with
    | .ok (text, rest) => .ok ('*' :: '/' :: text, rest)
    | .error refusal => .error refusal
  | some opening, c :: cs =>
    match readBlanks (some opening) cs with
    | .ok (text, rest) => .ok (c :: text, rest)
    | .error refusal => .error refusal
  | some opening, [] => .error ⟨.unterminatedComment, opening⟩

/-- The unit suffix at the front of a text: a percent sign, a name, or nothing. -/
def readSuffix : List Char → List Char × List Char
  | [] => ([], [])
  | c :: cs =>
    if c = '%' then (['%'], cs)
    else if isNameStart c then
      ((c :: cs).takeWhile isNameChar, (c :: cs).dropWhile isNameChar)
    else ([], c :: cs)

/-- A number with its suffix at the front of a text. -/
def readNumber (cs : List Char) : Except Refusal (Token × List Char) :=
  let (numeral, behind) := Numeral.readPlain cs
  if numeral.digits.isEmpty then .error ⟨.malformedNumber, byteLength cs⟩
  else
    let (suffix, rest) := readSuffix behind
    .ok (⟨.number numeral.toSingle (String.ofList suffix), numeral.text ++ suffix⟩, rest)

/-- The token at the front of a non-empty text, and what follows it. -/
def read (c : Char) (cs : List Char) : Except Refusal (Token × List Char) :=
  if isBlank c || c == '/' && cs.head? == some '*' then
    match readBlanks none (c :: cs) with
    | .ok (text, rest) => .ok (⟨.blank, text⟩, rest)
    | .error refusal => .error refusal
  else if startsNumber c cs then readNumber (c :: cs)
  else if startsWord c cs then
    let name := (c :: cs).takeWhile isNameChar
    .ok (⟨.word (String.ofList name), name⟩, (c :: cs).dropWhile isNameChar)
  else if c = '#' then
    let name := cs.takeWhile isNameChar
    if name.isEmpty then .error ⟨.missingHashName, byteLength (c :: cs)⟩
    else .ok (⟨.hash (String.ofList name), c :: name⟩, cs.dropWhile isNameChar)
  else
    match mark? c with
    | some kind => .ok (⟨kind, [c]⟩, cs)
    | none => .error ⟨.unexpectedCharacter c, byteLength (c :: cs)⟩

end WidgetStyle.Sheet
