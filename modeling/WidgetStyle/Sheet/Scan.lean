import WidgetStyle.Number.Reading
import WidgetStyle.Sheet.Token
import WidgetStyle.Text.Position

/-!
# Scanning a stylesheet by offsets

The same tokens, found by a cursor that moves over the source. A token is known by the two byte
offsets between which it stands, and its name, its number and its suffix are slices of the source.
The character behind the next one is found in a slice, too. The last token marks the end of the
source.

A scan can so halt for other reasons than a fault of the source: a slice that is not there, or a
token without characters, behind which the next one would be the same for ever.
-/

namespace WidgetStyle.Sheet

open Number (Single isDigit)
open Text (isBlank byteLength slice?)

/-- Why a scan does not come to the end of its source. -/
inductive Halt where
  | fault (fault : Fault) (offset : Nat)
  | missingSlice (start stop : Nat)
  | endless (offset : Nat)
deriving DecidableEq, Repr

/-- A place in the source, with the characters that are still to come. -/
structure Cursor where
  offset : Nat
  rest : List Char
deriving DecidableEq, Repr

/-- A token by its span. No kind marks the end of the source. -/
structure Lexeme where
  kind : Option TokenKind
  start : Nat
  stop : Nat
deriving DecidableEq, Repr

namespace Cursor

def start (source : List Char) : Cursor :=
  ⟨0, source⟩

/-- Behind the next character, if there is one. -/
def advance (cursor : Cursor) : Cursor :=
  match cursor.rest with
  | [] => cursor
  | c :: cs => ⟨cursor.offset + c.utf8Size, cs⟩

def advanceWhile (p : Char → Bool) (cursor : Cursor) : Cursor :=
  ⟨cursor.offset + byteLength (cursor.rest.takeWhile p), cursor.rest.dropWhile p⟩

end Cursor

/-- The slice of the source from one offset to another. -/
def slice (source : List Char) (start stop : Nat) : Except Halt (List Char) :=
  match slice? source start stop with
  | some text => .ok text
  | none => .error (.missingSlice start stop)

/-- The character behind the next one, from the slice up to the end of the source. -/
def second (source : List Char) (cursor : Cursor) : Except Halt (Option Char) :=
  match slice source cursor.offset (byteLength source) with
  | .ok text => .ok text[1]?
  | .error halt => .error halt

/-- Move over a run of blanks and comments. Inside a comment, `comment` is the offset of its
opening. -/
def passBlanks (source : List Char) : (comment : Option Nat) → (offset : Nat) → List Char →
    Except Halt Cursor
  | none, offset, [] => .ok ⟨offset, []⟩
  | none, offset, c :: cs =>
    if isBlank c then passBlanks source none (offset + c.utf8Size) cs
    else if c = '/' then
      match second source ⟨offset, c :: cs⟩ with
      | .error halt => .error halt
      | .ok next =>
        if next = some '*' then
          match cs with
          | [] => .error (.fault .unterminatedComment offset)
          | next :: cs => passBlanks source (some offset) (offset + c.utf8Size + next.utf8Size) cs
        else .ok ⟨offset, c :: cs⟩
    else .ok ⟨offset, c :: cs⟩
  | some opening, _, [] => .error (.fault .unterminatedComment opening)
  | some opening, offset, c :: cs =>
    match c, cs with
    | '*', '/' :: cs => passBlanks source none (offset + '*'.utf8Size + '/'.utf8Size) cs
    | c, cs => passBlanks source (some opening) (offset + c.utf8Size) cs

def passMinus (cursor : Cursor) : Cursor :=
  if cursor.rest.head? = some '-' then cursor.advance else cursor

/-- Move over a point and the digits behind it, if there are some. -/
def passFraction (source : List Char) (cursor : Cursor) : Except Halt Cursor :=
  if cursor.rest.head? = some '.' then
    match second source cursor with
    | .error halt => .error halt
    | .ok next => .ok (if next.any isDigit then cursor.advance.advanceWhile isDigit else cursor)
  else .ok cursor

/-- Move over a minus sign, digits, and a point with digits behind it. -/
def passNumeral (source : List Char) (cursor : Cursor) : Except Halt Cursor :=
  passFraction source ((passMinus cursor).advanceWhile isDigit)

/-- The unit suffix at the cursor: a percent sign, a name, or nothing. -/
def scanSuffix (source : List Char) (cursor : Cursor) : Except Halt (List Char × Cursor) :=
  match cursor.rest with
  | [] => .ok ([], cursor)
  | c :: _ =>
    if c = '%' then
      match slice source cursor.offset (cursor.offset + 1) with
      | .error halt => .error halt
      | .ok suffix => .ok (suffix, cursor.advance)
    else if isNameStart c then
      let behind := cursor.advanceWhile isNameChar
      match slice source cursor.offset behind.offset with
      | .error halt => .error halt
      | .ok suffix => .ok (suffix, behind)
    else .ok ([], cursor)

/-- A number with its suffix. The slice of the number is read on its own. -/
def scanNumber (source : List Char) (cursor : Cursor) : Except Halt (TokenKind × Cursor) :=
  match passNumeral source cursor with
  | .error halt => .error halt
  | .ok behind =>
    match slice source cursor.offset behind.offset with
    | .error halt => .error halt
    | .ok text =>
      match Single.ofText? (String.ofList text) with
      | none => .error (.fault .malformedNumber cursor.offset)
      | some value =>
        match scanSuffix source behind with
        | .error halt => .error halt
        | .ok (suffix, behind) => .ok (.number value (String.ofList suffix), behind)

/-- A name from the cursor `first` up to where no more characters of names follow `cursor`. -/
def scanName (source : List Char) (first cursor : Cursor) : Except Halt (String × Cursor) :=
  let behind := cursor.advanceWhile isNameChar
  match slice source first.offset behind.offset with
  | .error halt => .error halt
  | .ok name => .ok (String.ofList name, behind)

/-- Whether the first characters of a token are looked at in pairs. -/
def looksAhead (c : Char) : Bool :=
  c == '/' || c == '.' || c == '-'

/-- The token at the cursor, and the cursor behind it. -/
def scanToken (source : List Char) (cursor : Cursor) :
    Except Halt (Option TokenKind × Cursor) :=
  match cursor.rest with
  | [] => .ok (none, cursor)
  | c :: cs =>
    match if looksAhead c then second source cursor else .ok none with
    | .error halt => .error halt
    | .ok next =>
      if isBlank c || c == '/' && next == some '*' then
        (passBlanks source none cursor.offset (c :: cs)).map fun behind => (some .blank, behind)
      else if isDigit c || c == '.' && next.any isDigit ||
          c == '-' && next.any fun next => next == '.' || isDigit next then
        (scanNumber source cursor).map fun found => (some found.1, found.2)
      else if c == '-' && next.any isNameStart then
        (scanName source cursor cursor.advance).map fun found => (some (.word found.1), found.2)
      else if isNameStart c then
        (scanName source cursor cursor).map fun found => (some (.word found.1), found.2)
      else if c = '#' then
        match scanName source cursor.advance cursor.advance with
        | .error halt => .error halt
        | .ok (name, behind) =>
          if name.isEmpty then .error (.fault .missingHashName cursor.offset)
          else .ok (some (.hash name), behind)
      else
        match mark? c with
        | some kind => .ok (some kind, cursor.advance)
        | none => .error (.fault (.unexpectedCharacter c) cursor.offset)

/-- The tokens from the cursor on. -/
def scanFrom (source : List Char) (cursor : Cursor) : Except Halt (List Lexeme) :=
  match scanToken source cursor with
  | .error halt => .error halt
  | .ok (none, behind) => .ok [⟨none, cursor.offset, behind.offset⟩]
  | .ok (some kind, behind) =>
    if behind.rest.length < cursor.rest.length then
      match scanFrom source behind with
      | .error halt => .error halt
      | .ok more => .ok (⟨some kind, cursor.offset, behind.offset⟩ :: more)
    else .error (.endless cursor.offset)
termination_by cursor.rest.length

def scan (source : List Char) : Except Halt (List Lexeme) :=
  scanFrom source (.start source)

end WidgetStyle.Sheet
