import WidgetStyle.Number.Numeral

/-!
# JSON values

A JSON value as it stands in a text: numbers are numerals, objects keep their members in the order
of the text with repeated keys, and strings keep halves of surrogate pairs apart, since a half
without its partner is no character but may be part of a text that is not looked at. Values are
written without blanks.
-/

namespace WidgetStyle

open Number (Numeral)

namespace Json

/-- A part of a string: a character, or half of a surrogate pair. -/
inductive Part where
  | char (c : Char)
  | half (code : UInt16)
deriving DecidableEq, Repr

end Json

inductive Json where
  | null
  | bool (value : Bool)
  | number (numeral : Numeral)
  | string (parts : List Json.Part)
  | array (items : List Json)
  | object (members : List (List Json.Part × Json))
deriving Repr

namespace Json

/-! ### Strings -/

/-- The characters of a string; none where a half has no partner. -/
def characters? : List Part → Option (List Char)
  | [] => some []
  | .char c :: parts => (characters? parts).map (c :: ·)
  | .half high :: .half low :: parts =>
    if high < 0xDC00 ∧ 0xDC00 ≤ low then
      (characters? parts).map
        (Char.ofNat (0x10000 + (high.toNat - 0xD800) * 0x400 + (low.toNat - 0xDC00)) :: ·)
    else none
  | .half _ :: _ => none

/-- The text of a string; none where a half has no partner. -/
def textOf? (parts : List Part) : Option String :=
  (characters? parts).map String.ofList

def partsOf (text : String) : List Part :=
  text.toList.map .char

def ofText (text : String) : Json :=
  .string (partsOf text)

def ofFields (fields : List (String × Json)) : Json :=
  .object (fields.map fun (name, value) => (partsOf name, value))

/-! ### The written form -/

/-- The hexadecimal digit of a number below 16. -/
def hexDigit (n : Nat) : Char :=
  if n < 10 then Char.ofNat (48 + n) else Char.ofNat (87 + n)

def escape (code : Nat) : List Char :=
  ['\\', 'u', hexDigit (code / 4096 % 16), hexDigit (code / 256 % 16), hexDigit (code / 16 % 16),
    hexDigit (code % 16)]

/-- A part of a string as it is written. Quotes, backslashes and control characters are escaped,
with a letter where there is one. -/
def Part.chars : Part → List Char
  | .half code => escape code.toNat
  | .char c =>
    match c with
    | '"' => ['\\', '"']
    | '\\' => ['\\', '\\']
    | '\x08' => ['\\', 'b']
    | '\x0c' => ['\\', 'f']
    | '\n' => ['\\', 'n']
    | '\r' => ['\\', 'r']
    | '\t' => ['\\', 't']
    | c => if c.toNat < 0x20 then escape c.toNat else [c]

def charsOfString (parts : List Part) : List Char :=
  '"' :: parts.flatMap Part.chars ++ ['"']

mutual

def chars : Json → List Char
  | null => ['n', 'u', 'l', 'l']
  | bool true => ['t', 'r', 'u', 'e']
  | bool false => ['f', 'a', 'l', 's', 'e']
  | number numeral => numeral.text
  | string parts => charsOfString parts
  | array items => '[' :: charsOfItems items ++ [']']
  | object members => '{' :: charsOfMembers members ++ ['}']

def charsOfItems : List Json → List Char
  | [] => []
  | [item] => chars item
  | item :: items => chars item ++ ',' :: charsOfItems items

def charsOfMembers : List (List Part × Json) → List Char
  | [] => []
  | [(key, value)] => charsOfString key ++ ':' :: chars value
  | (key, value) :: members =>
    charsOfString key ++ ':' :: chars value ++ ',' :: charsOfMembers members

end

def text (json : Json) : String :=
  String.ofList json.chars

end Json

end WidgetStyle
