/-!
# Positions in a text

Texts are read as lists of characters. An offset counts the bytes of their UTF-8 form, a line ends
at a line feed and nowhere else, and a column counts characters. Lines and columns are 32-bit
words that start at one.

A slice is the part of a text between two byte offsets. There is none where one of them lies inside
a character or behind the end, or where they are the wrong way round.
-/

namespace WidgetStyle.Text

/-- The number of bytes of a text in UTF-8. -/
def byteLength : List Char → Nat
  | [] => 0
  | c :: cs => c.utf8Size + byteLength cs

/-- A place in a text: the byte offset, with the line and the column of the character there. -/
structure Position where
  offset : Nat
  line : UInt32
  column : UInt32
deriving DecidableEq, Repr

namespace Position

/-- The line and column reached from `line` and `column` by passing every character that starts
within the next `left` bytes. -/
def pass : (left : Nat) → List Char → (line column : UInt32) → UInt32 × UInt32
  | 0, _, line, column => (line, column)
  | _ + 1, [], line, column => (line, column)
  | left + 1, c :: cs, line, column =>
    if c = '\n' then pass (left + 1 - c.utf8Size) cs (line + 1) 1
    else pass (left + 1 - c.utf8Size) cs line (column + 1)

/-- The place of a byte offset. An offset past the end is moved to the end, and one inside a
character has the column behind that character. -/
def locate (source : List Char) (offset : Nat) : Position :=
  let offset := min offset (byteLength source)
  let (line, column) := pass offset source 1 1
  { offset, line, column }

def text (place : Position) : String :=
  toString place.line.toNat ++ ":" ++ toString place.column.toNat

example : (locate "a\nb".toList 2).text = "2:1" := by decide

end Position

/-! ### Slices -/

/-- What stands behind a number of bytes, if a character ends there. -/
def behind? : (count : Nat) → List Char → Option (List Char)
  | 0, cs => some cs
  | _ + 1, [] => none
  | count + 1, c :: cs =>
    if c.utf8Size ≤ count + 1 then behind? (count + 1 - c.utf8Size) cs else none

/-- What stands within a number of bytes, if a character ends there. -/
def front? : (count : Nat) → List Char → Option (List Char)
  | 0, _ => some []
  | _ + 1, [] => none
  | count + 1, c :: cs =>
    if c.utf8Size ≤ count + 1 then (front? (count + 1 - c.utf8Size) cs).map (c :: ·) else none

/-- The slice of a text from one byte offset to another. -/
def slice? (source : List Char) (start stop : Nat) : Option (List Char) :=
  if start ≤ stop then (behind? start source).bind (front? (stop - start)) else none

example : slice? "aé/".toList 1 3 = some ['é'] := by decide
example : slice? "aé/".toList 2 3 = none := by decide

end WidgetStyle.Text
