import WidgetStyle.Number.Layout

/-!
# Declared values

The values that stand in declarations, before an attribute gives them a type: a dimension, a
keyword, the word `auto`, or a bare zero. A bare zero is the length `0px` in every comparison and
every typed view, and differs from it only in how it is written.
-/

namespace WidgetStyle

open Number (Single)

/-- What the number of a dimension counts. -/
inductive LengthUnit where
  | px
  | percent
deriving DecidableEq, Repr

namespace LengthUnit

def suffix : LengthUnit → String
  | px => "px"
  | percent => "%"

/-- The unit with this suffix; suffixes are case-sensitive. -/
def ofSuffix? (suffix : String) : Option LengthUnit :=
  match suffix with
  | "px" => some px
  | "%" => some percent
  | _ => none

end LengthUnit

structure Dimension where
  value : Single
  unit : LengthUnit
deriving DecidableEq, Repr

namespace Dimension

def zero : Dimension := ⟨.zero, .px⟩

/-- Whether the number is zero, of either sign and with either unit. -/
def isZero (d : Dimension) : Bool :=
  d.value.isZero

/-- Equal numbers of one unit. -/
def equals (a b : Dimension) : Bool :=
  a.value.equals b.value && a.unit == b.unit

def text (d : Dimension) : String :=
  d.value.text ++ d.unit.suffix

end Dimension

inductive Value where
  | dimension (d : Dimension)
  | keyword (name : String)
  | auto
  | zero
deriving DecidableEq, Repr

namespace Value

def dimension? : Value → Option Dimension
  | dimension d => some d
  | zero => some .zero
  | keyword _ | auto => none

def keyword? : Value → Option String
  | keyword name => some name
  | dimension _ | auto | zero => none

/-- Equal as declared values: keywords by their names, `auto` only to itself, dimensions and the
bare zero as dimensions. -/
def equals : Value → Value → Bool
  | keyword a, keyword b => a == b
  | auto, auto => true
  | auto, _ | _, auto => false
  | keyword _, _ | _, keyword _ => false
  | dimension a, dimension b => a.equals b
  | dimension a, zero => a.equals .zero
  | zero, dimension b => Dimension.zero.equals b
  | zero, zero => true

def text : Value → String
  | dimension d => d.text
  | keyword name => name
  | auto => "auto"
  | zero => "0"

end Value

end WidgetStyle
