import WidgetStyle.Attribute
import WidgetStyle.Text.Position

/-!
# Faults and complaints

A fault in the structure of a stylesheet refuses the whole text. A complaint is about a single
declaration that the catalog cannot take: the declaration is skipped, and the complaint is kept as
a diagnostic. While a text is read, a place is known by the number of bytes from there to the end;
with the whole text at hand it becomes a position.
-/

namespace WidgetStyle.Sheet

open Text (Position)

inductive Fault where
  | unterminatedComment
  | malformedNumber
  | missingHashName
  | unexpectedCharacter (c : Char)
  | missingOpenBrace
  | missingSelector
  | missingClassName
  | unterminatedBlock
  | missingAttributeName
  | missingColon (name : String)
  | braceInValue
deriving DecidableEq, Repr

def Fault.message : Fault → String
  | unterminatedComment => "Unterminated comment"
  | malformedNumber => "Malformed number"
  | missingHashName => "Expected name after '#'"
  | unexpectedCharacter c => "Unexpected character '" ++ c.toString ++ "'"
  | missingOpenBrace => "Expected '\x7b' after selector"
  | missingSelector => "Expected selector"
  | missingClassName => "Expected class name after '.'"
  | unterminatedBlock => "Unterminated block"
  | missingAttributeName => "Expected attribute name"
  | missingColon name => "Expected ':' after `" ++ name ++ "`"
  | braceInValue => "Unexpected token in value"

/-- A fault, with the number of bytes from its place to the end of the text. -/
structure Refusal where
  fault : Fault
  left : Nat
deriving DecidableEq, Repr

structure FaultAt where
  fault : Fault
  position : Position
deriving DecidableEq, Repr

namespace FaultAt

def message (e : FaultAt) : String :=
  "Syntax error at " ++ e.position.text ++ ": " ++ e.fault.message

end FaultAt

/-- The position of a place that has `left` bytes behind it. -/
def positionOf (source : List Char) (left : Nat) : Position :=
  Position.locate source (Text.byteLength source - left)

def Refusal.place (refusal : Refusal) (source : List Char) : FaultAt :=
  ⟨refusal.fault, positionOf source refusal.left⟩

/-- Why a declaration is skipped: its attribute is not in the catalog, or its value, given as
written, is not one that the attribute accepts. -/
inductive Complaint where
  | unknownAttribute (name : String)
  | outsideDomain (target : Attribute) (written : String)
deriving DecidableEq, Repr

/-- A complaint at the position of the declaration's name. -/
structure Diagnostic where
  complaint : Complaint
  position : Position
deriving DecidableEq, Repr

def Diagnostic.message (diagnostic : Diagnostic) : String :=
  match diagnostic.complaint with
  | .unknownAttribute name =>
    "Unknown attribute `" ++ name ++ "` at " ++ diagnostic.position.text
  | .outsideDomain target written =>
    "Invalid value for " ++ target.name ++ " at " ++ diagnostic.position.text ++
      ": `" ++ written ++ "`"

end WidgetStyle.Sheet
