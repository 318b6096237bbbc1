import WidgetStyle.Formula
import WidgetStyle.Text.Characters
import WidgetStyle.Text.Position

/-!
# Tokens of a formula text

A formula text consists of names and of the characters for operators, negation and parentheses.
Blanks separate names and mean nothing else. Why a text is not a formula is told by a fault. Places
of tokens and faults are byte offsets into the text.
-/

namespace WidgetStyle.Formula

open Text (isBlank isAlphabetic isNumeric byteLength)

/-! ### Faults -/

inductive Fault where
  | unexpectedCharacter (c : Char)
  | empty
  | missingTerm
  | missingTermAfter (operator : Operator)
  | missingNegatedFlag
  | negatedGroup
  | unexpectedClose
  | unmatchedClose
  | unmatchedOpen
  | missingOperator
  | mixedOperators (first second : Operator)
  | tooDeep (limit : Nat)
deriving DecidableEq, Repr

def Fault.message : Fault → String
  | unexpectedCharacter c => "Unexpected character '" ++ c.toString ++ "'"
  | empty => "Empty expression"
  | missingTerm => "Expected identifier"
  | missingTermAfter operator => "Expected identifier after '" ++ operator.mark.toString ++ "'"
  | missingNegatedFlag => "Expected identifier after '!'"
  | negatedGroup => "'!' applies only to a flag name"
  | unexpectedClose => "Unexpected ')'"
  | unmatchedClose => "Unmatched ')'"
  | unmatchedOpen => "Unmatched '('"
  | missingOperator => "Expected operator"
  | mixedOperators first second =>
    "Cannot mix '" ++ first.mark.toString ++ "' and '" ++ second.mark.toString ++
      "' without parentheses"
  | tooDeep limit => "Expression nested deeper than " ++ toString limit ++ " levels"

/-- A fault with the byte offset of its place. -/
structure FaultAt where
  fault : Fault
  offset : Nat
deriving DecidableEq, Repr

def FaultAt.message (e : FaultAt) : String :=
  "Syntax error at offset " ++ toString e.offset ++ ": " ++ e.fault.message

/-! ### Tokens -/

inductive TokenKind where
  | name (name : String)
  | operator (operator : Operator)
  | negation
  | openGroup
  | closeGroup
deriving DecidableEq, Repr

structure Token where
  kind : TokenKind
  offset : Nat
deriving DecidableEq, Repr

/-- Names consist of letters and numbers of any script and of underscores. -/
def isNameChar (c : Char) : Bool :=
  isAlphabetic c || isNumeric c || c == '_'

def mark? : Char → Option TokenKind
  | '+' => some (.operator .all)
  | '|' => some (.operator .any)
  | '^' => some (.operator .odd)
  | '!' => some .negation
  | '(' => some .openGroup
  | ')' => some .closeGroup
  | _ => none

/-- The tokens of a text that starts at an offset, or the first character that is in no token. -/
def tokensFrom (offset : Nat) : List Char → Except FaultAt (List Token)
  | [] => .ok []
  | c :: cs =>
    if isBlank c then tokensFrom (offset + c.utf8Size) cs
    else
      match mark? c with
      | some kind =>
        match tokensFrom (offset + c.utf8Size) cs with
        | .error e => .error e
        | .ok more => .ok (⟨kind, offset⟩ :: more)
      | none =>
        if isNameChar c then
          have : (cs.dropWhile isNameChar).length < cs.length + 1 :=
            Nat.lt_succ_of_le (List.dropWhile_sublist _).length_le
          match tokensFrom (offset + byteLength (c :: cs.takeWhile isNameChar))
              (cs.dropWhile isNameChar) with
          | .error e => .error e
          | .ok more => .ok (⟨.name (String.ofList (c :: cs.takeWhile isNameChar)), offset⟩ :: more)
        else .error ⟨.unexpectedCharacter c, offset⟩
termination_by cs => cs.length

end WidgetStyle.Formula
