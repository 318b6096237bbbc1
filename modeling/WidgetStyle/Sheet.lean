import WidgetStyle.Rule
import WidgetStyle.Sheet.Written

/-!
# Stylesheets

A stylesheet holds its rules in the order in which they are written, the diagnostics of the
declarations that were skipped, and the index of its rules. It is read in three steps: the text is
cut into tokens, the tokens are read as written rules, and each written rule is held against the
catalog. A fault in the first two steps refuses the whole text, the first one in the tokens before
any other.

A written declaration is accepted when its name is in the catalog and its value is a single token
that stands for a value of the attribute; else it is skipped with a complaint. Of several accepted
declarations of one attribute in a block the last one holds.
-/

namespace WidgetStyle

namespace Sheet

/-! ### What a written block declares -/

/-- The value that a token stands for. A number without unit stands for a value only where it is
zero. -/
def TokenKind.value? : TokenKind → Option Value
  | .word name => some (if name = "auto" then .auto else .keyword name)
  | .number amount suffix =>
    if suffix = "" then if amount.isZero then some .zero else none
    else (LengthUnit.ofSuffix? suffix).map fun unit => .dimension ⟨amount, unit⟩
  | _ => none

namespace WrittenDeclaration

/-- The value of a declaration, if it has exactly one token that is not blank and that stands for
a value. -/
def value? (written : WrittenDeclaration) : Option Value :=
  match written.value.filter fun token => token.kind != .blank with
  | [token] => token.kind.value?
  | _ => none

/-- The text from the first to the last token that is not blank. -/
def valueText (written : WrittenDeclaration) : String :=
  String.ofList ((skipBlanks (skipBlanks written.value).reverse).reverse.flatMap Token.text)

/-- What the catalog makes of a written declaration. -/
def judge (written : WrittenDeclaration) : Except Complaint Declaration :=
  match Attribute.ofName? written.name with
  | none => .error (.unknownAttribute written.name)
  | some target =>
    match written.value?.filter target.accepts with
    | some value => .ok ⟨target, value⟩
    | none => .error (.outsideDomain target written.valueText)

/-- The complaint about a declaration, placed in its stylesheet, if there is one. -/
def diagnostic? (source : List Char) (written : WrittenDeclaration) : Option Diagnostic :=
  match written.judge with
  | .ok _ => none
  | .error complaint => some ⟨complaint, positionOf source written.left⟩

end WrittenDeclaration

/-- The declarations with one more, which replaces an earlier one of the same attribute. -/
def declare (declarations : List Declaration) (next : Declaration) : List Declaration :=
  (declarations.filter fun declared => declared.target != next.target) ++ [next]

namespace WrittenRule

/-- The declarations that the block of a rule leaves. -/
def declarations (written : WrittenRule) : List Declaration :=
  (written.block.filterMap fun declaration => declaration.judge.toOption).foldl declare []

/-- The rule with its place in the stylesheet. -/
def rule (written : WrittenRule) (order : Nat) : Rule :=
  ⟨written.selectors, written.declarations, order⟩

end WrittenRule

end Sheet

/-! ### Sheets -/

/-- Rules with their index, and the diagnostics of what was skipped. -/
structure Sheet where
  rules : Array Rule
  diagnostics : List Sheet.Diagnostic
  index : Index
  index_eq : index = .ofRules rules.toList

namespace Sheet

def ofRules (rules : Array Rule) (diagnostics : List Diagnostic) : Sheet where
  rules
  diagnostics
  index := .ofRules rules.toList
  index_eq := rfl

def empty : Sheet :=
  ofRules #[] []

def size (sheet : Sheet) : Nat :=
  sheet.rules.size

/-- The numbers of the rules that could select the last node of a path. -/
def candidates (sheet : Sheet) (path : Path) : List Nat :=
  match path.getLast? with
  | some leaf => sheet.index.candidates leaf
  | none => []

/-- The written rules of a text, or its first fault. -/
def written (source : List Char) : Except Refusal (List WrittenRule) :=
  match tokens source with
  | .error refusal => .error refusal
  | .ok tokens => readRules tokens

/-- The rules that written rules stand for, the first of which has the given number. -/
def rulesFrom (number : Nat) : List WrittenRule → List Rule
  | [] => []
  | written :: more => written.rule number :: rulesFrom (number + 1) more

/-- The diagnostics of all declarations that are skipped, in the order of the text. -/
def diagnose (source : List Char) (rules : List WrittenRule) : List Diagnostic :=
  (rules.flatMap WrittenRule.block).filterMap fun declaration => declaration.diagnostic? source

/-- Read a stylesheet. Diagnostics are kept only where `record` is set. -/
def parse (source : String) (record : Bool := true) : Except FaultAt Sheet :=
  match written source.toList with
  | .error refusal => .error (refusal.place source.toList)
  | .ok rules =>
    .ok (ofRules (rulesFrom 0 rules).toArray (if record then diagnose source.toList rules else []))

end Sheet

end WidgetStyle
