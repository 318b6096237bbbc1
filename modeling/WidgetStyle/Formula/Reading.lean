import WidgetStyle.Formula.Token

/-!
# Reading formulas

A formula text is a run: terms with one kind of operator between them. A term is a name, a name
behind a negation, or a run in parentheses. The tokens are read one after the other. What has been
read at any moment is a run that still grows, inside of runs that wait for the closing of a
parenthesis; the number of those that wait is limited.
-/

namespace WidgetStyle.Formula

/-- A run as far as it has been read: its operator, once there is one, and its terms. -/
structure Growing where
  operator : Option Operator
  terms : List (Formula String)
deriving DecidableEq, Repr

namespace Growing

def start : Growing :=
  ⟨none, []⟩

def push (run : Growing) (term : Formula String) : Growing :=
  { run with terms := run.terms ++ [term] }

/-- The formula of a run. A single term stands for itself. -/
def formula (run : Growing) : Formula String :=
  match run.operator, run.terms with
  | none, [term] => term
  | operator, terms => .run (operator.getD .all) terms

end Growing

/-- A run that waits for the closing of a parenthesis, and the offset of its opening. -/
structure Waiting where
  run : Growing
  opening : Nat
deriving DecidableEq, Repr

/-- What has to come next: a term, the name behind a negation, or what may follow a term. -/
inductive Expected where
  | term
  | negatedName
  | operator
deriving DecidableEq, Repr

structure Progress where
  waiting : List Waiting
  run : Growing
  expected : Expected
deriving DecidableEq, Repr

namespace Progress

def start : Progress :=
  ⟨[], .start, .term⟩

def push (progress : Progress) (term : Formula String) : Progress :=
  { progress with run := progress.run.push term, expected := .operator }

/-- Where a term is missing, this is the fault. -/
def missingTerm (progress : Progress) : Fault :=
  progress.run.operator.elim .missingTerm .missingTermAfter

def readTerm (limit : Nat) (progress : Progress) (token : Token) : Except FaultAt Progress :=
  match token.kind with
  | .name name => .ok (progress.push (.leaf name false))
  | .negation => .ok { progress with expected := .negatedName }
  | .openGroup =>
    if progress.waiting.length < limit then
      .ok ⟨⟨progress.run, token.offset⟩ :: progress.waiting, .start, .term⟩
    else .error ⟨.tooDeep limit, token.offset⟩
  | .closeGroup =>
    .error ⟨progress.run.operator.elim .unexpectedClose .missingTermAfter, token.offset⟩
  | .operator _ => .error ⟨progress.missingTerm, token.offset⟩

/-- Read a token in the place of a name behind a negation. -/
def readNegatedName (progress : Progress) (token : Token) : Except FaultAt Progress :=
  match token.kind with
  | .name name => .ok (progress.push (.leaf name true))
  | .openGroup => .error ⟨.negatedGroup, token.offset⟩
  | _ => .error ⟨.missingNegatedFlag, token.offset⟩

def readOperator (progress : Progress) (token : Token) : Except FaultAt Progress :=
  match token.kind with
  | .operator operator =>
    match progress.run.operator.filter (· ≠ operator) with
    | some first => .error ⟨.mixedOperators first operator, token.offset⟩
    | none =>
      .ok { progress with run := { progress.run with operator := some operator }, expected := .term }
  | .closeGroup =>
    match progress.waiting with
    | [] => .error ⟨.unmatchedClose, token.offset⟩
    | outer :: waiting => .ok ⟨waiting, outer.run.push progress.run.formula, .operator⟩
  | .name _ | .negation | .openGroup =>
    match progress.waiting with
    | [] => .error ⟨.missingOperator, token.offset⟩
    | inner :: _ => .error ⟨.unmatchedOpen, inner.opening⟩

def read (limit : Nat) (progress : Progress) (token : Token) : Except FaultAt Progress :=
  match progress.expected with
  | .term => progress.readTerm limit token
  | .negatedName => progress.readNegatedName token
  | .operator => progress.readOperator token

def readAll (limit : Nat) (progress : Progress) : List Token → Except FaultAt Progress
  | [] => .ok progress
  | token :: tokens =>
    match progress.read limit token with
    | .error e => .error e
    | .ok progress => progress.readAll limit tokens

/-- The formula that has been read when the text ends at an offset. -/
def finish (progress : Progress) (offset : Nat) : Except FaultAt (Formula String) :=
  match progress.expected with
  | .term => .error ⟨progress.missingTerm, offset⟩
  | .negatedName => .error ⟨.missingNegatedFlag, offset⟩
  | .operator =>
    match progress.waiting with
    | [] => .ok progress.run.formula
    | inner :: _ => .error ⟨.unmatchedOpen, inner.opening⟩

end Progress

/-- The formula of a row of tokens; `finish` is the offset at which the text ends. -/
def ofTokens (limit finish : Nat) (tokens : List Token) : Except FaultAt (Formula String) :=
  if tokens.isEmpty then .error ⟨.empty, finish⟩
  else
    match Progress.start.readAll limit tokens with
    | .error e => .error e
    | .ok progress => progress.finish finish

/-- The nesting of parentheses that is accepted where nothing else is said. -/
def defaultLimit : Nat := 64

def parse (text : String) (limit : Nat := defaultLimit) : Except FaultAt (Formula String) :=
  match tokensFrom 0 text.toList with
  | .error e => .error e
  | .ok tokens => ofTokens limit (Text.byteLength text.toList) tokens

end WidgetStyle.Formula
