/-!
# State formulas

A formula is a boolean condition on flags: a flag or its negation, or a run of formulas joined by
one operator. A run is n-ary, so that an exclusive run of three asks for an odd number of true
terms, and not for two comparisons in a row. Negation of a whole formula stands at its root only,
where a formula is read, and anywhere where one is built by hand.

The type of flags is a parameter: a formula over names is what is written, and a formula over
handles is what is evaluated.
-/

namespace WidgetStyle

/-- What joins the terms of a run. -/
inductive Operator where
  | all
  | any
  | odd
deriving DecidableEq, Repr

def Operator.mark : Operator → Char
  | all => '+'
  | any => '|'
  | odd => '^'

inductive Formula (α : Type) where
  | leaf (flag : α) (negated : Bool)
  | run (operator : Operator) (terms : List (Formula α))
  | not (inner : Formula α)
deriving Repr

namespace Formula

variable {α β : Type}

/-! ### Equality -/

section
variable [DecidableEq α]

mutual

protected def decEq : (a b : Formula α) → Decidable (a = b)
  | leaf flag negated, leaf flag' negated' =>
    if same : flag = flag' ∧ negated = negated' then
      isTrue (by rw [same.1, same.2])
    else isFalse (by intro equal; injection equal; exact same ⟨‹_›, ‹_›⟩)
  | run operator terms, run operator' terms' =>
    match decEq operator operator', Formula.decEqAll terms terms' with
    | isTrue first, isTrue second => isTrue (by rw [first, second])
    | isFalse apart, _ => isFalse (by intro equal; injection equal; exact apart ‹_›)
    | _, isFalse apart => isFalse (by intro equal; injection equal; exact apart ‹_›)
  | not inner, not inner' =>
    match Formula.decEq inner inner' with
    | isTrue same => isTrue (by rw [same])
    | isFalse apart => isFalse (by intro equal; injection equal; exact apart ‹_›)
  | leaf _ _, run _ _ | leaf _ _, not _ | run _ _, leaf _ _
  | run _ _, not _ | not _, leaf _ _ | not _, run _ _ => isFalse (by intro equal; cases equal)

protected def decEqAll : (as bs : List (Formula α)) → Decidable (as = bs)
  | [], [] => isTrue rfl
  | a :: as, b :: bs =>
    match Formula.decEq a b, Formula.decEqAll as bs with
    | isTrue first, isTrue second => isTrue (by rw [first, second])
    | isFalse apart, _ => isFalse (by intro equal; injection equal; exact apart ‹_›)
    | _, isFalse apart => isFalse (by intro equal; injection equal; exact apart ‹_›)
  | [], _ :: _ | _ :: _, [] => isFalse (by intro equal; cases equal)

end

instance : DecidableEq (Formula α) :=
  Formula.decEq

end

/-! ### Other flags -/

mutual

def map (f : α → β) : Formula α → Formula β
  | leaf flag negated => leaf (f flag) negated
  | run operator terms => run operator (mapAll f terms)
  | not inner => not (map f inner)

def mapAll (f : α → β) : List (Formula α) → List (Formula β)
  | [] => []
  | term :: terms => map f term :: mapAll f terms

end

/-! ### The written form -/

def separator (operator : Operator) : List Char :=
  [' ', operator.mark, ' ']

mutual

/-- The characters of a formula over names. A run is put in parentheses where it is `nested` in
another one. -/
def chars (nested : Bool) : Formula String → List Char
  | leaf name negated => (if negated then ['!'] else []) ++ name.toList
  | run operator terms =>
    if nested then '(' :: charsOfRun operator terms ++ [')'] else charsOfRun operator terms
  | not inner => '!' :: '(' :: chars false inner ++ [')']

def charsOfRun (operator : Operator) : List (Formula String) → List Char
  | [] => []
  | term :: terms => chars true term ++ charsOfTail operator terms

def charsOfTail (operator : Operator) : List (Formula String) → List Char
  | [] => []
  | term :: terms => separator operator ++ chars true term ++ charsOfTail operator terms

end

def text (formula : Formula String) : String :=
  String.ofList (formula.chars false)

end Formula

end WidgetStyle
