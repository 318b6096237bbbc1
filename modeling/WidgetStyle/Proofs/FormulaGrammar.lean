import WidgetStyle.Formula.Token

/-!
# The grammar of formulas

What a formula is, as a grammar over rows of tokens, with no regard to how it is read:

    expr = term (operator term)*        with one operator in the whole run
    term = name | '!' name | '(' expr ')'

A derivation gives the formula: a run of two or more terms is one node with all of them, and a
single term stands for itself, as a group stands for what is inside. The number `room` limits how
deep parentheses stand inside of each other.
-/

namespace WidgetStyle.Formula

mutual

/-- `term`. -/
inductive TermOf : Nat → List TokenKind → Formula String → Prop
  | name (room : Nat) (name : String) : TermOf room [.name name] (.leaf name false)
  | negated (room : Nat) (name : String) : TermOf room [.negation, .name name] (.leaf name true)
  | group {room : Nat} {kinds : List TokenKind} {formula : Formula String}
      (hinside : ExprOf room kinds formula) :
      TermOf (room + 1) (.openGroup :: kinds ++ [.closeGroup]) formula

/-- `expr`. -/
inductive ExprOf : Nat → List TokenKind → Formula String → Prop
  | single {room : Nat} {kinds : List TokenKind} {term : Formula String}
      (hterm : TermOf room kinds term) : ExprOf room kinds term
  | run {room : Nat} {first rest : List TokenKind} {term : Formula String}
      {terms : List (Formula String)} (operator : Operator) (hfirst : TermOf room first term)
      (hrest : TailOf room operator rest terms) (hsome : terms ≠ []) :
      ExprOf room (first ++ rest) (.run operator (term :: terms))

/-- `(operator term)*`. -/
inductive TailOf : Nat → Operator → List TokenKind → List (Formula String) → Prop
  | nil (room : Nat) (operator : Operator) : TailOf room operator [] []
  | cons {room : Nat} {operator : Operator} {first rest : List TokenKind}
      {term : Formula String} {terms : List (Formula String)} (hfirst : TermOf room first term)
      (hrest : TailOf room operator rest terms) :
      TailOf room operator (.operator operator :: first ++ rest) (term :: terms)

end

theorem TailOf.append_singleton {room : Nat} {operator : Operator} {kinds last : List TokenKind}
    {terms : List (Formula String)} {term : Formula String}
    (htail : TailOf room operator kinds terms) (hlast : TermOf room last term) :
    TailOf room operator (kinds ++ .operator operator :: last) (terms ++ [term]) := by
  induction terms generalizing kinds with
  | nil =>
    cases htail
    have hsingle := TailOf.cons hlast (.nil room operator)
    rwa [List.append_nil] at hsingle
  | cons first terms ih =>
    cases htail with
    | cons hfirst hrest =>
      rw [List.append_assoc]
      exact .cons hfirst (ih hrest)

/-! ### Room -/

mutual

theorem TermOf.mono {room room' : Nat} (hle : room ≤ room') {kinds : List TokenKind}
    {formula : Formula String} : TermOf room kinds formula → TermOf room' kinds formula
  | .name _ name => .name room' name
  | .negated _ name => .negated room' name
  | .group hinside => by
    cases room' with
    | zero => cases hle
    | succ room' => exact .group (hinside.mono (Nat.le_of_succ_le_succ hle))

theorem ExprOf.mono {room room' : Nat} (hle : room ≤ room') {kinds : List TokenKind}
    {formula : Formula String} : ExprOf room kinds formula → ExprOf room' kinds formula
  | .single hterm => .single (hterm.mono hle)
  | .run operator hfirst hrest hsome => .run operator (hfirst.mono hle) (hrest.mono hle) hsome

theorem TailOf.mono {room room' : Nat} (hle : room ≤ room') {operator : Operator}
    {kinds : List TokenKind} {terms : List (Formula String)} :
    TailOf room operator kinds terms → TailOf room' operator kinds terms
  | .nil _ operator => .nil room' operator
  | .cons hfirst hrest => .cons (hfirst.mono hle) (hrest.mono hle)

end

/-! ### Formulas that are written -/

mutual

/-- No part of the formula is the negation of a whole formula. -/
inductive NotFree {α : Type} : Formula α → Prop
  | leaf (flag : α) (negated : Bool) : NotFree (.leaf flag negated)
  | run (operator : Operator) {terms : List (Formula α)} (hterms : AllNotFree terms) :
      NotFree (.run operator terms)

inductive AllNotFree {α : Type} : List (Formula α) → Prop
  | nil : AllNotFree []
  | cons {term : Formula α} {terms : List (Formula α)} (hterm : NotFree term)
      (hterms : AllNotFree terms) : AllNotFree (term :: terms)

end

mutual

theorem TermOf.notFree {room : Nat} {kinds : List TokenKind} {formula : Formula String} :
    TermOf room kinds formula → formula.NotFree
  | .name _ name => .leaf name false
  | .negated _ name => .leaf name true
  | .group hinside => hinside.notFree

theorem ExprOf.notFree {room : Nat} {kinds : List TokenKind} {formula : Formula String} :
    ExprOf room kinds formula → formula.NotFree
  | .single hterm => hterm.notFree
  | .run operator hfirst hrest _ => .run operator (.cons hfirst.notFree hrest.notFree)

theorem TailOf.notFree {room : Nat} {operator : Operator} {kinds : List TokenKind}
    {terms : List (Formula String)} : TailOf room operator kinds terms → AllNotFree terms
  | .nil _ _ => .nil
  | .cons hfirst hrest => .cons hfirst.notFree hrest.notFree

end

end WidgetStyle.Formula
