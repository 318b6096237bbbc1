import WidgetStyle.Selector
import WidgetStyle.Sheet.Tokens

/-!
# Stylesheets as they are written

The structure of a stylesheet, read from its tokens: rules, each with selector chains and a block
of declarations. A declaration is a name and whatever tokens stand behind its colon; whether the
catalog takes it is not asked here. Each reader gives what it read with the tokens behind it, or
the first fault.

Between selectors blanks are a combinator, so they are looked at before they are skipped. All
other blanks mean nothing.
-/

namespace WidgetStyle.Sheet

/-- A declaration as it is written: its name, the tokens from the colon to the end of the value,
and the bytes from the name to the end of the stylesheet. -/
structure WrittenDeclaration where
  name : String
  value : List Token
  left : Nat
deriving DecidableEq, Repr

structure WrittenRule where
  selectors : List Chain
  block : List WrittenDeclaration
deriving DecidableEq, Repr

/-- The tokens behind the blanks at the front. -/
def skipBlanks (tokens : List Token) : List Token :=
  tokens.dropWhile fun token => token.kind == .blank

theorem length_skipBlanks (tokens : List Token) : (skipBlanks tokens).length ≤ tokens.length :=
  (List.dropWhile_sublist _).length_le

/-! ### Selectors -/

def startsSelector : List Token → Bool
  | ⟨.word _, _⟩ :: _ | ⟨.star, _⟩ :: _ | ⟨.dot, _⟩ :: _ | ⟨.hash _, _⟩ :: _ => true
  | _ => false

/-- The classes and ids at the front, put into a selector. A later one replaces an earlier one. -/
def readParts (selector : SimpleSelector) :
    List Token → Except Refusal (SimpleSelector × List Token)
  | ⟨.dot, _⟩ :: ⟨.word name, _⟩ :: rest => readParts { selector with className := some name } rest
  | ⟨.dot, _⟩ :: rest => .error ⟨.missingClassName, byteLengthOf rest⟩
  | ⟨.hash name, _⟩ :: rest => readParts { selector with id := some name } rest
  | rest => .ok (selector, rest)

def readSelector (tokens : List Token) : Except Refusal (SimpleSelector × List Token) :=
  match tokens with
  | ⟨.word name, _⟩ :: rest => readParts { SimpleSelector.any with element := some name } rest
  | ⟨.star, _⟩ :: rest => readParts .any rest
  | ⟨.dot, _⟩ :: _ | ⟨.hash _, _⟩ :: _ => readParts .any tokens
  | _ => .error ⟨.missingSelector, byteLengthOf tokens⟩

/-- The combinator at the front, with the tokens of the selector it leads to. -/
def readCombinator (tokens : List Token) : Option (Combinator × List Token) :=
  match skipBlanks tokens with
  | ⟨.greater, _⟩ :: rest => some (.child, skipBlanks rest)
  | behind =>
    if behind.length < tokens.length ∧ startsSelector behind then some (.descendant, behind)
    else none

theorem length_readParts {selector found : SimpleSelector} {tokens rest : List Token}
    (done : readParts selector tokens = .ok (found, rest)) : rest.length ≤ tokens.length := by
  fun_induction readParts selector tokens <;> simp_all <;> omega

theorem length_readSelector {found : SimpleSelector} {tokens rest : List Token}
    (done : readSelector tokens = .ok (found, rest)) : rest.length < tokens.length := by
  unfold readSelector at done
  split at done
  · have := length_readParts done
    simp only [List.length_cons]
    omega
  · have := length_readParts done
    simp only [List.length_cons]
    omega
  · unfold readParts at done
    split at done <;> simp_all
    have := length_readParts done
    omega
  · simp only [readParts] at done
    have := length_readParts done
    simp only [List.length_cons]
    omega
  · cases done

theorem length_readCombinator {tokens rest : List Token} {combinator : Combinator}
    (done : readCombinator tokens = some (combinator, rest)) : rest.length < tokens.length := by
  have skipped := length_skipBlanks tokens
  unfold readCombinator at done
  split at done
  · next tail front =>
    have := length_skipBlanks tail
    rw [front, List.length_cons] at skipped
    cases done
    omega
  · split at done
    · next shorter =>
      cases done
      exact shorter.1
    · cases done

/-- The chain that starts with `chain` and goes on at the front. -/
def readLinks (chain : Chain) (tokens : List Token) : Except Refusal (Chain × List Token) :=
  match joined : readCombinator tokens with
  | none => .ok (chain, skipBlanks tokens)
  | some (combinator, behind) =>
    match done : readSelector behind with
    | .error refusal => .error refusal
    | .ok (selector, rest) =>
      have := length_readCombinator joined
      have := length_readSelector done
      readLinks (chain.extend combinator selector) rest
termination_by tokens.length

def readChain (tokens : List Token) : Except Refusal (Chain × List Token) :=
  match readSelector tokens with
  | .error refusal => .error refusal
  | .ok (selector, rest) => readLinks (.single selector) rest

theorem length_readLinks {chain found : Chain} {tokens rest : List Token}
    (done : readLinks chain tokens = .ok (found, rest)) : rest.length ≤ tokens.length := by
  fun_induction readLinks chain tokens with
  | case1 =>
    cases done
    exact length_skipBlanks _
  | case2 => cases done
  | case3 chain tokens combinator behind joined selector tail step shorter smaller ih =>
    have := ih done
    omega

theorem length_readChain {found : Chain} {tokens rest : List Token}
    (done : readChain tokens = .ok (found, rest)) : rest.length < tokens.length := by
  unfold readChain at done
  split at done
  · cases done
  · next step =>
    have := length_readSelector step
    have := length_readLinks done
    omega

/-- The chains at the front, with commas between them. -/
def readChains (tokens : List Token) : Except Refusal (List Chain × List Token) :=
  match done : readChain tokens with
  | .error refusal => .error refusal
  | .ok (chain, behind) =>
    match front : skipBlanks behind with
    | ⟨.comma, _⟩ :: next =>
      have : (skipBlanks next).length < tokens.length := by
        have := length_readChain done
        have := length_skipBlanks behind
        have := length_skipBlanks next
        simp_all
        omega
      match readChains (skipBlanks next) with
      | .error refusal => .error refusal
      | .ok (chains, rest) => .ok (chain :: chains, rest)
    | rest => .ok ([chain], rest)
termination_by tokens.length

/-! ### Blocks -/

def endsValue (token : Token) : Bool :=
  match token.kind with
  | .semicolon | .openBrace | .closeBrace => true
  | _ => false

/-- The declarations up to the closing brace. Semicolons end a value and else mean nothing;
`opening` is the number of bytes from the opening brace to the end of the stylesheet. -/
def readBlock (opening : Nat) (tokens : List Token) :
    Except Refusal (List WrittenDeclaration × List Token) :=
  match tokens with
  | [] => .error ⟨.unterminatedBlock, opening⟩
  | ⟨.blank, _⟩ :: rest | ⟨.semicolon, _⟩ :: rest => readBlock opening rest
  | ⟨.closeBrace, _⟩ :: rest => .ok ([], rest)
  | ⟨.word name, text⟩ :: behind =>
    match front : skipBlanks behind with
    | ⟨.colon, _⟩ :: value =>
      match stop : value.dropWhile (!endsValue ·) with
      | ⟨.openBrace, text⟩ :: rest =>
        .error ⟨.braceInValue, byteLengthOf (⟨.openBrace, text⟩ :: rest)⟩
      | next =>
        have : next.length < behind.length + 1 := by
          have := length_skipBlanks behind
          have := (List.dropWhile_sublist (l := value) (!endsValue ·)).length_le
          simp_all
          omega
        match readBlock opening next with
        | .error refusal => .error refusal
        | .ok (declarations, rest) =>
          .ok ({ name
                 value := value.takeWhile (!endsValue ·)
                 left := byteLengthOf (⟨.word name, text⟩ :: behind) } :: declarations, rest)
    | next => .error ⟨.missingColon name, byteLengthOf next⟩
  | tokens => .error ⟨.missingAttributeName, byteLengthOf tokens⟩
termination_by tokens.length

theorem length_readBlock {opening : Nat} {tokens rest : List Token}
    {block : List WrittenDeclaration} (done : readBlock opening tokens = .ok (block, rest)) :
    rest.length < tokens.length := by
  fun_induction readBlock opening tokens generalizing block rest <;> simp_all <;> grind

/-! ### Rules -/

theorem length_readChains {found : List Chain} {tokens rest : List Token}
    (done : readChains tokens = .ok (found, rest)) : rest.length < tokens.length := by
  fun_induction readChains tokens generalizing found rest with
  | case1 => cases done
  | case2 => cases done
  | case3 tokens chain behind step text next front shorter chains tail inner ih =>
    cases done
    have := ih inner
    omega
  | case4 tokens chain behind step =>
    cases done
    have := length_readChain step
    have := length_skipBlanks behind
    omega

def readRule (tokens : List Token) : Except Refusal (WrittenRule × List Token) :=
  match readChains tokens with
  | .error refusal => .error refusal
  | .ok (selectors, behind) =>
    match behind with
    | ⟨.openBrace, _⟩ :: inside =>
      match readBlock (byteLengthOf behind) inside with
      | .error refusal => .error refusal
      | .ok (block, rest) => .ok (⟨selectors, block⟩, rest)
    | _ => .error ⟨.missingOpenBrace, byteLengthOf behind⟩

theorem length_readRule {found : WrittenRule} {tokens rest : List Token}
    (done : readRule tokens = .ok (found, rest)) : rest.length < tokens.length := by
  unfold readRule at done
  split at done
  · cases done
  · next chains =>
    have := length_readChains chains
    split at done
    · split at done
      · cases done
      · next block =>
        cases done
        have := length_readBlock block
        simp only [List.length_cons] at *
        omega
    · cases done

def readRules (tokens : List Token) : Except Refusal (List WrittenRule) :=
  match front : skipBlanks tokens with
  | [] => .ok []
  | token :: more =>
    match done : readRule (token :: more) with
    | .error refusal => .error refusal
    | .ok (rule, rest) =>
      have : rest.length < tokens.length := by
        have := length_readRule done
        have := length_skipBlanks tokens
        simp_all
        omega
      match readRules rest with
      | .error refusal => .error refusal
      | .ok rules => .ok (rule :: rules)
termination_by tokens.length

end WidgetStyle.Sheet
