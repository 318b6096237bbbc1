import WidgetStyle.Sheet.Written

/-!
# The grammar of stylesheets

What a stylesheet is, as a grammar over rows of tokens, with no regard to how it is read:

    sheet  = (blank | rule)*
    rule   = chain (gap ',' gap chain)* gap '{' block '}'
    chain  = simple (joint simple)*            joint = gap '>' gap | blank
    simple = (word | '*') suffix* | suffix+    suffix = '.' word | hash
    block  = (blank | ';' | declaration)*
    declaration = word gap ':' value, and then ';' or the end of the block

A gap is one blank or nothing, and a value is any row of tokens without braces and semicolons.
Each relation says of a row of tokens what is written in it, so a derivation of a row as a sheet
fixes the rules that the sheet has.
-/

namespace WidgetStyle.Sheet.Grammar

/-- `gap`: one blank or nothing. -/
inductive Gap : List Token → Prop
  | none : Gap []
  | blank (text : List Char) : Gap [⟨.blank, text⟩]

/-! ### Selectors -/

/-- What stands behind the element of a simple selector. -/
inductive Suffix where
  | className (name : String)
  | id (name : String)

/-- The class of a suffix. -/
def Suffix.className? : Suffix → Option String
  | className name => some name
  | id _ => none

/-- The id of a suffix. -/
def Suffix.id? : Suffix → Option String
  | className _ => none
  | id name => some name

/-- `suffix*`. -/
inductive SuffixesOf : List Token → List Suffix → Prop
  | nil : SuffixesOf [] []
  | className {tokens : List Token} {suffixes : List Suffix} (dot text : List Char)
      (name : String) (hrest : SuffixesOf tokens suffixes) :
      SuffixesOf (⟨.dot, dot⟩ :: ⟨.word name, text⟩ :: tokens) (.className name :: suffixes)
  | id {tokens : List Token} {suffixes : List Suffix} (text : List Char) (name : String)
      (hrest : SuffixesOf tokens suffixes) :
      SuffixesOf (⟨.hash name, text⟩ :: tokens) (.id name :: suffixes)

/-- The selector with an element and suffixes. Of several classes the last one counts, and so of
several ids. -/
def compound (element : Option String) (suffixes : List Suffix) : SimpleSelector where
  element
  className := (suffixes.filterMap Suffix.className?).getLast?
  id := (suffixes.filterMap Suffix.id?).getLast?

/-- `simple`: a star is no element. -/
inductive SelectorOf : List Token → SimpleSelector → Prop
  | word {tokens : List Token} {suffixes : List Suffix} (name : String) (text : List Char)
      (hrest : SuffixesOf tokens suffixes) :
      SelectorOf (⟨.word name, text⟩ :: tokens) (compound (some name) suffixes)
  | star {tokens : List Token} {suffixes : List Suffix} (text : List Char)
      (hrest : SuffixesOf tokens suffixes) :
      SelectorOf (⟨.star, text⟩ :: tokens) (compound none suffixes)
  | bare {tokens : List Token} {suffixes : List Suffix} (hsome : suffixes ≠ [])
      (hrest : SuffixesOf tokens suffixes) : SelectorOf tokens (compound none suffixes)

/-- `joint`. -/
inductive JointOf : List Token → Combinator → Prop
  | child {before behind : List Token} (text : List Char) (hbefore : Gap before)
      (hbehind : Gap behind) : JointOf (before ++ ⟨.greater, text⟩ :: behind) .child
  | descendant (text : List Char) : JointOf [⟨.blank, text⟩] .descendant

/-- `(joint simple)*`. -/
inductive LinksOf : List Token → List Link → Prop
  | nil : LinksOf [] []
  | cons {joint simple tokens : List Token} {combinator : Combinator} {selector : SimpleSelector}
      {links : List Link} (hjoint : JointOf joint combinator) (hsimple : SelectorOf simple selector)
      (hrest : LinksOf tokens links) :
      LinksOf (joint ++ simple ++ tokens) (⟨combinator, selector⟩ :: links)

/-- `chain`, with its links in order. The first link has nothing on its left. -/
inductive ChainOf : List Token → List Link → Prop
  | mk {simple tokens : List Token} {selector : SimpleSelector} {links : List Link}
      (hsimple : SelectorOf simple selector) (hrest : LinksOf tokens links) :
      ChainOf (simple ++ tokens) (⟨.descendant, selector⟩ :: links)

/-- `chain (gap ',' gap chain)*`. -/
inductive ChainsOf : List Token → List (List Link) → Prop
  | single {tokens : List Token} {links : List Link} (hchain : ChainOf tokens links) :
      ChainsOf tokens [links]
  | cons {first before behind tokens : List Token} {links : List Link} {chains : List (List Link)}
      (text : List Char) (hchain : ChainOf first links) (hbefore : Gap before)
      (hbehind : Gap behind) (hrest : ChainsOf tokens chains) :
      ChainsOf (first ++ before ++ ⟨.comma, text⟩ :: behind ++ tokens) (links :: chains)

/-! ### Blocks -/

/-- `value`. -/
def ValueOf (tokens : List Token) : Prop :=
  ∀ token ∈ tokens,
    token.kind ≠ .openBrace ∧ token.kind ≠ .closeBrace ∧ token.kind ≠ .semicolon

/-- `block`, with `behind` bytes between its end and the end of the stylesheet. -/
inductive BlockOf (behind : Nat) : List Token → List WrittenDeclaration → Prop
  | nil : BlockOf behind [] []
  | blank {tokens : List Token} {block : List WrittenDeclaration} (text : List Char)
      (hrest : BlockOf behind tokens block) : BlockOf behind (⟨.blank, text⟩ :: tokens) block
  | semicolon {tokens : List Token} {block : List WrittenDeclaration} (text : List Char)
      (hrest : BlockOf behind tokens block) : BlockOf behind (⟨.semicolon, text⟩ :: tokens) block
  | ended {gap value tokens : List Token} {block : List WrittenDeclaration} (name : String)
      (text colon semicolon : List Char) (hgap : Gap gap) (hvalue : ValueOf value)
      (hrest : BlockOf behind tokens block) :
      BlockOf behind
        (⟨.word name, text⟩ :: gap ++ ⟨.colon, colon⟩ :: value ++ ⟨.semicolon, semicolon⟩ :: tokens)
        (⟨name, value, byteLengthOf
          (⟨.word name, text⟩ :: gap ++ ⟨.colon, colon⟩ :: value ++ ⟨.semicolon, semicolon⟩ :: tokens)
            + behind⟩ :: block)
  | last {gap value : List Token} (name : String) (text colon : List Char) (hgap : Gap gap)
      (hvalue : ValueOf value) :
      BlockOf behind (⟨.word name, text⟩ :: gap ++ ⟨.colon, colon⟩ :: value)
        [⟨name, value, byteLengthOf (⟨.word name, text⟩ :: gap ++ ⟨.colon, colon⟩ :: value)
          + behind⟩]

/-! ### Rules -/

/-- What is written in a rule: the links of each chain, and the declarations. -/
structure Rule where
  chains : List (List Link)
  block : List WrittenDeclaration

/-- `rule`, with `behind` bytes between its end and the end of the stylesheet. -/
inductive RuleOf (behind : Nat) : List Token → Rule → Prop
  | mk {head gap inside : List Token} {chains : List (List Link)}
      {block : List WrittenDeclaration} (opening closing : List Char)
      (hhead : ChainsOf head chains) (hgap : Gap gap)
      (hinside : BlockOf (Text.byteLength closing + behind) inside block) :
      RuleOf behind
        (head ++ gap ++ ⟨.openBrace, opening⟩ :: inside ++ [⟨.closeBrace, closing⟩])
        ⟨chains, block⟩

/-- `sheet`. -/
inductive SheetOf : List Token → List Rule → Prop
  | nil : SheetOf [] []
  | blank {tokens : List Token} {rules : List Rule} (text : List Char)
      (hrest : SheetOf tokens rules) : SheetOf (⟨.blank, text⟩ :: tokens) rules
  | rule {first tokens : List Token} {rule : Rule} {rules : List Rule}
      (hfirst : RuleOf (byteLengthOf tokens) first rule) (hrest : SheetOf tokens rules) :
      SheetOf (first ++ tokens) (rule :: rules)

end WidgetStyle.Sheet.Grammar
