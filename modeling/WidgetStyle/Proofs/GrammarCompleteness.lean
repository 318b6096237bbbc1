import WidgetStyle.Proofs.Characters
import WidgetStyle.Proofs.GrammarSoundness
import WidgetStyle.Proofs.Parsed

/-!
# What is in the grammar is read

A row of tokens that a relation of the grammar derives is read off the front of any longer row, as
far as what stands behind it cannot be taken for more of the same: `NoSuffix` behind a simple
selector, `EndsChain` behind a chain.
-/

namespace WidgetStyle.Sheet

open Grammar

theorem skipBlanks_gap {gap : List Token} (hgap : Gap gap) (tokens : List Token) :
    skipBlanks (gap ++ tokens) = skipBlanks tokens := by
  cases hgap with
  | none => rfl
  | blank text => exact skipBlanks_blank text tokens

/-! ### Selectors -/

/-- The row does not go on with a class or an id. -/
def NoSuffix (tokens : List Token) : Prop :=
  ∀ token ∈ tokens.head?, token.kind ≠ .dot ∧ ∀ name, token.kind ≠ .hash name

theorem NoSuffix.readParts {tokens : List Token} (hnone : NoSuffix tokens)
    (selector : SimpleSelector) : readParts selector tokens = .ok (selector, tokens) := by
  unfold Sheet.readParts
  split
  · next dot name text tokens => exact absurd rfl (hnone _ rfl).1
  · next dot tokens => exact absurd rfl (hnone _ rfl).1
  · next name text tokens => exact absurd rfl ((hnone _ rfl).2 name)
  · rfl

theorem readParts_of_suffixesOf {used rest : List Token} {suffixes : List Suffix}
    (hused : SuffixesOf used suffixes) (hrest : NoSuffix rest) (selector : SimpleSelector) :
    readParts selector (used ++ rest) = .ok (withSuffixes selector suffixes, rest) := by
  induction hused generalizing selector with
  | nil => exact hrest.readParts selector
  | className dot text name hused ih => rw [withSuffixes_cons, ← ih]; rfl
  | id text name hused ih => rw [withSuffixes_cons, ← ih]; rfl

theorem readSelector_of_selectorOf {used rest : List Token} {selector : SimpleSelector}
    (hused : SelectorOf used selector) (hrest : NoSuffix rest) :
    readSelector (used ++ rest) = .ok (selector, rest) := by
  cases hused with
  | word name text hused =>
    rw [← withSuffixes_element, ← readParts_of_suffixesOf hused hrest]
    rfl
  | star text hused =>
    rw [← withSuffixes_element, ← readParts_of_suffixesOf hused hrest]
    rfl
  | bare hsome hused =>
    rw [← withSuffixes_element, ← readParts_of_suffixesOf hused hrest]
    cases hused with
    | nil => exact absurd rfl hsome
    | className dot text name hused => rfl
    | id text name hused => rfl

theorem startsSelector_of_selectorOf {used : List Token} {selector : SimpleSelector}
    (hused : SelectorOf used selector) (rest : List Token) :
    startsSelector (used ++ rest) = true := by
  cases hused with
  | word name text hused => rfl
  | star text hused => rfl
  | bare hsome hused =>
    cases hused with
    | nil => exact absurd rfl hsome
    | className dot text name hused => rfl
    | id text name hused => rfl

theorem skipBlanks_of_startsSelector {tokens : List Token} (hstarts : startsSelector tokens = true) :
    skipBlanks tokens = tokens := by
  unfold startsSelector at hstarts
  split at hstarts
  · rfl
  · rfl
  · rfl
  · rfl
  · cases hstarts

theorem readCombinator_of_jointOf {joint behind : List Token} {combinator : Combinator}
    (hjoint : JointOf joint combinator) (hstarts : startsSelector behind = true) :
    readCombinator (joint ++ behind) = some (combinator, behind) := by
  have hbehind := skipBlanks_of_startsSelector hstarts
  cases hjoint with
  | child text hbefore hgap =>
    unfold readCombinator
    rw [List.append_assoc, List.cons_append, skipBlanks_gap hbefore,
      skipBlanks_of_ne_blank _ (by simp)]
    change some (Combinator.child, skipBlanks _) = _
    rw [skipBlanks_gap hgap, hbehind]
  | descendant text =>
    unfold readCombinator
    rw [List.singleton_append, skipBlanks_blank, hbehind]
    split
    · cases hstarts
    · rw [if_pos ⟨by simp, hstarts⟩]

/-! ### Chains -/

/-- What may stand behind a chain: a gap, and then a comma or an opening brace. -/
def EndsChain (tokens : List Token) : Prop :=
  ∃ gap token rest, tokens = gap ++ token :: rest ∧ Gap gap ∧
    (token.kind = .comma ∨ token.kind = .openBrace)

theorem EndsChain.noSuffix {tokens : List Token} (hends : EndsChain tokens) : NoSuffix tokens := by
  obtain ⟨gap, token, rest, rfl, hgap, hkind⟩ := hends
  intro head hhead
  cases hgap with
  | none =>
    cases hhead
    rcases hkind with hkind | hkind <;> simp [hkind]
  | blank text =>
    cases hhead
    simp

theorem EndsChain.readCombinator {tokens : List Token} (hends : EndsChain tokens) :
    readCombinator tokens = none := by
  obtain ⟨gap, ⟨kind, text⟩, rest, rfl, hgap, hkind⟩ := hends
  unfold Sheet.readCombinator
  rw [skipBlanks_gap hgap, skipBlanks_of_ne_blank]
  · rcases hkind with rfl | rfl <;> simp [startsSelector]
  · rcases hkind with rfl | rfl <;> simp

theorem noSuffix_of_linksOf {used rest : List Token} {links : List Link}
    (hused : LinksOf used links) (hends : EndsChain rest) : NoSuffix (used ++ rest) := by
  cases hused with
  | nil => exact hends.noSuffix
  | cons hjoint hsimple hused =>
    intro head hhead
    cases hjoint with
    | child text hbefore hgap =>
      cases hbefore <;> cases hhead <;> simp
    | descendant text =>
      cases hhead
      simp

/-- What a combinator leads to is read as one more link. -/
theorem readLinks_eq (chain : Chain) (tokens : List Token) :
    readLinks chain tokens =
      match readCombinator tokens with
      | none => .ok (chain, skipBlanks tokens)
      | some (combinator, behind) => (readSelector behind).bind fun (selector, rest) =>
          readLinks (chain.extend combinator selector) rest := by
  rw [readLinks]
  split
  · next hjoined => rw [hjoined]
  · next hjoined =>
    split
    · next hread =>
      simp only [hjoined, hread]
      rfl
    · next hread =>
      simp only [hjoined, hread]
      rfl

theorem readLinks_of_linksOf {used rest : List Token} {links : List Link}
    (hused : LinksOf used links) (hends : EndsChain rest) (chain : Chain) :
    ∃ found, readLinks chain (used ++ rest) = .ok (found, skipBlanks rest) ∧
      found.links = chain.links ++ links := by
  induction hused generalizing chain with
  | nil =>
    refine ⟨chain, ?_, (List.append_nil _).symm⟩
    rw [List.nil_append, readLinks_eq, hends.readCombinator]
  | @cons joint simple tokens combinator selector links hjoint hsimple hused ih =>
    have hjoined := readCombinator_of_jointOf hjoint
      (startsSelector_of_selectorOf hsimple (tokens ++ rest))
    have hselector := readSelector_of_selectorOf hsimple (noSuffix_of_linksOf hused hends)
    obtain ⟨found, hread, hlinks⟩ := ih (chain.extend combinator selector)
    refine ⟨found, ?_, ?_⟩
    · simp only [List.append_assoc]
      rw [readLinks_eq, hjoined]
      simp only [hselector]
      exact hread
    · rw [hlinks, Chain.links, List.append_assoc, List.singleton_append]

theorem readChain_of_chainOf {used rest : List Token} {links : List Link}
    (hused : ChainOf used links) (hends : EndsChain rest) :
    ∃ found, readChain (used ++ rest) = .ok (found, skipBlanks rest) ∧ found.links = links := by
  cases hused with
  | @mk simple tokens selector links hsimple hused =>
    have hselector := readSelector_of_selectorOf hsimple (noSuffix_of_linksOf hused hends)
    obtain ⟨found, hread, hlinks⟩ := readLinks_of_linksOf hused hends (.single selector)
    refine ⟨found, ?_, hlinks⟩
    rw [readChain, List.append_assoc, hselector]
    exact hread

theorem startsSelector_of_chainsOf {used : List Token} {chains : List (List Link)}
    (hused : ChainsOf used chains) (rest : List Token) : startsSelector (used ++ rest) = true := by
  have hchain : ∀ {used : List Token} {links : List Link} (rest : List Token),
      ChainOf used links → startsSelector (used ++ rest) = true := by
    intro used links rest hused
    cases hused with
    | mk hsimple hused =>
      rw [List.append_assoc]
      exact startsSelector_of_selectorOf hsimple _
  cases hused with
  | single hused => exact hchain rest hused
  | cons text hused hbefore hbehind hrest =>
    simp only [List.append_assoc]
    exact hchain _ hused

theorem readChains_of_error {tokens : List Token} {refusal : Refusal}
    (hchain : readChain tokens = .error refusal) : readChains tokens = .error refusal := by
  rw [readChains]
  split
  · next hrefused =>
    cases hrefused.symm.trans hchain
    rfl
  · next hdone => simp [hchain] at hdone

/-- Behind a comma more chains are read. -/
theorem readChains_of_comma {tokens behind next : List Token} {chain : Chain} {text : List Char}
    (hchain : readChain tokens = .ok (chain, behind))
    (hfront : skipBlanks behind = ⟨.comma, text⟩ :: next) :
    readChains tokens =
      (readChains (skipBlanks next)).map fun (chains, rest) => (chain :: chains, rest) := by
  rw [readChains]
  split
  · next hrefused => simp [hchain] at hrefused
  · next hdone =>
    cases hdone.symm.trans hchain
    split
    · next hcomma =>
      cases hcomma.symm.trans hfront
      cases readChains (skipBlanks next) <;> rfl
    · next hcomma => exact absurd hfront (hcomma _ _)

/-- Without a comma there is one chain. -/
theorem readChains_of_ne_comma {tokens behind : List Token} {chain : Chain}
    (hchain : readChain tokens = .ok (chain, behind))
    (hfront : ∀ text next, skipBlanks behind ≠ ⟨.comma, text⟩ :: next) :
    readChains tokens = .ok ([chain], skipBlanks behind) := by
  rw [readChains]
  split
  · next hrefused => simp [hchain] at hrefused
  · next hdone =>
    cases hdone.symm.trans hchain
    split
    · next hcomma => exact absurd hcomma (hfront _ _)
    · rfl

theorem readChains_of_chainsOf {used gap : List Token} {chains : List (List Link)}
    (hused : ChainsOf used chains) (hgap : Gap gap) (opening : List Char) (rest : List Token) :
    ∃ found, readChains (used ++ (gap ++ ⟨.openBrace, opening⟩ :: rest)) =
        .ok (found, ⟨.openBrace, opening⟩ :: rest) ∧ found.map Chain.links = chains := by
  induction hused with
  | single hused =>
    obtain ⟨chain, hchain, hlinks⟩ := readChain_of_chainOf hused
      ⟨gap, ⟨.openBrace, opening⟩, rest, rfl, hgap, .inr rfl⟩
    have hfront : skipBlanks (skipBlanks (gap ++ ⟨.openBrace, opening⟩ :: rest)) =
        ⟨.openBrace, opening⟩ :: rest := by
      rw [skipBlanks_skipBlanks, skipBlanks_gap hgap, skipBlanks_of_ne_blank _ (by simp)]
    refine ⟨[chain], ?_, by rw [List.map_singleton, hlinks]⟩
    rw [readChains_of_ne_comma hchain (by simp [hfront]), hfront]
  | @cons first before behind tokens links chains text hused hbefore hbehind hrest ih =>
    obtain ⟨found, hread, hfound⟩ := ih
    obtain ⟨chain, hchain, hlinks⟩ := readChain_of_chainOf hused
      ⟨before, ⟨.comma, text⟩, behind ++ (tokens ++ (gap ++ ⟨.openBrace, opening⟩ :: rest)), rfl,
        hbefore, .inl rfl⟩
    refine ⟨chain :: found, ?_, by rw [List.map_cons, hlinks, hfound]⟩
    have hnext : skipBlanks (behind ++ (tokens ++ (gap ++ ⟨.openBrace, opening⟩ :: rest))) =
        tokens ++ (gap ++ ⟨.openBrace, opening⟩ :: rest) := by
      rw [skipBlanks_gap hbehind,
        skipBlanks_of_startsSelector (startsSelector_of_chainsOf hrest _)]
    rw [skipBlanks_gap hbefore, skipBlanks_of_ne_blank _ (by simp)] at hchain
    simp only [List.append_assoc, List.cons_append]
    rw [readChains_of_comma hchain (skipBlanks_of_ne_blank _ (by simp)), hnext, hread]
    rfl

/-! ### Blocks -/

/-- A value goes up to the first token that ends it. -/
theorem value_append_of_stop {value : List Token} {stop : Token} (hvalue : ValueOf value)
    (hstop : endsValue stop = true) (rest : List Token) :
    (value ++ stop :: rest).takeWhile (!endsValue ·) = value ∧
      (value ++ stop :: rest).dropWhile (!endsValue ·) = stop :: rest := by
  apply takeWhile_append_of_stop
  · intro token htoken
    simpa using (endsValue_eq_false_iff token).mpr (hvalue token htoken)
  · rintro token ⟨⟩
    simp [hstop]

/-- Behind a name and a colon a value is read, and then more of the block. -/
theorem readBlock_of_colon {opening : Nat} {name : String} {text colon : List Char}
    {behind value : List Token} (hfront : skipBlanks behind = ⟨.colon, colon⟩ :: value)
    (hopen : ∀ text rest, value.dropWhile (!endsValue ·) ≠ ⟨.openBrace, text⟩ :: rest) :
    readBlock opening (⟨.word name, text⟩ :: behind) =
      (readBlock opening (value.dropWhile (!endsValue ·))).map fun (block, rest) =>
        (⟨name, value.takeWhile (!endsValue ·), byteLengthOf (⟨.word name, text⟩ :: behind)⟩ ::
          block, rest) := by
  rw [readBlock]
  split
  · next hcolon =>
    cases hcolon.symm.trans hfront
    split
    · next hbrace => exact absurd hbrace (hopen _ _)
    · cases readBlock opening (value.dropWhile (!endsValue ·)) <;> rfl
  · next hcolon => exact absurd hfront (hcolon _ _)

theorem readBlock_of_openBrace {opening : Nat} {name : String} {text colon brace : List Char}
    {behind value rest : List Token} (hfront : skipBlanks behind = ⟨.colon, colon⟩ :: value)
    (hopen : value.dropWhile (!endsValue ·) = ⟨.openBrace, brace⟩ :: rest) :
    readBlock opening (⟨.word name, text⟩ :: behind) =
      .error ⟨.braceInValue, byteLengthOf (⟨.openBrace, brace⟩ :: rest)⟩ := by
  rw [readBlock]
  split
  · next hcolon =>
    cases hcolon.symm.trans hfront
    split
    · next hbrace => rw [← hbrace, hopen]
    · next hbrace => exact absurd hopen (hbrace _ _)
  · next hcolon => exact absurd hfront (hcolon _ _)

theorem readBlock_of_ne_colon {opening : Nat} {name : String} {text : List Char}
    {behind : List Token}
    (hfront : ∀ colon value, skipBlanks behind ≠ ⟨.colon, colon⟩ :: value) :
    readBlock opening (⟨.word name, text⟩ :: behind) =
      .error ⟨.missingColon name, byteLengthOf (skipBlanks behind)⟩ := by
  rw [readBlock]
  split
  · next hcolon => exact absurd hcolon (hfront _ _)
  · rfl

/-- A declaration is read up to the token that ends its value. -/
theorem readBlock_declaration {opening : Nat} {gap value more rest : List Token} {stop : Token}
    {block : List WrittenDeclaration} (name : String) (text colon : List Char) (hgap : Gap gap)
    (hvalue : ValueOf value) (hstop : endsValue stop = true) (hbrace : stop.kind ≠ .openBrace)
    (hread : readBlock opening (stop :: more) = .ok (block, rest)) :
    readBlock opening (⟨.word name, text⟩ :: (gap ++ ⟨.colon, colon⟩ :: (value ++ stop :: more))) =
      .ok (⟨name, value, byteLengthOf
        (⟨.word name, text⟩ :: (gap ++ ⟨.colon, colon⟩ :: (value ++ stop :: more)))⟩ :: block,
        rest) := by
  have hfront : skipBlanks (gap ++ ⟨.colon, colon⟩ :: (value ++ stop :: more)) =
      ⟨.colon, colon⟩ :: (value ++ stop :: more) := by
    rw [skipBlanks_gap hgap, skipBlanks_of_ne_blank _ (by simp)]
  obtain ⟨htake, hdrop⟩ := value_append_of_stop hvalue hstop more
  have hopen : ∀ text rest,
      (value ++ stop :: more).dropWhile (!endsValue ·) ≠ ⟨.openBrace, text⟩ :: rest := by
    intro text rest hopen
    rw [hdrop] at hopen
    exact hbrace (congrArg Token.kind (List.cons.inj hopen).1)
  rw [readBlock_of_colon hfront hopen, htake, hdrop, hread]
  rfl

theorem readBlock_of_blockOf {opening : Nat} {used rest : List Token}
    {block : List WrittenDeclaration} {closing : List Char}
    (hused : BlockOf (Text.byteLength closing + byteLengthOf rest) used block) :
    readBlock opening (used ++ ⟨.closeBrace, closing⟩ :: rest) = .ok (block, rest) := by
  induction hused with
  | nil => rw [List.nil_append, readBlock]
  | blank text hused ih => rw [List.cons_append, readBlock, ih]
  | semicolon text hused ih => rw [List.cons_append, readBlock, ih]
  | @ended gap value tokens block name text colon semicolon hgap hvalue hused ih =>
    have hmore : readBlock opening
        (⟨.semicolon, semicolon⟩ :: (tokens ++ ⟨.closeBrace, closing⟩ :: rest)) =
          .ok (block, rest) := by
      rw [readBlock, ih]
    rw [← byteLengthOf_closed]
    simp only [List.append_assoc, List.cons_append]
    exact readBlock_declaration name text colon hgap hvalue rfl (by simp) hmore
  | @last gap value name text colon hgap hvalue =>
    have hmore : readBlock opening (⟨.closeBrace, closing⟩ :: rest) = .ok ([], rest) := by
      rw [readBlock]
    rw [← byteLengthOf_closed]
    simp only [List.append_assoc, List.cons_append]
    exact readBlock_declaration name text colon hgap hvalue rfl (by simp) hmore

/-! ### Rules -/

/-- Behind the chains and a brace a block is read. -/
theorem readRule_of_openBrace {tokens inside : List Token} {selectors : List Chain}
    {text : List Char} (hchains : readChains tokens = .ok (selectors, ⟨.openBrace, text⟩ :: inside)) :
    readRule tokens = (readBlock (byteLengthOf (⟨.openBrace, text⟩ :: inside)) inside).map
      fun (block, rest) => (⟨selectors, block⟩, rest) := by
  rw [readRule, hchains]
  dsimp only
  cases readBlock (byteLengthOf (⟨.openBrace, text⟩ :: inside)) inside <;> rfl

theorem readRule_of_ne_openBrace {tokens behind : List Token} {selectors : List Chain}
    (hchains : readChains tokens = .ok (selectors, behind))
    (hopen : ∀ text inside, behind ≠ ⟨.openBrace, text⟩ :: inside) :
    readRule tokens = .error ⟨.missingOpenBrace, byteLengthOf behind⟩ := by
  rw [readRule, hchains]
  dsimp only
  split
  · exact absurd rfl (hopen _ _)
  · rfl

theorem readRule_of_ruleOf {used rest : List Token} {rule : Grammar.Rule}
    (hused : RuleOf (byteLengthOf rest) used rule) :
    ∃ written, readRule (used ++ rest) = .ok (written, rest) ∧ written.parts = rule := by
  cases hused with
  | @mk head gap inside chains block opening closing hhead hgap hinside =>
    obtain ⟨found, hchains, hfound⟩ := readChains_of_chainsOf hhead hgap opening
      (inside ++ ⟨.closeBrace, closing⟩ :: rest)
    refine ⟨⟨found, block⟩, ?_, ?_⟩
    · simp only [List.append_assoc, List.cons_append, List.nil_append]
      rw [readRule_of_openBrace hchains, readBlock_of_blockOf hinside]
      rfl
    · rw [WrittenRule.parts, hfound]

theorem startsSelector_of_ruleOf {behind : Nat} {used : List Token} {rule : Grammar.Rule}
    (hused : RuleOf behind used rule) (rest : List Token) :
    startsSelector (used ++ rest) = true := by
  cases hused with
  | mk opening closing hhead hgap hinside =>
    simp only [List.append_assoc]
    exact startsSelector_of_chainsOf hhead _

/-- Only what stands behind the blanks in front matters. -/
theorem readRules_eq (tokens : List Token) :
    readRules tokens =
      if skipBlanks tokens = [] then .ok []
      else (readRule (skipBlanks tokens)).bind fun (rule, rest) =>
        (readRules rest).map (rule :: ·) := by
  rw [readRules]
  split
  · next hnil => rw [if_pos hnil]
  · next hfront =>
    rw [if_neg (hfront ▸ List.cons_ne_nil _ _)]
    split
    · next hrefused =>
      rw [hfront, hrefused]
      rfl
    · next rule rest hdone =>
      have hread : readRule (skipBlanks tokens) = .ok (rule, rest) := by rw [hfront, hdone]
      rw [hread]
      change _ = (readRules rest).map (rule :: ·)
      cases readRules rest <;> rfl

theorem readRules_blank (text : List Char) (tokens : List Token) :
    readRules (⟨.blank, text⟩ :: tokens) = readRules tokens := by
  rw [readRules_eq, skipBlanks_blank, ← readRules_eq]

/-- A rule in front is read first, and then the others. -/
theorem readRules_of_ruleOf {used rest : List Token} {rule : Grammar.Rule}
    (hused : RuleOf (byteLengthOf rest) used rule) :
    ∃ written, written.parts = rule ∧
      readRules (used ++ rest) = (readRules rest).map (written :: ·) := by
  obtain ⟨written, hread, hparts⟩ := readRule_of_ruleOf hused
  have hskip := skipBlanks_of_startsSelector (startsSelector_of_ruleOf hused rest)
  have hne : used ++ rest ≠ [] := by
    intro hnil
    have hshorter := length_readRule hread
    simp [hnil] at hshorter
  refine ⟨written, hparts, ?_⟩
  rw [readRules_eq, hskip, if_neg hne, hread]
  rfl

/-- **A row of tokens that is a stylesheet is read as one**, with the rules that the derivation
gives. -/
theorem readRules_of_sheetOf {tokens : List Token} {rules : List Grammar.Rule}
    (hsheet : SheetOf tokens rules) :
    ∃ found, readRules tokens = .ok found ∧ found.map WrittenRule.parts = rules := by
  induction hsheet with
  | nil => exact ⟨[], by rw [readRules]; rfl, rfl⟩
  | blank text hrest ih => rwa [readRules_blank]
  | rule hfirst hrest ih =>
    obtain ⟨found, hread, hfound⟩ := ih
    obtain ⟨written, hparts, hrules⟩ := readRules_of_ruleOf hfirst
    refine ⟨written :: found, ?_, by rw [List.map_cons, hparts, hfound]⟩
    rw [hrules, hread]
    rfl

/-! ### The rules of a text -/

theorem chains_rulesFrom (number : Nat) (found : List WrittenRule) :
    (rulesFrom number found).map (fun rule => rule.selectors.map Chain.links) =
      (found.map WrittenRule.parts).map Grammar.Rule.chains := by
  induction found generalizing number with
  | nil => rfl
  | cons written found ih =>
    rw [rulesFrom, List.map_cons, List.map_cons, List.map_cons, ih]
    rfl

theorem written_of_tokens {source : List Char} {list : List Token}
    (hcut : tokens source = .ok list) : written source = readRules list := by
  rw [written, hcut]

/-- **A text is a stylesheet when its tokens are one.** It is read exactly if its tokens have a
derivation in the grammar. Then the rules of the sheet are those of the derivation, in the order
of the text and with the same links in every chain, and this for each derivation there is. -/
theorem parse_iff_grammar (source : String) (record : Bool) (list : List Token)
    (hcut : tokens source.toList = .ok list) :
    ((∃ sheet, parse source record = .ok sheet) ↔ ∃ rules, SheetOf list rules) ∧
    ∀ sheet rules, parse source record = .ok sheet → SheetOf list rules →
      sheet.rules.toList.map (fun rule => rule.selectors.map Chain.links) =
        rules.map Grammar.Rule.chains := by
  have hwritten := written_of_tokens hcut
  refine ⟨⟨?_, ?_⟩, ?_⟩
  · rintro ⟨sheet, hparse⟩
    obtain ⟨found, hfound, -⟩ := exists_written_of_parse hparse
    exact ⟨_, sheetOf_readRules (spaced_tokens hcut) (hwritten ▸ hfound)⟩
  · rintro ⟨rules, hsheet⟩
    obtain ⟨found, hread, -⟩ := readRules_of_sheetOf hsheet
    exact ⟨_, parse_of_written record (hwritten.trans hread)⟩
  · intro sheet rules hparse hsheet
    obtain ⟨found, hfound, rfl⟩ := exists_written_of_parse hparse
    obtain ⟨found', hread, rfl⟩ := readRules_of_sheetOf hsheet
    obtain rfl : found = found' := Except.ok.inj (hfound.symm.trans (hwritten.trans hread))
    exact chains_rulesFrom 0 found

/-- Blanks and a mark between selectors, and a class that replaces another. -/
theorem parse_iff_grammar_of_two_chains :
    ∃ sheet, parse "tr > td.x.y,* #k{}" = .ok sheet ∧
      sheet.rules.toList.map (fun rule => rule.selectors.map Chain.links) =
        [[[⟨.descendant, ⟨some "tr", none, none⟩⟩, ⟨.child, ⟨some "td", some "y", none⟩⟩],
          [⟨.descendant, ⟨none, none, none⟩⟩, ⟨.descendant, ⟨none, none, some "k"⟩⟩]]] := by
  have hcut : tokens "tr > td.x.y,* #k{}".toList = .ok
      [⟨.word "tr", ['t', 'r']⟩, ⟨.blank, [' ']⟩, ⟨.greater, ['>']⟩, ⟨.blank, [' ']⟩,
        ⟨.word "td", ['t', 'd']⟩, ⟨.dot, ['.']⟩, ⟨.word "x", ['x']⟩, ⟨.dot, ['.']⟩,
        ⟨.word "y", ['y']⟩, ⟨.comma, [',']⟩, ⟨.star, ['*']⟩, ⟨.blank, [' ']⟩,
        ⟨.hash "k", ['#', 'k']⟩, ⟨.openBrace, ['\x7b']⟩, ⟨.closeBrace, ['\x7d']⟩] := by
    decide +kernel
  obtain ⟨haccepted, hrules⟩ := parse_iff_grammar _ true _ hcut
  have htd : ChainOf _ _ := .mk (.word "tr" ['t', 'r'] .nil)
    (.cons (.child ['>'] (.blank [' ']) (.blank [' ']))
      (.word "td" ['t', 'd'] (.className ['.'] ['x'] "x" (.className ['.'] ['y'] "y" .nil))) .nil)
  have hstar : ChainOf _ _ := .mk (.star ['*'] .nil)
    (.cons (.descendant [' ']) (.bare (by simp) (.id ['#', 'k'] "k" .nil)) .nil)
  have hsheet : SheetOf _ _ := .rule
    (.mk ['\x7b'] ['\x7d'] (.cons [','] htd .none .none (.single hstar)) .none .nil) .nil
  obtain ⟨sheet, hparse⟩ := haccepted.mpr ⟨_, hsheet⟩
  exact ⟨sheet, hparse, hrules sheet _ hparse hsheet⟩

end WidgetStyle.Sheet
