import Mathlib.Data.List.DropRight
import Mathlib.Data.List.TakeWhile
import WidgetStyle.Proofs.Grammar
import WidgetStyle.Proofs.Tokens

/-!
# What is read is in the grammar

Each reader takes a row of tokens off the front that its relation of the grammar derives, and hands
on what stands behind it. The readers skip any number of blanks where the grammar has a gap, so
this needs rows of tokens in which no two blanks stand together, as the texts of stylesheets have
them (`spaced_tokens`).
-/

namespace WidgetStyle.Sheet

open Grammar

/-! ### Gaps -/

@[simp] theorem skipBlanks_blank (text : List Char) (tokens : List Token) :
    skipBlanks (⟨.blank, text⟩ :: tokens) = skipBlanks tokens := by
  simp [skipBlanks]

theorem skipBlanks_of_ne_blank {token : Token} (tokens : List Token)
    (hkind : token.kind ≠ .blank) : skipBlanks (token :: tokens) = token :: tokens := by
  simp [skipBlanks, hkind]

@[simp] theorem skipBlanks_skipBlanks (tokens : List Token) :
    skipBlanks (skipBlanks tokens) = skipBlanks tokens :=
  List.dropWhile_idempotent _ _

/-- In a spaced row no more than a gap is skipped. -/
theorem Spaced.exists_gap {tokens : List Token} (hspaced : Spaced tokens) :
    ∃ gap, tokens = gap ++ skipBlanks tokens ∧ Gap gap := by
  cases tokens with
  | nil => exact ⟨[], rfl, .none⟩
  | cons token tokens =>
    obtain ⟨kind, text⟩ := token
    by_cases hkind : kind = .blank
    · subst hkind
      refine ⟨[⟨.blank, text⟩], ?_, .blank text⟩
      cases tokens with
      | nil => rfl
      | cons next tokens =>
        have hnext : next.kind ≠ .blank := fun hblank => hspaced.rel ⟨rfl, hblank⟩
        rw [skipBlanks_blank, skipBlanks_of_ne_blank tokens hnext]
        rfl
    · exact ⟨[], by rw [skipBlanks_of_ne_blank tokens hkind]; rfl, .none⟩

/-! ### Selectors -/

/-- A selector with further suffixes, which replace its class and its id. -/
def withSuffixes (selector : SimpleSelector) (suffixes : List Suffix) : SimpleSelector where
  element := selector.element
  className := (suffixes.filterMap Suffix.className?).getLast?.or selector.className
  id := (suffixes.filterMap Suffix.id?).getLast?.or selector.id

theorem getLast?_cons_or {α : Type} (a : α) (list : List α) (other : Option α) :
    (a :: list).getLast?.or other = list.getLast?.or (some a) := by
  rw [List.getLast?_cons]
  cases list.getLast? <;> rfl

/-- The selector with one more suffix, which takes the place of an earlier one of its kind. -/
def withSuffix (selector : SimpleSelector) : Suffix → SimpleSelector
  | .className name => { selector with className := some name }
  | .id name => { selector with id := some name }

theorem withSuffixes_cons (selector : SimpleSelector) (suffix : Suffix) (suffixes : List Suffix) :
    withSuffixes selector (suffix :: suffixes) =
      withSuffixes (withSuffix selector suffix) suffixes := by
  cases suffix with
  | className name =>
    simp [withSuffixes, withSuffix, Suffix.className?, Suffix.id?, getLast?_cons_or]
  | id name => simp [withSuffixes, withSuffix, Suffix.className?, Suffix.id?, getLast?_cons_or]

theorem withSuffixes_element (element : Option String) (suffixes : List Suffix) :
    withSuffixes ⟨element, none, none⟩ suffixes = compound element suffixes := by
  simp [withSuffixes, compound]

theorem suffixesOf_readParts {selector found : SimpleSelector} {tokens rest : List Token}
    (hread : readParts selector tokens = .ok (found, rest)) :
    ∃ used suffixes, tokens = used ++ rest ∧ SuffixesOf used suffixes ∧
      found = withSuffixes selector suffixes := by
  fun_induction readParts selector tokens with
  | case1 selector dot name text tokens ih =>
    obtain ⟨used, suffixes, rfl, hused, rfl⟩ := ih hread
    exact ⟨_, _, rfl, .className dot text name hused,
      (withSuffixes_cons selector (.className name) suffixes).symm⟩
  | case2 => cases hread
  | case3 selector name text tokens ih =>
    obtain ⟨used, suffixes, rfl, hused, rfl⟩ := ih hread
    exact ⟨_, _, rfl, .id text name hused,
      (withSuffixes_cons selector (.id name) suffixes).symm⟩
  | case4 selector tokens =>
    cases hread
    exact ⟨[], [], rfl, .nil, rfl⟩

theorem selectorOf_readSelector {found : SimpleSelector} {tokens rest : List Token}
    (hread : readSelector tokens = .ok (found, rest)) :
    ∃ used, tokens = used ++ rest ∧ SelectorOf used found := by
  have hshorter := length_readSelector hread
  -- without an element the row of suffixes cannot be empty, since something was read
  have hbare : ∀ {used suffixes}, tokens = used ++ rest → SuffixesOf used suffixes →
      suffixes ≠ [] := by
    rintro used suffixes rfl hused rfl
    cases hused
    simp at hshorter
  unfold readSelector at hread
  split at hread
  · next name text tokens =>
    obtain ⟨used, suffixes, rfl, hused, rfl⟩ := suffixesOf_readParts hread
    refine ⟨⟨.word name, text⟩ :: used, rfl, ?_⟩
    change SelectorOf _ (withSuffixes ⟨some name, none, none⟩ suffixes)
    rw [withSuffixes_element]
    exact .word name text hused
  · next text tokens =>
    obtain ⟨used, suffixes, rfl, hused, rfl⟩ := suffixesOf_readParts hread
    refine ⟨⟨.star, text⟩ :: used, rfl, ?_⟩
    rw [SimpleSelector.any, withSuffixes_element]
    exact .star text hused
  · obtain ⟨used, suffixes, htokens, hused, rfl⟩ := suffixesOf_readParts hread
    rw [SimpleSelector.any, withSuffixes_element]
    exact ⟨used, htokens, .bare (hbare htokens hused) hused⟩
  · obtain ⟨used, suffixes, htokens, hused, rfl⟩ := suffixesOf_readParts hread
    rw [SimpleSelector.any, withSuffixes_element]
    exact ⟨used, htokens, .bare (hbare htokens hused) hused⟩
  · cases hread

theorem jointOf_readCombinator {tokens behind : List Token} {combinator : Combinator}
    (hspaced : Spaced tokens) (hread : readCombinator tokens = some (combinator, behind)) :
    ∃ joint, tokens = joint ++ behind ∧ JointOf joint combinator := by
  obtain ⟨before, htokens, hbefore⟩ := hspaced.exists_gap
  unfold readCombinator at hread
  split at hread
  · next text rest hfront =>
    cases hread
    rw [hfront] at htokens
    have hrest : Spaced rest := (htokens ▸ hspaced).of_append_right.of_cons
    obtain ⟨gap, hgap, hgap'⟩ := hrest.exists_gap
    refine ⟨before ++ ⟨.greater, text⟩ :: gap, ?_, .child text hbefore hgap'⟩
    rw [List.append_assoc, List.cons_append, ← hgap]
    exact htokens
  · split at hread
    · next hshorter =>
      cases hread
      cases hbefore with
      | none =>
        rw [List.nil_append] at htokens
        rw [← htokens] at hshorter
        exact absurd hshorter.1 (Nat.lt_irrefl _)
      | blank text => exact ⟨_, htokens, .descendant text⟩
    · cases hread

/-! ### Chains -/

theorem linksOf_readLinks {chain found : Chain} {tokens rest : List Token}
    (hspaced : Spaced tokens) (hread : readLinks chain tokens = .ok (found, rest)) :
    ∃ used gap links, tokens = used ++ gap ++ rest ∧ LinksOf used links ∧ Gap gap ∧
      found.links = chain.links ++ links ∧ skipBlanks rest = rest := by
  fun_induction readLinks chain tokens with
  | case1 chain tokens hjoined =>
    cases hread
    obtain ⟨gap, htokens, hgap⟩ := hspaced.exists_gap
    exact ⟨[], gap, [], htokens, .nil, hgap, (List.append_nil _).symm, skipBlanks_skipBlanks _⟩
  | case2 => cases hread
  | case3 chain tokens combinator behind hjoined selector rest' hselector hshorter hshorter' ih =>
    obtain ⟨joint, rfl, hjoint⟩ := jointOf_readCombinator hspaced hjoined
    obtain ⟨simple, rfl, hsimple⟩ := selectorOf_readSelector hselector
    obtain ⟨used, gap, links, rfl, hused, hgap, hlinks, hrest⟩ :=
      ih hspaced.of_append_right.of_append_right hread
    refine ⟨_, gap, _, ?_, .cons hjoint hsimple hused, hgap, ?_, hrest⟩
    · simp only [List.append_assoc]
    · rw [hlinks, Chain.links, List.append_assoc, List.singleton_append]

theorem chainOf_readChain {found : Chain} {tokens rest : List Token} (hspaced : Spaced tokens)
    (hread : readChain tokens = .ok (found, rest)) :
    ∃ used gap, tokens = used ++ gap ++ rest ∧ ChainOf used found.links ∧ Gap gap ∧
      skipBlanks rest = rest := by
  unfold readChain at hread
  split at hread
  · cases hread
  · next selector behind hselector =>
    obtain ⟨simple, rfl, hsimple⟩ := selectorOf_readSelector hselector
    obtain ⟨used, gap, links, rfl, hused, hgap, hlinks, hrest⟩ :=
      linksOf_readLinks hspaced.of_append_right hread
    refine ⟨simple ++ used, gap, ?_, ?_, hgap, hrest⟩
    · simp only [List.append_assoc]
    · rw [hlinks]
      exact .mk hsimple hused

theorem chainsOf_readChains {found : List Chain} {tokens rest : List Token}
    (hspaced : Spaced tokens) (hread : readChains tokens = .ok (found, rest)) :
    ∃ used gap, tokens = used ++ gap ++ rest ∧ ChainsOf used (found.map Chain.links) ∧ Gap gap := by
  fun_induction readChains tokens generalizing found rest with
  | case1 => cases hread
  | case2 => cases hread
  | case3 tokens chain behind hchain text next hfront hshorter chains rest' hchains ih =>
    cases hread
    obtain ⟨first, before, rfl, hfirst, hbefore, hbehind⟩ := chainOf_readChain hspaced hchain
    obtain rfl : behind = ⟨.comma, text⟩ :: next := by rw [← hbehind, hfront]
    have hnext : Spaced next := hspaced.of_append_right.of_cons
    obtain ⟨gap, htokens, hgap⟩ := hnext.exists_gap
    obtain ⟨used, gap', hused, hchains', hgap'⟩ := ih (htokens ▸ hnext).of_append_right hchains
    refine ⟨first ++ before ++ ⟨.comma, text⟩ :: gap ++ used, gap', ?_,
      .cons text hfirst hbefore hgap hchains', hgap'⟩
    rw [htokens, hused]
    simp only [List.append_assoc, List.cons_append]
  | case4 tokens chain behind hchain =>
    cases hread
    obtain ⟨used, gap, rfl, hused, hgap, hbehind⟩ := chainOf_readChain hspaced hchain
    rw [hbehind]
    exact ⟨used, gap, rfl, .single hused, hgap⟩

/-! ### Blocks and rules -/

theorem endsValue_eq_false_iff (token : Token) :
    endsValue token = false ↔
      token.kind ≠ .openBrace ∧ token.kind ≠ .closeBrace ∧ token.kind ≠ .semicolon := by
  obtain ⟨kind, text⟩ := token
  cases kind <;> simp [endsValue]

theorem valueOf_takeWhile (tokens : List Token) : ValueOf (tokens.takeWhile (!endsValue ·)) := by
  intro token htoken
  have hends := List.mem_takeWhile_imp htoken
  exact (endsValue_eq_false_iff token).mp (by simpa using hends)

theorem byteLengthOf_closed (used rest : List Token) (closing : List Char) :
    byteLengthOf (used ++ ⟨.closeBrace, closing⟩ :: rest) =
      byteLengthOf used + (Text.byteLength closing + byteLengthOf rest) := by
  rw [byteLengthOf_append, byteLengthOf]

/-- A declaration in front of a block that is empty or starts with the end of the value. -/
theorem blockOf_declaration {behind : Nat} {gap value tokens : List Token}
    {block : List WrittenDeclaration} (name : String) (text colon : List Char) (hgap : Gap gap)
    (hvalue : ValueOf value) (hends : ∀ token ∈ tokens.head?, endsValue token = true)
    (hrest : BlockOf behind tokens block) :
    BlockOf behind (⟨.word name, text⟩ :: gap ++ ⟨.colon, colon⟩ :: value ++ tokens)
      (⟨name, value, byteLengthOf
        (⟨.word name, text⟩ :: gap ++ ⟨.colon, colon⟩ :: value ++ tokens) + behind⟩ :: block) := by
  cases hrest with
  | nil =>
    rw [List.append_nil]
    exact .last name text colon hgap hvalue
  | semicolon semicolon hrest => exact .ended name text colon semicolon hgap hvalue hrest
  | blank blank hrest => cases hends _ rfl
  | ended next word colon semicolon => cases hends _ rfl
  | last next word colon => cases hends _ rfl

theorem blockOf_readBlock {opening : Nat} {tokens rest : List Token}
    {block : List WrittenDeclaration} (hspaced : Spaced tokens)
    (hread : readBlock opening tokens = .ok (block, rest)) :
    ∃ used closing, tokens = used ++ ⟨.closeBrace, closing⟩ :: rest ∧
      BlockOf (Text.byteLength closing + byteLengthOf rest) used block := by
  fun_induction readBlock opening tokens generalizing block rest with
  | case1 => cases hread
  | case2 text tokens ih =>
    obtain ⟨used, closing, rfl, hused⟩ := ih hspaced.of_cons hread
    exact ⟨_, closing, rfl, .blank text hused⟩
  | case3 text tokens ih =>
    obtain ⟨used, closing, rfl, hused⟩ := ih hspaced.of_cons hread
    exact ⟨_, closing, rfl, .semicolon text hused⟩
  | case4 closing tokens =>
    cases hread
    exact ⟨[], closing, rfl, .nil⟩
  | case5 => cases hread
  | case6 => cases hread
  | case7 name text behind colon value hfront block' rest' hnobrace hshorter hblock ih =>
    cases hread
    have hspaced' : Spaced behind := hspaced.of_cons
    obtain ⟨gap, hbehind, hgap⟩ := hspaced'.exists_gap
    rw [hfront] at hbehind
    have hvalue : value = value.takeWhile (!endsValue ·) ++ value.dropWhile (!endsValue ·) :=
      List.takeWhile_append_dropWhile.symm
    have hvalueOf := valueOf_takeWhile value
    have hhead := List.head?_dropWhile_not (!endsValue ·) value
    generalize value.takeWhile (!endsValue ·) = written at hvalue hvalueOf ⊢
    generalize value.dropWhile (!endsValue ·) = next at *
    have hvalue' : Spaced value := (hbehind ▸ hspaced').of_append_right.of_cons
    obtain ⟨used, closing, rfl, hused⟩ := ih (hvalue ▸ hvalue').of_append_right hblock
    have hall : ⟨.word name, text⟩ :: behind = (⟨.word name, text⟩ :: gap ++ ⟨.colon, colon⟩ ::
        written ++ used) ++ ⟨.closeBrace, closing⟩ :: rest' := by
      rw [hbehind, hvalue]
      simp only [List.append_assoc, List.cons_append]
    have hends : ∀ token ∈ used.head?, endsValue token = true := by
      intro token htoken
      obtain ⟨more, rfl⟩ := List.head?_eq_some_iff.mp htoken
      simpa using hhead
    rw [hall, byteLengthOf_closed]
    exact ⟨_, closing, rfl, blockOf_declaration name text colon hgap hvalueOf hends hused⟩
  | case8 => cases hread
  | case9 => cases hread

/-- What a written rule is in the grammar. -/
def WrittenRule.parts (written : WrittenRule) : Grammar.Rule :=
  ⟨written.selectors.map Chain.links, written.block⟩

theorem flatMap_block_parts (found : List WrittenRule) :
    (found.map WrittenRule.parts).flatMap Grammar.Rule.block = found.flatMap WrittenRule.block := by
  rw [List.flatMap_map]
  rfl

theorem ruleOf_readRule {found : WrittenRule} {tokens rest : List Token}
    (hspaced : Spaced tokens) (hread : readRule tokens = .ok (found, rest)) :
    ∃ used, tokens = used ++ rest ∧ RuleOf (byteLengthOf rest) used found.parts := by
  unfold readRule at hread
  split at hread
  · cases hread
  · next chains behind hchains =>
    obtain ⟨head, gap, rfl, hhead, hgap⟩ := chainsOf_readChains hspaced hchains
    split at hread
    · next opening inside =>
      split at hread
      · cases hread
      · next hblock =>
        cases hread
        obtain ⟨used, closing, rfl, hused⟩ :=
          blockOf_readBlock hspaced.of_append_right.of_cons hblock
        refine ⟨head ++ gap ++ ⟨.openBrace, opening⟩ :: used ++ [⟨.closeBrace, closing⟩], ?_,
          .mk opening closing hhead hgap hused⟩
        simp only [List.append_assoc, List.cons_append, List.nil_append]
    · cases hread

/-- Blanks in front of a stylesheet do not matter. -/
theorem sheetOf_of_skipBlanks {tokens : List Token} {rules : List Grammar.Rule}
    (hspaced : Spaced tokens) (hsheet : SheetOf (skipBlanks tokens) rules) :
    SheetOf tokens rules := by
  obtain ⟨gap, htokens, hgap⟩ := hspaced.exists_gap
  rw [htokens]
  cases hgap with
  | none => exact hsheet
  | blank text => exact .blank text hsheet

/-- **What is read as a stylesheet is one**: the rules are those of a derivation of the row of
tokens. -/
theorem sheetOf_readRules {tokens : List Token} {found : List WrittenRule}
    (hspaced : Spaced tokens) (hread : readRules tokens = .ok found) :
    SheetOf tokens (found.map WrittenRule.parts) := by
  fun_induction readRules tokens generalizing found with
  | case1 tokens hfront =>
    cases hread
    exact sheetOf_of_skipBlanks hspaced (hfront ▸ .nil)
  | case2 => cases hread
  | case3 => cases hread
  | case4 tokens token more hfront rule rest hrule hshorter rules hrules ih =>
    cases hread
    obtain ⟨gap, htokens, hgap⟩ := hspaced.exists_gap
    have hskipped : Spaced (token :: more) := by
      rw [htokens, hfront] at hspaced
      exact hspaced.of_append_right
    obtain ⟨used, hused, hrule'⟩ := ruleOf_readRule hskipped hrule
    have hrest := ih (hused ▸ hskipped).of_append_right hrules
    apply sheetOf_of_skipBlanks hspaced
    rw [hfront, hused]
    exact .rule hrule' hrest

end WidgetStyle.Sheet
