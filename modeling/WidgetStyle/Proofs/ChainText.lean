import WidgetStyle.Proofs.Concatenation

/-!
# The tokens of a printed chain

A chain is printed as a row of tokens (`Chain.printed`), and the scanner cuts the printed text into
just this row (`cut_chain`). Each token of it is cut off before any text that cannot prolong it
(`CutBefore`): names before what is no character of a name, blanks before what is not blank, marks
before anything. So the tokens can be put together from left to right, each with a look at what
stands behind it and none at the way in which the scanner gets there. In the grammar the row is a
chain with the links of the chain that was printed (`chainOf_printed`).

What is needed of the names is that they are words to the scanner, and of ids, which stand behind a
mark, that they are some characters of names (`Chain.Printable`).
-/

namespace WidgetStyle

open Text (isBlank)

namespace Sheet

/-- The name is a single token, and the token is a word. -/
def IsWord (name : String) : Prop :=
  tokens name.toList = .ok [⟨.word name, name.toList⟩]

/-- The name can stand behind a hash. -/
def IsHashName (name : String) : Prop :=
  name ≠ "" ∧ ∀ c ∈ name.toList, isNameChar c = true

end Sheet

/-- Elements and classes are words, and ids can stand behind a hash. -/
structure SimpleSelector.Printable (selector : SimpleSelector) : Prop where
  element : ∀ name ∈ selector.element, Sheet.IsWord name
  className : ∀ name ∈ selector.className, Sheet.IsWord name
  id : ∀ name ∈ selector.id, Sheet.IsHashName name

def Chain.Printable (chain : Chain) : Prop :=
  ∀ link ∈ chain.links, link.selector.Printable

namespace Sheet

/-! ### Tokens before a text -/

/-- In front of `rest` the texts of the tokens are cut into these tokens. -/
def CutBefore (list : List Token) (rest : List Char) : Prop :=
  tokens (list.flatMap Token.text ++ rest) = (tokens rest).map (list ++ ·)

/-- A name does not go on with the text. -/
def EndsName (rest : List Char) : Prop :=
  rest.head?.any isNameChar = false

theorem cut_nil (rest : List Char) : CutBefore [] rest := by
  change tokens rest = (tokens rest).map id
  cases tokens rest <;> rfl

theorem CutBefore.append {front back : List Token} {rest : List Char}
    (hfront : CutBefore front (back.flatMap Token.text ++ rest)) (hback : CutBefore back rest) :
    CutBefore (front ++ back) rest := by
  unfold CutBefore at hfront hback ⊢
  rw [List.flatMap_append, List.append_assoc, hfront, hback]
  cases tokens rest with
  | error refusal => rfl
  | ok list => simp [Except.map]

theorem cut_of_reads {c : Char} {text rest : List Char} {token : Token}
    (hcons : token.text = c :: text) (hread : Reads c (text ++ rest) token rest) :
    CutBefore [token] rest := by
  unfold CutBefore
  rw [List.flatMap_singleton, hcons, List.cons_append, tokens_of_reads hread]
  rfl

/-! ### Words and ids -/

/-- The characters of a word are those of a name, and the first ones start no number. -/
theorem IsWord.exists_cons {name : String} (hword : IsWord name) :
    ∃ c text, name.toList = c :: text ∧ startsNumber c text = false ∧ startsWord c text = true ∧
      ∀ a ∈ c :: text, isNameChar a = true := by
  unfold IsWord at hword
  rcases hname : name.toList with _ | ⟨c, text⟩
  · rw [hname] at hword
    simp [tokens] at hword
  · rw [hname] at hword
    obtain ⟨rest, hread, -⟩ := exists_reads_of_tokens hword
    obtain ⟨hnumber, hstarts, hall, -⟩ := hread.word_inv rfl
    refine ⟨c, text, rfl, hnumber, hstarts, ?_⟩
    intro a ha
    rw [← hname, hall] at ha
    exact List.mem_takeWhile_imp ha

theorem isNameStart_mark {c : Char} (hc : c = '.' ∨ c = '-') : isNameStart c = false := by
  rcases hc with rfl | rfl
  · decide +kernel
  · decide +kernel

/-- What starts a name and no number does so before any text that ends the name. -/
theorem starts_append {c : Char} {text : List Char} (hnumber : startsNumber c text = false)
    (hstarts : startsWord c text = true) (rest : List Char) :
    startsNumber c (text ++ rest) = false ∧ startsWord c (text ++ rest) = true := by
  cases text with
  | cons next text => exact ⟨hnumber, hstarts⟩
  | nil =>
    -- a single character is a letter or an underscore, so what follows it does not matter
    have hstart : isNameStart c = true := by simpa [startsWord] using hstarts
    have hdigit := not_digit_of_startsNumber hnumber
    have hpoint : c ≠ '.' := by
      rintro rfl
      rw [isNameStart_mark (Or.inl rfl)] at hstart
      cases hstart
    have hminus : c ≠ '-' := by
      rintro rfl
      rw [isNameStart_mark (Or.inr rfl)] at hstart
      cases hstart
    simp [startsNumber, startsWord, hdigit, hpoint, hminus, hstart]

theorem takeWhile_of_endsName {name rest : List Char} (hname : ∀ a ∈ name, isNameChar a = true)
    (hends : EndsName rest) :
    (name ++ rest).takeWhile isNameChar = name ∧ (name ++ rest).dropWhile isNameChar = rest :=
  takeWhile_append_of_stop hname ((Option.any_eq_false _ _).mp hends)

/-- A name is cut off as a word where nothing of it goes on. -/
theorem cut_name {name : String} {c : Char} {text rest : List Char}
    (hcons : name.toList = c :: text) (hnumber : startsNumber c text = false)
    (hstarts : startsWord c text = true)
    (hname : ∀ a ∈ c :: text, isNameChar a = true) (hends : EndsName rest) :
    CutBefore [⟨.word name, name.toList⟩] rest := by
  have hopens : opensBlank (c :: (text ++ rest)) = false := by
    obtain ⟨hblank, hslash⟩ := apart_isNameChar c (hname c List.mem_cons_self)
    simp [opensBlank, hblank, hslash]
  obtain ⟨hnumber', hstarts'⟩ := starts_append hnumber hstarts rest
  have hread := Reads.word hopens hnumber' hstarts'
  obtain ⟨htake, hdrop⟩ := takeWhile_of_endsName hname hends
  rw [← List.cons_append, htake, hdrop, ← hcons, String.ofList_toList] at hread
  exact cut_of_reads hcons hread

theorem cut_word {name : String} {rest : List Char} (hword : IsWord name) (hends : EndsName rest) :
    CutBefore [⟨.word name, name.toList⟩] rest := by
  obtain ⟨c, text, hcons, hnumber, hstarts, hname⟩ := hword.exists_cons
  exact cut_name hcons hnumber hstarts hname hends

theorem cut_hash {name : String} {rest : List Char} (hhash : IsHashName name)
    (hends : EndsName rest) : CutBefore [⟨.hash name, '#' :: name.toList⟩] rest := by
  obtain ⟨hsome, hname⟩ := hhash
  obtain ⟨htake, hdrop⟩ := takeWhile_of_endsName hname hends
  have hnonempty : (name.toList ++ rest).takeWhile isNameChar ≠ [] := by
    rw [htake]
    simpa using hsome
  have hread := Reads.hash (c := '#') rfl rfl rfl rfl hnonempty
  rw [htake, hdrop, String.ofList_toList] at hread
  exact cut_of_reads rfl hread

/-! ### Marks and blanks -/

theorem cut_star (rest : List Char) : CutBefore [⟨.star, ['*']⟩] rest :=
  cut_of_reads rfl (.mark rfl rfl rfl (by decide) rfl)

theorem cut_greater (rest : List Char) : CutBefore [⟨.greater, ['>']⟩] rest :=
  cut_of_reads rfl (.mark rfl rfl rfl (by decide) rfl)

/-- A point before a word is no part of a number. -/
theorem cut_dot {name : String} (hword : IsWord name) (rest : List Char) :
    CutBefore [⟨.dot, ['.']⟩] (name.toList ++ rest) := by
  obtain ⟨c, text, hcons, hnumber, -, -⟩ := hword.exists_cons
  have hdigit := not_digit_of_startsNumber hnumber
  have hpoint : startsNumber '.' (name.toList ++ rest) = false := by
    have hmark : (Number.Digit.ofChar? '.').isSome = false := by decide
    rw [hcons]
    simp [startsNumber, hdigit, hmark]
  exact cut_of_reads rfl (.mark rfl hpoint rfl (by decide) rfl)

theorem cut_blank {rest : List Char} (hstop : opensBlank rest = false) :
    CutBefore [⟨.blank, [' ']⟩] rest :=
  cut_of_reads rfl (reads_space hstop)

/-! ### Selectors -/

/-- A class is a word, and an id can stand behind a hash. -/
def Grammar.Suffix.Named : Grammar.Suffix → Prop
  | .className name => IsWord name
  | .id name => IsHashName name

def Grammar.Suffix.printed : Grammar.Suffix → List Token
  | .className name => [⟨.dot, ['.']⟩, ⟨.word name, name.toList⟩]
  | .id name => [⟨.hash name, '#' :: name.toList⟩]

end Sheet

namespace SimpleSelector

open Sheet.Grammar (Suffix)

/-- The class and the id, in the order in which they are printed. -/
def suffixes (selector : SimpleSelector) : List Suffix :=
  (selector.className.map Suffix.className).toList ++ (selector.id.map Suffix.id).toList

/-- The tokens of the printed selector. -/
def printed (selector : SimpleSelector) : List Sheet.Token :=
  selector.element.elim ⟨.star, ['*']⟩ (fun name => ⟨.word name, name.toList⟩) ::
    selector.suffixes.flatMap Suffix.printed

theorem flatMap_printed (selector : SimpleSelector) :
    selector.printed.flatMap Sheet.Token.text = selector.text.toList := by
  obtain ⟨element, className, id⟩ := selector
  cases element <;> cases className <;> cases id <;>
    simp [printed, suffixes, Suffix.printed, text, qualified]

theorem compound_suffixes (selector : SimpleSelector) :
    Sheet.Grammar.compound selector.element selector.suffixes = selector := by
  obtain ⟨element, className, id⟩ := selector
  cases className <;> cases id <;> rfl

theorem Printable.named {selector : SimpleSelector} (hprintable : selector.Printable) :
    ∀ suffix ∈ selector.suffixes, suffix.Named := by
  intro suffix hsuffix
  rcases List.mem_append.mp hsuffix with hclassName | hid
  · obtain ⟨name, hname, rfl⟩ : ∃ name ∈ selector.className, Suffix.className name = suffix := by
      simpa using hclassName
    exact hprintable.className name hname
  · obtain ⟨name, hname, rfl⟩ : ∃ name ∈ selector.id, Suffix.id name = suffix := by
      simpa using hid
    exact hprintable.id name hname

/-- A selector with words and ids for its parts is printable. -/
theorem printable_compound {element : Option String} {suffixes : List Suffix}
    (helement : ∀ name ∈ element, Sheet.IsWord name)
    (hsuffixes : ∀ suffix ∈ suffixes, suffix.Named) :
    (Sheet.Grammar.compound element suffixes).Printable := by
  refine ⟨helement, ?_, ?_⟩
  · intro name hname
    obtain ⟨suffix, hsuffix, hclassName⟩ := List.mem_filterMap.mp (List.mem_of_getLast? hname)
    cases suffix with
    | className name' =>
      obtain rfl := Option.some.inj hclassName
      exact hsuffixes _ hsuffix
    | id name' => cases hclassName
  · intro name hname
    obtain ⟨suffix, hsuffix, hid⟩ := List.mem_filterMap.mp (List.mem_of_getLast? hname)
    cases suffix with
    | className name' => cases hid
    | id name' =>
      obtain rfl := Option.some.inj hid
      exact hsuffixes _ hsuffix

end SimpleSelector

namespace Sheet

open Grammar

theorem cut_suffix {suffix : Suffix} {rest : List Char} (hnamed : suffix.Named)
    (hends : EndsName rest) : CutBefore suffix.printed rest := by
  cases suffix with
  | className name =>
    have hdot : CutBefore [⟨.dot, ['.']⟩]
        ([⟨.word name, name.toList⟩].flatMap Token.text ++ rest) := by
      rw [List.flatMap_singleton]
      exact cut_dot hnamed rest
    exact hdot.append (cut_word hnamed hends)
  | id name => exact cut_hash hnamed hends

/-- A class or an id starts with a mark. -/
theorem endsName_printed (suffix : Suffix) (rest : List Char) :
    EndsName (suffix.printed.flatMap Token.text ++ rest) := by
  cases suffix with
  | className name => rfl
  | id name => rfl

theorem cut_suffixes {suffixes : List Suffix} {rest : List Char}
    (hnamed : ∀ suffix ∈ suffixes, suffix.Named) (hends : EndsName rest) :
    CutBefore (suffixes.flatMap Suffix.printed) rest ∧
      EndsName ((suffixes.flatMap Suffix.printed).flatMap Token.text ++ rest) := by
  induction suffixes with
  | nil => exact ⟨cut_nil rest, hends⟩
  | cons suffix suffixes ih =>
    obtain ⟨hsuffix, hsuffixes⟩ := List.forall_mem_cons.mp hnamed
    obtain ⟨hcut, hbehind⟩ := ih hsuffixes
    rw [List.flatMap_cons]
    refine ⟨(cut_suffix hsuffix hbehind).append hcut, ?_⟩
    rw [List.flatMap_append, List.append_assoc]
    exact endsName_printed suffix _

theorem cut_selector {selector : SimpleSelector} {rest : List Char}
    (hprintable : selector.Printable) (hends : EndsName rest) :
    CutBefore selector.printed rest := by
  obtain ⟨hcut, hbehind⟩ := cut_suffixes hprintable.named hends
  rw [SimpleSelector.printed, ← List.singleton_append]
  refine CutBefore.append ?_ hcut
  cases helement : selector.element with
  | none => exact cut_star _
  | some name => exact cut_word (hprintable.element name helement) hbehind

/-- A selector starts with a star or with a character of a name. -/
theorem opensBlank_selector {selector : SimpleSelector} (hprintable : selector.Printable)
    (rest : List Char) : opensBlank (selector.printed.flatMap Token.text ++ rest) = false := by
  rw [SimpleSelector.printed, List.flatMap_cons]
  cases helement : selector.element with
  | none => rfl
  | some name =>
    obtain ⟨c, text, hcons, -, -, hname⟩ := (hprintable.element name helement).exists_cons
    obtain ⟨hblank, hslash⟩ := apart_isNameChar c (hname c List.mem_cons_self)
    simp [hcons, opensBlank, hblank, hslash]

theorem suffixesOf_printed (suffixes : List Suffix) :
    SuffixesOf (suffixes.flatMap Suffix.printed) suffixes := by
  induction suffixes with
  | nil => exact .nil
  | cons suffix suffixes ih =>
    cases suffix with
    | className name => exact .className ['.'] name.toList name ih
    | id name => exact .id ('#' :: name.toList) name ih

theorem selectorOf_printed (selector : SimpleSelector) : SelectorOf selector.printed selector := by
  have hsuffixes := suffixesOf_printed selector.suffixes
  have hcompound := selector.compound_suffixes
  rw [SimpleSelector.printed]
  cases helement : selector.element with
  | none =>
    rw [helement] at hcompound
    have hstar := SelectorOf.star ['*'] hsuffixes
    rwa [hcompound] at hstar
  | some name =>
    rw [helement] at hcompound
    have hword := SelectorOf.word name name.toList hsuffixes
    rwa [hcompound] at hword

end Sheet

/-! ### Chains -/

def Combinator.printed : Combinator → List Sheet.Token
  | .descendant => [⟨.blank, [' ']⟩]
  | .child => [⟨.blank, [' ']⟩, ⟨.greater, ['>']⟩, ⟨.blank, [' ']⟩]

/-- The tokens of the printed chain. -/
def Chain.printed : Chain → List Sheet.Token
  | single selector => selector.printed
  | extend left combinator selector => left.printed ++ combinator.printed ++ selector.printed

theorem Chain.flatMap_printed (chain : Chain) :
    chain.printed.flatMap Sheet.Token.text = chain.text.toList := by
  induction chain with
  | single selector => exact selector.flatMap_printed
  | extend left combinator selector ih =>
    have hcombinator : combinator.printed.flatMap Sheet.Token.text = combinator.text.toList := by
      cases combinator with
      | descendant => rfl
      | child => rfl
    rw [printed, text, List.flatMap_append, List.flatMap_append, ih, hcombinator,
      selector.flatMap_printed, String.toList_append, String.toList_append]

namespace Sheet

open Grammar

theorem cut_combinator (combinator : Combinator) {rest : List Char}
    (hstop : opensBlank rest = false) : CutBefore combinator.printed rest := by
  cases combinator with
  | descendant => exact cut_blank hstop
  | child =>
    have hgreater : CutBefore [⟨.greater, ['>']⟩, ⟨.blank, [' ']⟩] rest :=
      (cut_greater _).append (cut_blank hstop)
    have hbefore : CutBefore [⟨.blank, [' ']⟩]
        ([⟨.greater, ['>']⟩, ⟨.blank, [' ']⟩].flatMap Token.text ++ rest) := cut_blank rfl
    exact hbefore.append hgreater

theorem endsName_combinator (combinator : Combinator) (rest : List Char) :
    EndsName (combinator.printed.flatMap Token.text ++ rest) := by
  cases combinator with
  | descendant => rfl
  | child => rfl

theorem cut_chain {chain : Chain} {rest : List Char} (hprintable : chain.Printable)
    (hends : EndsName rest) : CutBefore chain.printed rest := by
  induction chain generalizing rest with
  | single selector =>
    exact cut_selector (hprintable ⟨.descendant, selector⟩ List.mem_cons_self) hends
  | extend left combinator selector ih =>
    have hleft : left.Printable := fun link hlink => hprintable link (List.mem_append_left _ hlink)
    have hselector : selector.Printable :=
      hprintable ⟨combinator, selector⟩ (List.mem_append_right _ List.mem_cons_self)
    have hcombinator := cut_combinator combinator (opensBlank_selector hselector rest)
    have hbehind := endsName_combinator combinator (selector.printed.flatMap Token.text ++ rest)
    exact CutBefore.append ((ih hleft hbehind).append hcombinator) (cut_selector hselector hends)

theorem jointOf_printed (combinator : Combinator) : JointOf combinator.printed combinator := by
  cases combinator with
  | descendant => exact .descendant [' ']
  | child => exact .child ['>'] (.blank [' ']) (.blank [' '])

/-- Links may be written behind others. -/
theorem Grammar.LinksOf.append {front back : List Token} {links links' : List Link}
    (hfront : LinksOf front links) (hback : LinksOf back links') :
    LinksOf (front ++ back) (links ++ links') := by
  induction hfront with
  | nil => exact hback
  | cons hjoint hsimple hrest ih =>
    rw [List.append_assoc]
    exact .cons hjoint hsimple ih

theorem Grammar.ChainOf.append {front back : List Token} {links links' : List Link}
    (hfront : ChainOf front links) (hback : LinksOf back links') :
    ChainOf (front ++ back) (links ++ links') := by
  cases hfront with
  | mk hsimple hrest =>
    rw [List.append_assoc]
    exact .mk hsimple (hrest.append hback)

/-- The printed row is in the grammar, as a chain with the links of the one that was printed. -/
theorem chainOf_printed (chain : Chain) : ChainOf chain.printed chain.links := by
  induction chain with
  | single selector =>
    have hchain := ChainOf.mk (selectorOf_printed selector) .nil
    rwa [List.append_nil] at hchain
  | extend left combinator selector ih =>
    have hlink := LinksOf.cons (jointOf_printed combinator) (selectorOf_printed selector) .nil
    rw [List.append_nil] at hlink
    rw [Chain.printed, List.append_assoc]
    exact ih.append hlink

end Sheet

end WidgetStyle
