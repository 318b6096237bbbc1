import WidgetStyle.Proofs.ChainText
import WidgetStyle.Proofs.Diagnostics

/-!
# Reading printed chains back

The names of a chain that was read from a text are what they have to be to be printed: words are
words by themselves, and what stands behind a hash can stand there again (`printable_of_parse`). The
printed text of such a chain is cut into the row of its tokens, the row is in the grammar with the
links of the chain, and no other chain has these links. So the chain is read back (`parse_printed`).
-/

namespace WidgetStyle.Sheet

open Grammar

/-! ### Chains that were read -/

/-- Words are words by themselves, and what stands behind a hash can stand there. -/
def Token.Named (token : Token) : Prop :=
  match token.kind with
  | .word name => IsWord name
  | .hash name => IsHashName name
  | _ => True

/-- The front of a word, as far as it is a name, is a word. -/
theorem isWord_takeWhile {c : Char} {cs : List Char} {name : String}
    (hnumber : startsNumber c cs = false) (hstarts : startsWord c cs = true)
    (hname : name.toList = (c :: cs).takeWhile isNameChar) : IsWord name := by
  have hc : isNameChar c = true := by
    rcases Bool.or_eq_true_iff.mp hstarts with hstart | hhyphen
    · exact isNameChar_of_isNameStart hstart
    · obtain rfl : c = '-' := by simpa using (Bool.and_eq_true_iff.mp hhyphen).1
      decide
  have hall : ∀ a ∈ (c :: cs).takeWhile isNameChar, isNameChar a = true :=
    fun a ha => List.mem_takeWhile_imp ha
  obtain ⟨hnumber', hstarts'⟩ := starts_takeWhile hnumber hstarts
  rw [List.takeWhile_cons_of_pos hc] at hname hall
  have hcut : CutBefore [⟨.word name, name.toList⟩] [] := cut_name hname hnumber' hstarts' hall rfl
  have hempty : tokens [] = .ok [] := by simp [tokens]
  unfold CutBefore at hcut
  rw [List.flatMap_singleton, List.append_nil, hempty] at hcut
  exact hcut

theorem Reads.named {c : Char} {cs rest : List Char} {token : Token}
    (hread : Reads c cs token rest) : token.Named := by
  unfold Token.Named
  split
  · next name hkind =>
    obtain ⟨hnumber, hstarts, hname, -⟩ := hread.word_inv hkind
    exact isWord_takeWhile hnumber hstarts hname
  · next name hkind =>
    obtain ⟨hname, hsome, -⟩ := hread.hash_inv hkind
    refine ⟨?_, ?_⟩
    · rintro rfl
      exact hsome hname.symm
    · rw [hname]
      exact fun a ha => List.mem_takeWhile_imp ha
  · trivial

theorem named_of_suffixesOf {list : List Token} {suffixes : List Suffix}
    (hlist : SuffixesOf list suffixes) (hnamed : ∀ token ∈ list, token.Named) :
    ∀ suffix ∈ suffixes, suffix.Named := by
  induction hlist with
  | nil => exact List.forall_mem_nil _
  | className dot text name hrest ih =>
    obtain ⟨-, hword, hmore⟩ := by simpa only [List.forall_mem_cons] using hnamed
    exact List.forall_mem_cons.mpr ⟨hword, ih hmore⟩
  | id text name hrest ih =>
    obtain ⟨hhash, hmore⟩ := List.forall_mem_cons.mp hnamed
    exact List.forall_mem_cons.mpr ⟨hhash, ih hmore⟩

theorem printable_of_selectorOf {list : List Token} {selector : SimpleSelector}
    (hlist : SelectorOf list selector) (hnamed : ∀ token ∈ list, token.Named) :
    selector.Printable := by
  cases hlist with
  | word name text hrest =>
    obtain ⟨hword, hmore⟩ := List.forall_mem_cons.mp hnamed
    refine SimpleSelector.printable_compound ?_ (named_of_suffixesOf hrest hmore)
    rintro name' ⟨⟩
    exact hword
  | star text hrest =>
    obtain ⟨-, hmore⟩ := List.forall_mem_cons.mp hnamed
    refine SimpleSelector.printable_compound ?_ (named_of_suffixesOf hrest hmore)
    rintro name' ⟨⟩
  | bare hsome hrest =>
    refine SimpleSelector.printable_compound ?_ (named_of_suffixesOf hrest hnamed)
    rintro name' ⟨⟩

theorem printable_of_linksOf {list : List Token} {links : List Link} (hlist : LinksOf list links)
    (hnamed : ∀ token ∈ list, token.Named) : ∀ link ∈ links, link.selector.Printable := by
  induction hlist with
  | nil => exact List.forall_mem_nil _
  | cons hjoint hsimple hrest ih =>
    rw [List.forall_mem_append, List.forall_mem_append] at hnamed
    obtain ⟨⟨-, hselector⟩, hmore⟩ := hnamed
    exact List.forall_mem_cons.mpr ⟨printable_of_selectorOf hsimple hselector, ih hmore⟩

theorem printable_of_chainOf {list : List Token} {links : List Link} (hlist : ChainOf list links)
    (hnamed : ∀ token ∈ list, token.Named) : ∀ link ∈ links, link.selector.Printable := by
  cases hlist with
  | mk hsimple hrest =>
    obtain ⟨hselector, hmore⟩ := List.forall_mem_append.mp hnamed
    exact List.forall_mem_cons.mpr
      ⟨printable_of_selectorOf hsimple hselector, printable_of_linksOf hrest hmore⟩

theorem printable_of_chainsOf {list : List Token} {chains : List (List Link)}
    (hlist : ChainsOf list chains) (hnamed : ∀ token ∈ list, token.Named) :
    ∀ links ∈ chains, ∀ link ∈ links, link.selector.Printable := by
  induction hlist with
  | single hchain => exact List.forall_mem_singleton.mpr (printable_of_chainOf hchain hnamed)
  | cons text hchain hbefore hbehind hrest ih =>
    simp only [List.forall_mem_append, List.forall_mem_cons] at hnamed
    obtain ⟨⟨⟨hfirst, -⟩, -, -⟩, hmore⟩ := hnamed
    exact List.forall_mem_cons.mpr ⟨printable_of_chainOf hchain hfirst, ih hmore⟩

theorem printable_of_sheetOf {list : List Token} {rules : List Grammar.Rule}
    (hlist : SheetOf list rules) (hnamed : ∀ token ∈ list, token.Named) :
    ∀ rule ∈ rules, ∀ links ∈ rule.chains, ∀ link ∈ links, link.selector.Printable := by
  induction hlist with
  | nil => exact List.forall_mem_nil _
  | blank text hrest ih => exact ih (List.forall_mem_cons.mp hnamed).2
  | rule hfirst hrest ih =>
    obtain ⟨hrule, hmore⟩ := List.forall_mem_append.mp hnamed
    refine List.forall_mem_cons.mpr ⟨?_, ih hmore⟩
    cases hfirst with
    | mk opening closing hhead hgap hinside =>
      simp only [List.forall_mem_append] at hrule
      exact printable_of_chainsOf hhead hrule.1.1.1

/-- The chains of a text that was read are printable. -/
theorem printable_of_parse {source : String} {record : Bool} {sheet : Sheet}
    (hparse : parse source record = .ok sheet) :
    ∀ rule ∈ sheet.rules, ∀ chain ∈ rule.selectors, chain.Printable := by
  obtain ⟨found, hwritten, rfl⟩ := exists_written_of_parse hparse
  obtain ⟨list, hcut, hsheet, -⟩ := exists_sheetOf_of_written hwritten
  have hnamed := forall_mem_tokens (fun _ _ _ _ hread => hread.named) hcut
  intro rule hrule chain hchain
  obtain ⟨place, hplace⟩ := Array.mem_iff_getElem?.mp hrule
  simp only [ofRules, List.getElem?_toArray, getElem?_rulesFrom, Option.map_eq_some_iff] at hplace
  obtain ⟨written, hplace, rfl⟩ := hplace
  have hparts : written.parts ∈ found.map WrittenRule.parts :=
    List.mem_map_of_mem (List.mem_of_getElem? hplace)
  exact printable_of_sheetOf hsheet hnamed _ hparts _ (List.mem_map_of_mem hchain)

/-! ### Reading back -/

/-- What is read from a printed chain with an empty block behind it. -/
theorem written_printed {chain : Chain} (hprintable : chain.Printable) :
    written (chain.text ++ " {}").toList = .ok [⟨[chain], []⟩] := by
  have hcut : tokens (chain.text ++ " {}").toList = .ok (chain.printed ++
      [⟨.blank, [' ']⟩, ⟨.openBrace, ['\x7b']⟩, ⟨.closeBrace, ['\x7d']⟩]) := by
    have hblock : tokens " {}".toList = .ok
        [⟨.blank, [' ']⟩, ⟨.openBrace, ['\x7b']⟩, ⟨.closeBrace, ['\x7d']⟩] := by decide +kernel
    have hchain : CutBefore chain.printed " {}".toList := cut_chain hprintable rfl
    unfold CutBefore at hchain
    rw [String.toList_append, ← chain.flatMap_printed, hchain, hblock]
    rfl
  have hsheet : SheetOf _ _ := .rule
    (.mk ['\x7b'] ['\x7d'] (.single (chainOf_printed chain)) (.blank [' ']) .nil) .nil
  obtain ⟨found, hread, hparts⟩ := readRules_of_sheetOf hsheet
  obtain rfl : found = [⟨[chain], []⟩] :=
    List.map_injective_iff.mpr WrittenRule.parts_injective hparts
  rw [written_of_tokens hcut, ← hread]
  simp

/-- **Printing a chain and reading it back gives the chain**, as the only one of the only rule, if
its names are words and its ids can stand behind a hash, which is so for every chain that was read
from a text. -/
theorem parse_printed :
    (∀ (chain : Chain) (record : Bool), chain.Printable →
      ∃ sheet, parse (chain.text ++ " {}") record = .ok sheet ∧
        sheet.rules = #[⟨[chain], [], 0⟩] ∧ sheet.diagnostics = []) ∧
    ∀ (source : String) (record : Bool) (sheet : Sheet), parse source record = .ok sheet →
      ∀ rule ∈ sheet.rules, ∀ chain ∈ rule.selectors, chain.Printable := by
  constructor
  · intro chain record hprintable
    refine ⟨_, parse_of_written record (written_printed hprintable), rfl, ?_⟩
    cases record with
    | true => rfl
    | false => rfl
  · intro source record sheet hparse
    exact printable_of_parse hparse

/-- A class with a hyphen in front and an id with a digit in front: the point before the one and the
hash before the other are read as such. -/
theorem parse_printed_hyphen :
    ∃ sheet, parse "é.-x > *#1-a {}" true = .ok sheet ∧
      sheet.rules = #[⟨[.extend (.single ⟨some "é", some "-x", none⟩) .child
        ⟨none, none, some "1-a"⟩], [], 0⟩] ∧
      ∀ rule ∈ sheet.rules, ∀ chain ∈ rule.selectors, chain.Printable := by
  have hfirst : SimpleSelector.Printable ⟨some "é", some "-x", none⟩ := by
    refine ⟨?_, ?_, ?_⟩
    · rintro name ⟨⟩
      unfold IsWord
      decide +kernel
    · rintro name ⟨⟩
      unfold IsWord
      decide +kernel
    · rintro name ⟨⟩
  have hlast : SimpleSelector.Printable ⟨none, none, some "1-a"⟩ := by
    refine ⟨?_, ?_, ?_⟩
    · rintro name ⟨⟩
    · rintro name ⟨⟩
    · rintro name ⟨⟩
      exact ⟨by decide, List.all_eq_true.mp (by decide +kernel)⟩
  have hprintable : Chain.Printable (.extend (.single ⟨some "é", some "-x", none⟩) .child
      ⟨none, none, some "1-a"⟩) := by
    intro link hlink
    obtain rfl | rfl : link = ⟨.descendant, ⟨some "é", some "-x", none⟩⟩ ∨
        link = ⟨.child, ⟨none, none, some "1-a"⟩⟩ := by simpa [Chain.links] using hlink
    · exact hfirst
    · exact hlast
  obtain ⟨sheet, hparse, hrules, -⟩ := parse_printed.1 _ true hprintable
  exact ⟨sheet, hparse, hrules, parse_printed.2 _ true sheet hparse⟩

end WidgetStyle.Sheet
