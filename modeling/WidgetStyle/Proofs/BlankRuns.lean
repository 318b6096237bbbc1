import WidgetStyle.Proofs.Diagnostics
import WidgetStyle.Proofs.Squeezing

/-!
# Runs of blanks and comments in a stylesheet

A run of blanks and comments can be replaced by a single space wherever it stands in a text: the
rules are the same, and the same is complained about (`parse_collapse`). Only the values that the
complaints quote have single spaces, too.
-/

namespace WidgetStyle.Sheet

/-- The complaint with a single space for each run of blanks and comments in the value it quotes. -/
def Complaint.collapsed : Complaint → Complaint
  | .unknownAttribute name => .unknownAttribute name
  | .outsideDomain target written => .outsideDomain target (collapse written)

/-! ### Values -/

/-- A row of tokens as it is cut from a text. -/
structure Cut (list : List Token) : Prop where
  spaced : Spaced list
  whole : ∀ token ∈ list, token.Whole

theorem cut_of_tokens {cs : List Char} {list : List Token} (hcut : tokens cs = .ok list) :
    Cut list :=
  ⟨spaced_tokens hcut, whole_of_mem_tokens hcut⟩

theorem Cut.part {list middle : List Token} (hcut : Cut list) (hpart : middle <:+: list) :
    Cut middle where
  spaced := List.IsChain.infix hcut.spaced hpart
  whole token htoken := hcut.whole token (hpart.subset htoken)

/-- The tokens from the first to the last one that is not blank. -/
def trim (value : List Token) : List Token :=
  (skipBlanks (skipBlanks value).reverse).reverse

theorem trim_squeeze (value : List Token) : trim (squeeze value) = squeeze (trim value) := by
  have hreverse (list : List Token) : (squeeze list).reverse = squeeze list.reverse :=
    List.map_reverse.symm
  rw [trim, trim, skipBlanks_squeeze, hreverse, skipBlanks_squeeze, hreverse]

theorem trim_part (value : List Token) : trim value <:+: value := by
  have hsuffix (list : List Token) : skipBlanks list <:+ list := List.dropWhile_suffix _
  have hfront : trim value <+: skipBlanks value := by
    rw [← List.reverse_suffix, trim, List.reverse_reverse]
    exact hsuffix _
  exact hfront.isInfix.trans (hsuffix value).isInfix

theorem filter_squeeze (value : List Token) :
    ((squeeze value).filter fun token => token.kind != .blank) =
      value.filter fun token => token.kind != .blank := by
  rw [squeeze, List.filter_map]
  refine (List.map_congr_left ?_).trans (List.map_id _)
  intro token htoken
  refine Token.squeezed_of_ne_blank ?_
  simpa [Token.squeezed] using (List.mem_filter.mp htoken).2

/-! ### Declarations -/

namespace SameDeclaration

variable {written written' : WrittenDeclaration}

theorem value?_eq (hsame : SameDeclaration written written') :
    written'.value? = written.value? := by
  unfold WrittenDeclaration.value?
  rw [hsame.value, filter_squeeze]

theorem valueText_eq (hsame : SameDeclaration written written') (hcut : Cut written.value) :
    written'.valueText = collapse written.valueText := by
  have htrim := hcut.part (trim_part written.value)
  change String.ofList ((trim written'.value).flatMap Token.text) =
    collapse (String.ofList ((trim written.value).flatMap Token.text))
  rw [collapse, String.toList_ofList, collapseFrom_row htrim.spaced htrim.whole, hsame.value,
    trim_squeeze]
  rfl

theorem judge_eq (hsame : SameDeclaration written written') (hcut : Cut written.value) :
    written'.judge = written.judge.mapError Complaint.collapsed := by
  unfold WrittenDeclaration.judge
  rw [hsame.name, hsame.value?_eq, hsame.valueText_eq hcut]
  cases Attribute.ofName? written.name with
  | none => rfl
  | some target =>
    dsimp only
    cases written.value?.filter target.accepts <;> rfl

end SameDeclaration

/-- The value of a declaration is a part of the row that the stylesheet is read from. -/
theorem cut_value {source : List Char} {list : List Token} (hcut : tokens source = .ok list)
    {found : List WrittenRule} (hread : readRules list = .ok found) :
    ∀ written ∈ found.flatMap WrittenRule.block, Cut written.value := by
  intro written hwritten
  have hsheet := sheetOf_readRules (spaced_tokens hcut) hread
  obtain ⟨front, gap, colon, stop, back, hlist, -⟩ :=
    exists_standsIn hsheet (proper_of_mem_tokens hcut) ((flatMap_block_parts found).symm ▸ hwritten)
  refine (cut_of_tokens hcut).part ?_
  refine ⟨front ++ ⟨.word written.name, written.name.toList⟩ :: gap ++ [⟨.colon, colon⟩],
    stop :: back, ?_⟩
  rw [hlist]
  simp only [List.append_assoc, List.cons_append, List.nil_append]

/-! ### Rules and complaints -/

theorem map_judge_same {block block' : List WrittenDeclaration}
    (hsame : List.Forall₂ SameDeclaration block block')
    (hcut : ∀ written ∈ block, Cut written.value) :
    block'.map WrittenDeclaration.judge =
      (block.map WrittenDeclaration.judge).map (Except.mapError Complaint.collapsed) := by
  induction hsame with
  | nil => rfl
  | cons hfirst hrest ih =>
    obtain ⟨hvalue, hvalues⟩ := List.forall_mem_cons.mp hcut
    rw [List.map_cons, hfirst.judge_eq hvalue, ih hvalues]
    rfl

theorem toOption_mapError (verdict : Except Complaint Declaration) :
    (verdict.mapError Complaint.collapsed).toOption = verdict.toOption := by
  cases verdict <;> rfl

theorem complaint?_mapError (verdict : Except Complaint Declaration) :
    complaint? (verdict.mapError Complaint.collapsed) =
      (complaint? verdict).map Complaint.collapsed := by
  cases verdict <;> rfl

theorem SameRule.rule_eq {written written' : WrittenRule} (hsame : SameRule written written')
    (hcut : ∀ declaration ∈ written.block, Cut declaration.value) (number : Nat) :
    written'.rule number = written.rule number := by
  have hdeclarations (rule : WrittenRule) : rule.declarations =
      ((rule.block.map WrittenDeclaration.judge).filterMap Except.toOption).foldl declare [] := by
    rw [List.filterMap_map]
    rfl
  rw [WrittenRule.rule, WrittenRule.rule, hsame.selectors, hdeclarations, hdeclarations,
    map_judge_same hsame.block hcut, List.filterMap_map]
  simp only [Function.comp_def, toOption_mapError]

theorem rulesFrom_same {found found' : List WrittenRule}
    (hsame : List.Forall₂ SameRule found found')
    (hcut : ∀ written ∈ found.flatMap WrittenRule.block, Cut written.value) (number : Nat) :
    rulesFrom number found' = rulesFrom number found := by
  induction hsame generalizing number with
  | nil => rfl
  | @cons written written' found found' hfirst hrest ih =>
    rw [List.flatMap_cons, List.forall_mem_append] at hcut
    obtain ⟨hblock, hmore⟩ := hcut
    rw [rulesFrom, rulesFrom, hfirst.rule_eq hblock, ih hmore]

theorem complaints_same {found found' : List WrittenRule}
    (hsame : List.Forall₂ SameRule found found')
    (hcut : ∀ written ∈ found.flatMap WrittenRule.block, Cut written.value)
    (source source' : List Char) :
    (diagnose source' found').map Diagnostic.complaint =
      ((diagnose source found).map Diagnostic.complaint).map Complaint.collapsed := by
  have hblocks : List.Forall₂ SameDeclaration (found.flatMap WrittenRule.block)
      (found'.flatMap WrittenRule.block) :=
    List.rel_flatMap hsame fun _ _ hrule => hrule.block
  rw [diagnose, diagnose, map_complaint_filterMap, map_complaint_filterMap,
    map_judge_same hblocks hcut, List.filterMap_map, List.map_filterMap]
  simp only [Function.comp_def, complaint?_mapError]

/-! ### Stylesheets -/

theorem written_collapse {source : String} {list : List Token}
    (hcut : tokens source.toList = .ok list) :
    Alike (List.Forall₂ SameRule) (written source.toList) (written (collapse source).toList) := by
  rw [written_of_tokens hcut, written_of_tokens (tokens_collapse hcut)]
  exact readRules_squeeze list

/-- A stylesheet that is read has the same rules and complaints with single spaces. -/
theorem parse_collapse_of_parse {source : String} {record : Bool} {sheet : Sheet}
    (hparse : parse source record = .ok sheet) :
    ∃ sheet', parse (collapse source) record = .ok sheet' ∧ sheet'.rules = sheet.rules ∧
      sheet'.diagnostics.map Diagnostic.complaint =
        (sheet.diagnostics.map Diagnostic.complaint).map Complaint.collapsed := by
  obtain ⟨found, hwritten, rfl⟩ := exists_written_of_parse hparse
  obtain ⟨list, hcut, -⟩ := exists_sheetOf_of_written hwritten
  have hvalues := cut_value hcut (written_of_tokens hcut ▸ hwritten)
  obtain ⟨found', hwritten', hsame⟩ := (hwritten ▸ written_collapse hcut).exists_ok
  refine ⟨_, parse_of_written record hwritten', ?_, ?_⟩
  · exact congrArg List.toArray (rulesFrom_same hsame hvalues 0)
  · cases record with
    | false => rfl
    | true => exact complaints_same hsame hvalues _ _

/-- **Runs of blanks and comments are worth a space.** With a single space for each of them, a
stylesheet has the same rules and the same complaints, up to such runs in the values they quote. A
text that has tokens has the same ones afterwards, and it is refused for the same fault if it is
refused. -/
theorem parse_collapse (source : String) :
    (∀ record sheet, parse source record = .ok sheet →
      ∃ sheet', parse (collapse source) record = .ok sheet' ∧ sheet'.rules = sheet.rules ∧
        sheet'.diagnostics.map Diagnostic.complaint =
          (sheet.diagnostics.map Diagnostic.complaint).map Complaint.collapsed) ∧
    ∀ list, tokens source.toList = .ok list →
      (∃ list', tokens (collapse source).toList = .ok list' ∧
        list'.map Token.kind = list.map Token.kind) ∧
      ∀ record,
        (∃ sheet sheet', parse source record = .ok sheet ∧
          parse (collapse source) record = .ok sheet' ∧ sheet'.rules = sheet.rules) ∨
        ∃ fault position position', parse source record = .error ⟨fault, position⟩ ∧
          parse (collapse source) record = .error ⟨fault, position'⟩ := by
  refine ⟨fun record sheet hparse => parse_collapse_of_parse hparse, ?_⟩
  intro list hcut
  refine ⟨⟨_, tokens_collapse hcut, List.map_map⟩, ?_⟩
  intro record
  cases hwritten : written source.toList with
  | ok found =>
    have hparse := parse_of_written record hwritten
    obtain ⟨sheet', hparse', hrules, -⟩ := parse_collapse_of_parse hparse
    exact .inl ⟨_, sheet', hparse, hparse', hrules⟩
  | error refusal =>
    obtain ⟨refusal', hwritten', hfault⟩ := (hwritten ▸ written_collapse hcut).exists_error
    refine .inr ⟨refusal.fault, _, positionOf (collapse source).toList refusal'.left,
      parse_of_refused record hwritten, ?_⟩
    rw [parse_of_refused record hwritten', Refusal.place, hfault]

/-- A font of two words with a comment between them, and a text in which a colon is missing. -/
theorem parse_collapse_of_two_words :
    (∃ sheet sheet', parse "a/**/ b{font:x /**/y ;}" = .ok sheet ∧
      parse "a b{font:x y ;}" = .ok sheet' ∧ sheet'.rules = sheet.rules ∧
      sheet.diagnostics.map Diagnostic.complaint = [.outsideDomain .font "x /**/y"] ∧
      sheet'.diagnostics.map Diagnostic.complaint = [.outsideDomain .font "x y"]) ∧
    ∃ position position',
      parse "a{/**/font  link}" = .error ⟨.missingColon "font", position⟩ ∧
      parse "a{ font link}" = .error ⟨.missingColon "font", position'⟩ := by
  constructor
  · obtain ⟨sheet, hparse, hcomplaints⟩ : ∃ sheet,
        parse "a/**/ b{font:x /**/y ;}" = .ok sheet ∧
        sheet.diagnostics.map Diagnostic.complaint = [.outsideDomain .font "x /**/y"] := by
      have hwritten : written "a/**/ b{font:x /**/y ;}".toList = .ok
          [⟨[(Chain.single ⟨some "a", none, none⟩).extend .descendant ⟨some "b", none, none⟩],
            [⟨"font", [⟨.word "x", ['x']⟩, ⟨.blank, [' ', '/', '*', '*', '/']⟩,
              ⟨.word "y", ['y']⟩, ⟨.blank, [' ']⟩], 15⟩]⟩] := by
        decide +kernel
      exact ⟨_, parse_of_written true hwritten, by decide +kernel⟩
    obtain ⟨sheet', hparse', hrules, hcomplaints'⟩ := (parse_collapse _).1 true sheet hparse
    have hcollapse : collapse "a/**/ b{font:x /**/y ;}" = "a b{font:x y ;}" := by decide
    have hquoted : collapse "x /**/y" = "x y" := by decide
    rw [hcomplaints, List.map_singleton, Complaint.collapsed, hquoted] at hcomplaints'
    exact ⟨sheet, sheet', hparse, hcollapse ▸ hparse', hrules, hcomplaints, hcomplaints'⟩
  · have hcut : tokens "a{/**/font  link}".toList = .ok [⟨.word "a", ['a']⟩,
        ⟨.openBrace, ['\x7b']⟩, ⟨.blank, ['/', '*', '*', '/']⟩,
        ⟨.word "font", ['f', 'o', 'n', 't']⟩, ⟨.blank, [' ', ' ']⟩,
        ⟨.word "link", ['l', 'i', 'n', 'k']⟩, ⟨.closeBrace, ['\x7d']⟩] := by
      decide +kernel
    have hwritten : written "a{/**/font  link}".toList = .error ⟨.missingColon "font", 5⟩ := by
      decide +kernel
    have hrefused := parse_of_refused true hwritten
    have hcollapse : collapse "a{/**/font  link}" = "a{ font link}" := by decide
    rcases ((parse_collapse _).2 _ hcut).2 true with
      ⟨sheet, -, hparse, -⟩ | ⟨fault, position, position', hfault, hfault'⟩
    · cases hrefused.symm.trans hparse
    · obtain rfl : fault = .missingColon "font" :=
        (congrArg FaultAt.fault (Except.error.inj (hrefused.symm.trans hfault))).symm
      exact ⟨position, position', hfault, hcollapse ▸ hfault'⟩

end WidgetStyle.Sheet
