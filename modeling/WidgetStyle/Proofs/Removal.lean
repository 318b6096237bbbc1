import WidgetStyle.Proofs.Diagnostics

/-!
# A stylesheet without one of its declarations

The text of a declaration goes from its name through its semicolon, or up to the closing brace. In
front of it stands a blank, a brace or a semicolon, so the text can be cut there, and the tokens in
front and behind are joined as those of two texts (`tokens_append`). What is left is a stylesheet
again, with the same rules but for the one declaration (`sheetOf_without`). A declaration that
declares nothing can so be taken out of a text, and with it goes its own diagnostic and nothing
else.
-/

namespace WidgetStyle.Sheet

open Grammar
open Text (append_inj_of_byteLength byteLength byteLength_append)

/-! ### The text of a declaration -/

/-- The text of a declaration in front of what stands behind it in a stylesheet: that of its name,
its colon and its value, and of the semicolon behind them, if they do not end at a closing brace. -/
def WrittenDeclaration.TextOf (written : WrittenDeclaration) (text behind : List Char) : Prop :=
  ∃ row back closing rest,
    tokens (text ++ behind) = .ok (row ++ (back ++ ⟨.closeBrace, closing⟩ :: rest)) ∧
    RowOf written back row ∧ text = row.flatMap Token.text

/-- `text` is the text of a declaration that stands at an offset of the source. -/
structure DeclarationAt (source : List Char) (offset : Nat) (before text behind : List Char)
    (written : WrittenDeclaration) : Prop where
  source_eq : source = before ++ (text ++ behind)
  offset_eq : byteLength before = offset
  textOf : written.TextOf text behind

theorem valueOf_row {gap value : List Token} (name : String) (text colon : List Char)
    (hgap : Gap gap) (hvalue : ValueOf value) :
    ValueOf (⟨.word name, text⟩ :: gap ++ ⟨.colon, colon⟩ :: value) := by
  intro token htoken
  rcases List.mem_append.mp htoken with htoken | htoken
  · rcases List.mem_cons.mp htoken with rfl | htoken
    · simp
    · cases hgap with
      | none => cases htoken
      | blank blank =>
        obtain rfl := List.mem_singleton.mp htoken
        simp
  · rcases List.mem_cons.mp htoken with rfl | htoken
    · simp
    · exact hvalue token htoken

/-- A declaration goes up to the first brace or semicolon, and takes only the semicolon. -/
theorem RowOf.row_eq {written : WrittenDeclaration} {row back : List Token}
    (hrow : RowOf written back row) {list rest : List Token} {closing : List Char}
    (hlist : list = row ++ (back ++ ⟨.closeBrace, closing⟩ :: rest)) :
    row = list.takeWhile (!endsValue ·) ++
      ((list.dropWhile (!endsValue ·)).head?.toList.filter fun token => token.kind == .semicolon) := by
  subst hlist
  rcases hrow with ⟨text, colon, semicolon, hgap, hvalue⟩ | ⟨text, colon, hgap, hvalue, rfl⟩
  · have hrow := valueOf_row written.name text colon hgap hvalue
    generalize ⟨.word written.name, text⟩ :: _ ++ ⟨.colon, colon⟩ :: written.value = front at hrow ⊢
    obtain ⟨htake, hdrop⟩ := value_append_of_stop hrow
      (show endsValue ⟨.semicolon, semicolon⟩ = true from rfl) _
    rw [List.append_assoc, List.singleton_append, htake, hdrop]
    rfl
  · have hrow := valueOf_row written.name text colon hgap hvalue
    obtain ⟨htake, hdrop⟩ := value_append_of_stop hrow
      (show endsValue ⟨.closeBrace, closing⟩ = true from rfl) rest
    rw [List.nil_append, htake, hdrop]
    exact (List.append_nil _).symm

/-- The text of a declaration is fixed by the place where it starts. -/
theorem WrittenDeclaration.TextOf.unique {written other : WrittenDeclaration}
    {text text' behind behind' : List Char} (htext : written.TextOf text behind)
    (hother : other.TextOf text' behind') (hall : text ++ behind = text' ++ behind') :
    text = text' ∧ behind = behind' := by
  obtain ⟨row, back, closing, rest, hcut, hrow, rfl⟩ := htext
  obtain ⟨row', back', closing', rest', hcut', hrow', rfl⟩ := hother
  rw [hall, hcut'] at hcut
  obtain rfl : row = row' :=
    (hrow.row_eq (Except.ok.inj hcut)).trans (hrow'.row_eq rfl).symm
  exact ⟨rfl, List.append_cancel_left hall⟩

theorem DeclarationAt.unique {source before before' text text' behind behind' : List Char}
    {offset : Nat} {written other : WrittenDeclaration}
    (hstands : DeclarationAt source offset before text behind written)
    (hother : DeclarationAt source offset before' text' behind' other) :
    before = before' ∧ behind = behind' := by
  have hall := hstands.source_eq.symm.trans hother.source_eq
  obtain ⟨hbefore, hrest⟩ :=
    append_inj_of_byteLength hall (hstands.offset_eq.trans hother.offset_eq.symm)
  exact ⟨hbefore, (hstands.textOf.unique hother.textOf hrest).2⟩

/-! ### The rules of a sheet -/

/-- What the catalog makes of written rules. -/
def verdicts (found : List WrittenRule) :
    List (List (List Link) × List (Except Complaint Declaration)) :=
  (found.map WrittenRule.parts).map Grammar.Rule.verdict

/-- What the verdicts on the declarations of a block leave. -/
def settle (block : List (Except Complaint Declaration)) : List Declaration :=
  (block.filterMap Except.toOption).foldl declare []

theorem WrittenRule.settle_map_judge (written : WrittenRule) :
    settle (written.block.map WrittenDeclaration.judge) = written.declarations := by
  rw [settle, List.filterMap_map]
  rfl

/-- A declaration with a complaint leaves nothing. -/
theorem settle_append_error (before after : List (Except Complaint Declaration))
    (complaint : Complaint) :
    settle (before ++ .error complaint :: after) = settle (before ++ after) := by
  rw [settle, settle, List.filterMap_append, List.filterMap_append, List.filterMap_cons_none rfl]

/-- Rules are the same if they have the same chains and their blocks leave the same. -/
theorem rulesFrom_eq_of_settle {found found' : List WrittenRule} (number : Nat)
    (hsame : (verdicts found).map (Prod.map id settle) =
      (verdicts found').map (Prod.map id settle)) :
    rulesFrom number found = rulesFrom number found' := by
  induction found generalizing found' number with
  | nil =>
    cases found' with
    | nil => rfl
    | cons written' found' => cases hsame
  | cons written found ih =>
    cases found' with
    | nil => cases hsame
    | cons written' found' =>
      obtain ⟨hhead, htail⟩ := List.cons.inj hsame
      obtain ⟨hchains, hleft⟩ := Prod.mk.inj hhead
      have hselectors : written.selectors = written'.selectors :=
        List.map_injective_iff.mpr Chain.links_injective hchains
      have hdeclarations : written.declarations = written'.declarations := by
        rw [← WrittenRule.settle_map_judge, ← WrittenRule.settle_map_judge]
        exact hleft
      rw [rulesFrom, rulesFrom, ih (number + 1) htail, WrittenRule.rule, WrittenRule.rule,
        hselectors, hdeclarations]

theorem flatMap_verdict (rules : List Grammar.Rule) :
    (rules.map Grammar.Rule.verdict).flatMap Prod.snd =
      (rules.flatMap Grammar.Rule.block).map WrittenDeclaration.judge := by
  rw [List.flatMap_map, List.map_flatMap]
  rfl

/-! ### The text without a declaration -/

theorem exists_of_getElem?_filterMap {α β : Type} {f : α → Option β} {list : List α} {place : Nat}
    {b : β} (hplace : (list.filterMap f)[place]? = some b) :
    ∃ before a after, list = before ++ a :: after ∧ f a = some b ∧
      (before.filterMap f).length = place := by
  induction list generalizing place with
  | nil => simp at hplace
  | cons first list ih =>
    cases hfirst : f first with
    | none =>
      rw [List.filterMap_cons_none hfirst] at hplace
      obtain ⟨before, a, after, rfl, ha, hlength⟩ := ih hplace
      refine ⟨first :: before, a, after, rfl, ha, ?_⟩
      rw [List.filterMap_cons_none hfirst, hlength]
    | some b' =>
      rw [List.filterMap_cons_some hfirst] at hplace
      cases place with
      | zero =>
        rw [List.getElem?_cons_zero, Option.some.injEq] at hplace
        exact ⟨[], first, list, rfl, by rw [hfirst, hplace], rfl⟩
      | succ place =>
        rw [List.getElem?_cons_succ] at hplace
        obtain ⟨before, a, after, rfl, ha, hlength⟩ := ih hplace
        refine ⟨first :: before, a, after, rfl, ha, ?_⟩
        rw [List.filterMap_cons_some hfirst, List.length_cons, hlength]

theorem eraseIdx_filterMap {α β : Type} {f : α → Option β} {a : α} {b : β} (ha : f a = some b)
    (before after : List α) :
    ((before ++ a :: after).filterMap f).eraseIdx (before.filterMap f).length =
      (before ++ after).filterMap f := by
  rw [List.filterMap_append, List.filterMap_cons_some ha, List.filterMap_append,
    List.eraseIdx_append_of_length_le (Nat.le_refl _), Nat.sub_self, List.eraseIdx_cons_zero]

/-- The text without a declaration is a stylesheet, with the same verdicts on all others. -/
theorem exists_written_without {source : List Char} {found : List WrittenRule}
    (hwritten : written source = .ok found) {rulesBefore rulesAfter : List Grammar.Rule}
    {chains : List (List Link)} {blockBefore blockAfter : List WrittenDeclaration}
    {declaration : WrittenDeclaration}
    (hparts : found.map WrittenRule.parts =
      rulesBefore ++ ⟨chains, blockBefore ++ declaration :: blockAfter⟩ :: rulesAfter) :
    ∃ before text behind found',
      DeclarationAt source (byteLength source - declaration.left) before text behind declaration ∧
      written (before ++ behind) = .ok found' ∧
      verdicts found' = (rulesBefore ++
        ⟨chains, blockBefore ++ blockAfter⟩ :: rulesAfter).map Grammar.Rule.verdict := by
  obtain ⟨list, hcut, hsheet, -⟩ := exists_sheetOf_of_written hwritten
  rw [hparts] at hsheet
  obtain ⟨front, row, back, closing, rest, rfl, hclosed, hrow, hleft, rules, hrules, hverdicts⟩ :=
    sheetOf_without hsheet
  generalize hrest : back ++ ⟨.closeBrace, closing⟩ :: rest = more at *
  have hfront := tokens_of_append_left hcut hclosed
  have hdeclaration := tokens_of_append_right hcut
  have hbehind := tokens_of_append_right hdeclaration
  have hsource := tokens_eq hcut
  rw [List.flatMap_append, List.flatMap_append] at hsource
  rw [List.flatMap_append] at hdeclaration
  obtain ⟨found', hread, rfl⟩ := readRules_of_sheetOf hrules
  refine ⟨front.flatMap Token.text, row.flatMap Token.text, more.flatMap Token.text, found',
    ⟨hsource.symm, ?_, row, back, closing, rest, ?_, hrow, rfl⟩, ?_, hverdicts⟩
  · rw [← byteLengthOf_tokens hfront, hleft, ← byteLengthOf_tokens hcut, byteLengthOf_append front,
      Nat.add_sub_cancel]
  · rw [hdeclaration, hrest]
  · have hjoined : tokens (front.flatMap Token.text ++ more.flatMap Token.text) =
        .ok (join front more) := by
      rw [tokens_append hfront hclosed, hbehind]
      rfl
    rw [written_of_tokens hjoined, hread]

theorem judge_of_diagnostic? {source : List Char} {declaration : WrittenDeclaration}
    {diagnostic : Diagnostic} (hdiagnostic : declaration.diagnostic? source = some diagnostic) :
    declaration.judge = .error diagnostic.complaint ∧
      diagnostic.position.offset = byteLength source - declaration.left := by
  unfold WrittenDeclaration.diagnostic? at hdiagnostic
  split at hdiagnostic
  · cases hdiagnostic
  · next hjudge =>
    cases hdiagnostic
    exact ⟨hjudge, Nat.min_eq_left (Nat.sub_le _ _)⟩

/-- **A declaration that is complained about can be taken out.** Where a diagnostic is placed,
there stands the text of one declaration, and this is complained about. The text without it is
read, it has the same rules, and its complaints are all others, in their order. -/
theorem parse_without_declaration (source : String) {sheet : Sheet}
    (hparse : parse source true = .ok sheet) {place : Nat} {diagnostic : Diagnostic}
    (hdiagnostic : sheet.diagnostics[place]? = some diagnostic) :
    (∃ before text behind declaration,
      DeclarationAt source.toList diagnostic.position.offset before text behind declaration ∧
      declaration.Complains diagnostic.complaint) ∧
    ∀ before text behind declaration,
      DeclarationAt source.toList diagnostic.position.offset before text behind declaration →
      ∃ sheet', parse (String.ofList (before ++ behind)) true = .ok sheet' ∧
        sheet'.rules = sheet.rules ∧
        sheet'.diagnostics.map Diagnostic.complaint =
          (sheet.diagnostics.map Diagnostic.complaint).eraseIdx place := by
  obtain ⟨found, hwritten, rfl⟩ := exists_written_of_parse hparse
  obtain ⟨front, declaration, rest, hall, hdiagnostic', hplace⟩ :=
    exists_of_getElem?_filterMap hdiagnostic
  obtain ⟨hjudge, hoffset⟩ := judge_of_diagnostic? hdiagnostic'
  obtain ⟨rulesBefore, chains, blockBefore, blockAfter, rulesAfter, hrules, hfront, hrest⟩ :=
    exists_rule_of_flatMap_eq ((flatMap_block_parts found).trans hall)
  obtain ⟨before, text, behind, found', hstands, hwritten', hverdicts⟩ :=
    exists_written_without hwritten hrules
  rw [hoffset]
  refine ⟨⟨before, text, behind, declaration, hstands,
    WrittenDeclaration.complains_of_judge hjudge⟩, ?_⟩
  intro before' text' behind' other hother
  obtain ⟨rfl, rfl⟩ := hstands.unique hother
  rw [← String.toList_ofList (l := before ++ behind)] at hwritten'
  refine ⟨_, parse_of_written true hwritten', ?_, ?_⟩
  · refine congrArg List.toArray (rulesFrom_eq_of_settle 0 ?_)
    rw [hverdicts, verdicts, hrules]
    simp only [List.map_append, List.map_cons, Grammar.Rule.verdict, Prod.map, hjudge,
      settle_append_error]
  · have hblock : (found'.flatMap WrittenRule.block).map WrittenDeclaration.judge =
        (front ++ rest).map WrittenDeclaration.judge := by
      rw [← flatMap_block_parts, ← flatMap_verdict]
      change (verdicts found').flatMap Prod.snd = _
      rw [hverdicts, flatMap_verdict, hfront, hrest, List.flatMap_append, List.flatMap_cons]
      simp only [List.append_assoc]
    have hlength : ((front.map WrittenDeclaration.judge).filterMap complaint?).length = place := by
      rw [← map_complaint_filterMap source.toList, List.length_map, hplace]
    change (diagnose _ found').map _ = ((diagnose _ found).map _).eraseIdx place
    rw [diagnose, diagnose, map_complaint_filterMap, map_complaint_filterMap, hblock, hall,
      List.map_append, List.map_append, List.map_cons, hjudge, ← hlength]
    exact (eraseIdx_filterMap (f := complaint?) rfl _ _).symm

/-- A value of a comma and a number, with a comment behind it that goes as well. -/
theorem parse_without_declaration_of_comma :
    ∃ sheet : Sheet, parse "a{font:link;x:,1/**/;font:5px}" true = .ok sheet ∧
      sheet.diagnostics.map Diagnostic.complaint =
        [.unknownAttribute "x", .outsideDomain .font "5px"] ∧
      DeclarationAt "a{font:link;x:,1/**/;font:5px}".toList 12 "a\x7bfont:link;".toList
        "x:,1/**/;".toList "font:5px\x7d".toList
        ⟨"x", [⟨.comma, [',']⟩, ⟨.number (Number.Single.ofRatio false 1 1) "", ['1']⟩,
          ⟨.blank, "/**/".toList⟩], 18⟩ ∧
      ∃ sheet', parse (String.ofList ("a\x7bfont:link;".toList ++ "font:5px\x7d".toList)) true =
          .ok sheet' ∧
        sheet'.rules = sheet.rules ∧
        sheet'.diagnostics.map Diagnostic.complaint = [.outsideDomain .font "5px"] := by
  have hwritten : written "a{font:link;x:,1/**/;font:5px}".toList = .ok
      [⟨[.single ⟨some "a", none, none⟩],
        [⟨"font", [⟨.word "link", "link".toList⟩], 28⟩,
          ⟨"x", [⟨.comma, [',']⟩, ⟨.number (Number.Single.ofRatio false 1 1) "", ['1']⟩,
            ⟨.blank, "/**/".toList⟩], 18⟩,
          ⟨"font", [⟨.number (Number.Single.ofRatio false 5 1) "px", "5px".toList⟩], 9⟩]⟩] := by
    decide +kernel
  have hparse := parse_of_written true hwritten
  have hstands : DeclarationAt "a{font:link;x:,1/**/;font:5px}".toList 12 "a\x7bfont:link;".toList
      "x:,1/**/;".toList "font:5px\x7d".toList
      ⟨"x", [⟨.comma, [',']⟩, ⟨.number (Number.Single.ofRatio false 1 1) "", ['1']⟩,
        ⟨.blank, "/**/".toList⟩], 18⟩ := by
    refine ⟨by decide, by decide, _, [⟨.word "font", "font".toList⟩, ⟨.colon, [':']⟩,
      ⟨.number (Number.Single.ofRatio false 5 1) "px", "5px".toList⟩], ['\x7d'], [], ?_,
      .ended ['x'] [':'] [';'] .none (by simp [ValueOf]), by decide⟩
    decide +kernel
  obtain ⟨-, hwithout⟩ := parse_without_declaration _ hparse
    (show (_ : List Diagnostic)[0]? = some ⟨.unknownAttribute "x", ⟨12, 1, 13⟩⟩ by decide +kernel)
  obtain ⟨sheet', hparse', hrules, hcomplaints⟩ := hwithout _ _ _ _ hstands
  refine ⟨_, hparse, ?_, hstands, sheet', hparse', hrules, ?_⟩
  · decide +kernel
  · rw [hcomplaints]
    decide +kernel

end WidgetStyle.Sheet
