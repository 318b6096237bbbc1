import WidgetStyle.Proofs.Declarations

/-!
# What is complained about

Each declaration that declares nothing is complained about once, in the order of the text: either
no attribute has its name, or its value, as it is written, is not one for the attribute. The
complaint is placed at the first character of the name.
-/

namespace WidgetStyle.Sheet

open Grammar
open Text (Position)

/-- The slice of the text from the first to the last token of a value that is not blank. A value of
blanks has the empty one. -/
def SliceOf (value : List Token) (slice : List Char) : Prop :=
  ∃ before middle after, value = before ++ middle ++ after ∧
    (∀ token ∈ before ++ after, token.kind = .blank) ∧
    (∀ token ∈ middle.head?, token.kind ≠ .blank) ∧
    (∀ token ∈ middle.getLast?, token.kind ≠ .blank) ∧
    slice = middle.flatMap Token.text

namespace WrittenDeclaration

/-- The declaration declares something. -/
def Valid (written : WrittenDeclaration) : Prop :=
  ∃ declared, written.Declares declared

theorem valid_iff {written : WrittenDeclaration} :
    written.Valid ↔ written.judge.toOption.isSome = true := by
  simp only [Valid, Option.isSome_iff_exists, toOption_judge_eq_some_iff]

instance (written : WrittenDeclaration) : Decidable written.Valid :=
  decidable_of_iff _ valid_iff.symm

/-- What is wrong with a declaration that declares nothing. -/
inductive Complains (written : WrittenDeclaration) : Complaint → Prop
  | unknownAttribute (hname : ∀ target : Attribute, target.name ≠ written.name) :
      Complains written (.unknownAttribute written.name)
  | outsideDomain {target : Attribute} {slice : String} (hname : target.name = written.name)
      (hvalid : ¬ written.Valid) (hslice : SliceOf written.value slice.toList) :
      Complains written (.outsideDomain target slice)

/-- The diagnostic complains about the declaration, at the first character of its name. -/
def DiagnosedAs (written : WrittenDeclaration) (source : List Char) (list : List Token)
    (diagnostic : Diagnostic) : Prop :=
  written.Complains diagnostic.complaint ∧
    ∃ front, written.StandsIn front list ∧
      diagnostic.position = Position.locate source (byteLengthOf front)

theorem kind_head_skipBlanks {list : List Token} {token : Token}
    (hhead : token ∈ (skipBlanks list).head?) : token.kind ≠ .blank := by
  simpa using head?_dropWhile_eq_false list token hhead

theorem exists_eq_append_skipBlanks (list : List Token) :
    ∃ blanks, list = blanks ++ skipBlanks list ∧ ∀ token ∈ blanks, token.kind = .blank := by
  refine ⟨list.takeWhile fun token => token.kind == .blank, ?_, ?_⟩
  · exact List.takeWhile_append_dropWhile.symm
  · intro token htoken
    simpa using List.mem_takeWhile_imp htoken

/-- Blanks are skipped from both ends of a value. -/
theorem sliceOf_valueText (written : WrittenDeclaration) :
    SliceOf written.value written.valueText.toList := by
  obtain ⟨before, hvalue, hbefore⟩ := exists_eq_append_skipBlanks written.value
  obtain ⟨after, hrest, hafter⟩ := exists_eq_append_skipBlanks (skipBlanks written.value).reverse
  have hmiddle : skipBlanks written.value =
      (skipBlanks (skipBlanks written.value).reverse).reverse ++ after.reverse := by
    rw [← List.reverse_append, ← hrest, List.reverse_reverse]
  refine ⟨before, (skipBlanks (skipBlanks written.value).reverse).reverse, after.reverse, ?_, ?_,
    ?_, ?_, String.toList_ofList⟩
  · rw [List.append_assoc, ← hmiddle, ← hvalue]
  · intro token htoken
    rcases List.mem_append.mp htoken with htoken | htoken
    · exact hbefore token htoken
    · exact hafter token (List.mem_reverse.mp htoken)
  · intro token htoken
    have hhead : token ∈ (skipBlanks written.value).head? := by
      rw [hmiddle, List.head?_append, Option.mem_def.mp htoken]
      rfl
    exact kind_head_skipBlanks hhead
  · intro token htoken
    rw [List.getLast?_reverse] at htoken
    exact kind_head_skipBlanks htoken

theorem complains_of_judge {written : WrittenDeclaration} {complaint : Complaint}
    (hjudge : written.judge = .error complaint) : written.Complains complaint := by
  have hvalid : ¬ written.Valid := by
    rw [valid_iff, hjudge]
    simp [Except.toOption]
  unfold judge at hjudge
  split at hjudge
  · next hunknown =>
    cases hjudge
    refine .unknownAttribute ?_
    intro target hname
    rw [Attribute.ofName?_eq_some_iff.mpr hname] at hunknown
    cases hunknown
  · next target htarget =>
    split at hjudge
    · cases hjudge
    · cases hjudge
      exact .outsideDomain (Attribute.ofName?_eq_some_iff.mp htarget) hvalid
        written.sliceOf_valueText

theorem diagnostic?_eq_none_iff {source : List Char} {written : WrittenDeclaration} :
    written.diagnostic? source = none ↔ written.Valid := by
  rw [valid_iff]
  unfold diagnostic?
  cases written.judge <;> simp [Except.toOption]

/-- A diagnostic has the place that the declaration has in the tokens. -/
theorem diagnosedAs_of_diagnostic? {source : List Char} {list : List Token}
    (hcut : tokens source = .ok list) {written : WrittenDeclaration} {front : List Token}
    (hstands : written.StandsIn front list) {diagnostic : Diagnostic}
    (hdiagnostic : written.diagnostic? source = some diagnostic) :
    written.DiagnosedAs source list diagnostic ∧
      diagnostic.position.offset + written.left = Text.byteLength source := by
  have hbytes : byteLengthOf front + written.left = Text.byteLength source := by
    rw [hstands.byteLengthOf_eq, byteLengthOf_tokens hcut]
  unfold diagnostic? at hdiagnostic
  split at hdiagnostic
  · cases hdiagnostic
  · next complaint hjudge =>
    cases hdiagnostic
    have hplace : Text.byteLength source - written.left = byteLengthOf front := by omega
    refine ⟨⟨complains_of_judge hjudge, front, hstands, ?_⟩, ?_⟩
    · change positionOf source written.left = _
      rw [positionOf, hplace]
    · change min (Text.byteLength source - written.left) (Text.byteLength source) + _ = _
      omega

end WrittenDeclaration

/-- Elements that have no image are left out, and each of the others has its own image. -/
theorem forall₂_filter_filterMap {α β : Type} {f : α → Option β} {p : α → Bool} {R : α → β → Prop}
    {list : List α} (hkept : ∀ a ∈ list, p a = true ↔ f a ≠ none)
    (himage : ∀ a ∈ list, ∀ b, f a = some b → R a b) :
    List.Forall₂ R (list.filter p) (list.filterMap f) := by
  induction list with
  | nil => exact .nil
  | cons a list ih =>
    have htail := ih (fun a ha => hkept a (List.mem_cons_of_mem _ ha))
      (fun a ha => himage a (List.mem_cons_of_mem _ ha))
    have hhead := hkept a List.mem_cons_self
    cases hf : f a with
    | none =>
      rw [hf] at hhead
      rw [List.filterMap_cons_none hf, List.filter_cons_of_neg (by simpa using hhead)]
      exact htail
    | some b =>
      rw [hf] at hhead
      rw [List.filterMap_cons_some hf, List.filter_cons_of_pos (by simpa using hhead)]
      exact .cons (himage a List.mem_cons_self b hf) htail

/-- Declarations that come later are complained about further behind. -/
theorem pairwise_offset_of_pairwise_left {source : List Char} {list : List Token}
    (hcut : tokens source = .ok list) {block : List WrittenDeclaration}
    (hstands : ∀ written ∈ block, ∃ front, written.StandsIn front list)
    (hdescends : block.Pairwise fun a b => b.left < a.left) :
    (block.filterMap fun written => written.diagnostic? source).Pairwise
      fun a b => a.position.offset < b.position.offset := by
  refine List.Pairwise.filterMap _ ?_ (List.Pairwise.and_mem.mp hdescends)
  rintro a b ⟨ha, hb, hbehind⟩ first hfirst second hsecond
  obtain ⟨front, hfront⟩ := hstands a ha
  obtain ⟨front', hfront'⟩ := hstands b hb
  have hplace := (WrittenDeclaration.diagnosedAs_of_diagnostic? hcut hfront hfirst).2
  have hplace' := (WrittenDeclaration.diagnosedAs_of_diagnostic? hcut hfront' hsecond).2
  omega

theorem forall₂_leaves (number : Nat) (found : List WrittenRule) :
    List.Forall₂ (fun written rule => Leaves written.block rule.declarations)
      (found.map WrittenRule.parts) (rulesFrom number found) := by
  induction found generalizing number with
  | nil => exact .nil
  | cons written found ih => exact .cons (written.leaves_declarations) (ih (number + 1))

/-- The rules of a derivation are those that are read. -/
theorem exists_sheetOf_of_written {source : List Char} {found : List WrittenRule}
    (hwritten : written source = .ok found) :
    ∃ list, tokens source = .ok list ∧ SheetOf list (found.map WrittenRule.parts) ∧
      ∀ other, SheetOf list other → other = found.map WrittenRule.parts := by
  cases hcut : tokens source with
  | error refusal => simp [written, hcut] at hwritten
  | ok list =>
    rw [written_of_tokens hcut] at hwritten
    refine ⟨list, rfl, sheetOf_readRules (spaced_tokens hcut) hwritten, ?_⟩
    intro other hother
    obtain ⟨found', hread, rfl⟩ := readRules_of_sheetOf hother
    rw [Except.ok.inj (hread.symm.trans hwritten)]

/-- **The last valid declaration of an attribute holds, and the others are complained about.** A
text that is read has one derivation. Each of its rules leaves, of the declarations in the block,
the last valid one of every attribute, in their order. The diagnostics, where they are kept, are
those of the declarations that are not valid, one for each, in the order of the text. -/
theorem leaves_and_diagnoses (source : String) (record : Bool) {sheet : Sheet}
    (hparse : parse source record = .ok sheet) :
    ∃ list rules, tokens source.toList = .ok list ∧ list.flatMap Token.text = source.toList ∧
      SheetOf list rules ∧ (∀ other, SheetOf list other → other = rules) ∧
      List.Forall₂ (fun written rule => Leaves written.block rule.declarations) rules
        sheet.rules.toList ∧
      (record = true →
        List.Forall₂ (fun written diagnostic => written.DiagnosedAs source.toList list diagnostic)
          ((rules.flatMap Grammar.Rule.block).filter fun written => ¬ written.Valid)
          sheet.diagnostics ∧
        sheet.diagnostics.Pairwise fun a b => a.position.offset < b.position.offset) ∧
      (record = false → sheet.diagnostics = []) := by
  obtain ⟨found, hwritten, rfl⟩ := exists_written_of_parse hparse
  obtain ⟨list, hcut, hsheet, hunique⟩ := exists_sheetOf_of_written hwritten
  have hproper := proper_of_mem_tokens hcut
  have hblocks : (found.map WrittenRule.parts).flatMap Grammar.Rule.block =
      found.flatMap WrittenRule.block := by
    rw [List.flatMap_map]
    rfl
  refine ⟨list, _, hcut, tokens_eq hcut, hsheet, hunique, forall₂_leaves 0 found, ?_, ?_⟩
  · rintro rfl
    have hstands : ∀ written ∈ found.flatMap WrittenRule.block,
        ∃ front, written.StandsIn front list := by
      intro written hmem
      exact exists_standsIn hsheet hproper (hblocks ▸ hmem)
    constructor
    · rw [hblocks]
      apply forall₂_filter_filterMap
      · intro written hmem
        rw [decide_eq_true_iff, ne_eq, WrittenDeclaration.diagnostic?_eq_none_iff]
      · intro written hmem diagnostic hdiagnostic
        obtain ⟨front, hfront⟩ := hstands written hmem
        exact (WrittenDeclaration.diagnosedAs_of_diagnostic? hcut hfront hdiagnostic).1
    · have hdescends := (descends_of_sheetOf hsheet hproper).pairwise
      rw [hblocks] at hdescends
      exact pairwise_offset_of_pairwise_left hcut hstands hdescends
  · rintro rfl
    rfl

/-- An invalid font behind two valid ones, an unknown name, and a value of two tokens. -/
theorem leaves_and_diagnoses_of_invalid_font :
    ∃ (sheet : Sheet) (list : List Token) (rules : List Grammar.Rule),
      parse "a{font:link;x:1;font:heading;font:5px;width: a /**/b }" = .ok sheet ∧
      SheetOf list rules ∧
      List.Forall₂ (fun written rule => Leaves written.block rule.declarations) rules
        sheet.rules.toList ∧
      sheet.rules.toList.map Rule.declarations = [[⟨.font, .keyword "heading"⟩]] ∧
      List.Forall₂ (fun written diagnostic => written.DiagnosedAs
          "a{font:link;x:1;font:heading;font:5px;width: a /**/b }".toList list diagnostic)
        ((rules.flatMap Grammar.Rule.block).filter fun written => ¬ written.Valid)
        sheet.diagnostics ∧
      sheet.diagnostics.map Diagnostic.complaint = [.unknownAttribute "x",
        .outsideDomain .font "5px", .outsideDomain .width "a /**/b"] := by
  have hwritten : written "a{font:link;x:1;font:heading;font:5px;width: a /**/b }".toList = .ok
      [⟨[.single ⟨some "a", none, none⟩],
        [⟨"font", [⟨.word "link", ['l', 'i', 'n', 'k']⟩], 52⟩,
          ⟨"x", [⟨.number (Number.Single.ofRatio false 1 1) "", ['1']⟩], 42⟩,
          ⟨"font", [⟨.word "heading", ['h', 'e', 'a', 'd', 'i', 'n', 'g']⟩], 38⟩,
          ⟨"font", [⟨.number (Number.Single.ofRatio false 5 1) "px", ['5', 'p', 'x']⟩], 25⟩,
          ⟨"width", [⟨.blank, [' ']⟩, ⟨.word "a", ['a']⟩, ⟨.blank, [' ', '/', '*', '*', '/']⟩,
            ⟨.word "b", ['b']⟩, ⟨.blank, [' ']⟩], 16⟩]⟩] := by
    decide +kernel
  have hparse := parse_of_written true hwritten
  obtain ⟨list, rules, -, -, hsheet, -, hleaves, hdiagnoses, -⟩ := leaves_and_diagnoses _ true hparse
  refine ⟨_, list, rules, hparse, hsheet, hleaves, ?_, (hdiagnoses rfl).1, ?_⟩
  · decide +kernel
  · decide +kernel

end WidgetStyle.Sheet
