import WidgetStyle.Proofs.Diagnostics
import WidgetStyle.Proofs.Lines
import WidgetStyle.Proofs.Spans

/-!
# Where faults and diagnostics are placed

A reader goes over its tokens from left to right: what it leaves is the end of the row it was given,
and where it gives up, the place is again the start of such an end (`StaysIn`). So each fault stands
between two tokens, and a diagnostic stands at the name of its declaration. Offsets between tokens
are offsets between characters, and there the line and the column tell the offset, since places
further on come later (`precedes_of_lt`).
-/

namespace WidgetStyle.Sheet

open Text (IsBoundary Position CountsFit byteLength byteLength_append lineAt columnAt)

/-! ### Readers stay in their row -/

/-- What is left is an end of the row, and a refusal is placed at the start of one. -/
def StaysIn {α : Type} (tokens : List Token) : Except Refusal (α × List Token) → Prop
  | .ok (_, rest) => rest <:+ tokens
  | .error refusal => ∃ rest, rest <:+ tokens ∧ byteLengthOf rest = refusal.left

theorem StaysIn.mono {α : Type} {tokens tokens' : List Token}
    {reading : Except Refusal (α × List Token)} (hstays : StaysIn tokens reading)
    (hsuffix : tokens <:+ tokens') : StaysIn tokens' reading := by
  cases reading with
  | ok found => exact hstays.trans hsuffix
  | error refusal =>
    obtain ⟨rest, hrest, hbytes⟩ := hstays
    exact ⟨rest, hrest.trans hsuffix, hbytes⟩

theorem StaysIn.suffix {α : Type} {tokens rest : List Token} {found : α}
    {reading : Except Refusal (α × List Token)} (hstays : StaysIn tokens reading)
    (hread : reading = .ok (found, rest)) : rest <:+ tokens := by
  subst hread
  exact hstays

theorem StaysIn.refused {α β : Type} {tokens : List Token} {refusal : Refusal}
    {reading : Except Refusal (α × List Token)} (hstays : StaysIn tokens reading)
    (hread : reading = .error refusal) : StaysIn (α := β) tokens (.error refusal) := by
  subst hread
  exact hstays

theorem staysIn_error {α : Type} {tokens rest : List Token} (hrest : rest <:+ tokens)
    (fault : Fault) : StaysIn (α := α) tokens (.error ⟨fault, byteLengthOf rest⟩) :=
  ⟨rest, hrest, rfl⟩

theorem skipBlanks_suffix (tokens : List Token) : skipBlanks tokens <:+ tokens :=
  List.dropWhile_suffix _

theorem staysIn_readParts (selector : SimpleSelector) (tokens : List Token) :
    StaysIn tokens (readParts selector tokens) := by
  fun_induction readParts selector tokens with
  | case1 selector dot name text rest ih =>
    exact ih.mono ((List.suffix_cons _ _).trans (List.suffix_cons _ _))
  | case2 selector dot rest hword => exact staysIn_error (List.suffix_cons _ _) _
  | case3 selector name text rest ih => exact ih.mono (List.suffix_cons _ _)
  | case4 selector tokens => exact List.suffix_rfl

theorem staysIn_readSelector (tokens : List Token) : StaysIn tokens (readSelector tokens) := by
  unfold readSelector
  split
  · exact (staysIn_readParts _ _).mono (List.suffix_cons _ _)
  · exact (staysIn_readParts _ _).mono (List.suffix_cons _ _)
  · exact staysIn_readParts _ _
  · exact staysIn_readParts _ _
  · exact staysIn_error List.suffix_rfl _

theorem readCombinator_suffix {tokens behind : List Token} {combinator : Combinator}
    (hread : readCombinator tokens = some (combinator, behind)) : behind <:+ tokens := by
  have hskipped := skipBlanks_suffix tokens
  unfold readCombinator at hread
  split at hread
  · next text rest hfront =>
    cases hread
    rw [hfront] at hskipped
    exact (skipBlanks_suffix rest).trans ((List.suffix_cons _ _).trans hskipped)
  · split at hread
    · cases hread
      exact hskipped
    · cases hread

theorem staysIn_readLinks (chain : Chain) (tokens : List Token) :
    StaysIn tokens (readLinks chain tokens) := by
  fun_induction readLinks chain tokens with
  | case1 chain tokens hjoined => exact skipBlanks_suffix tokens
  | case2 chain tokens combinator behind hjoined refusal hrefused =>
    exact ((staysIn_readSelector behind).refused hrefused).mono (readCombinator_suffix hjoined)
  | case3 chain tokens combinator behind hjoined selector rest hread hshorter hsmaller ih =>
    have hrest := (staysIn_readSelector behind).suffix hread
    exact ih.mono (hrest.trans (readCombinator_suffix hjoined))

theorem staysIn_readChain (tokens : List Token) : StaysIn tokens (readChain tokens) := by
  unfold readChain
  split
  · next hrefused => exact (staysIn_readSelector tokens).refused hrefused
  · next hread => exact (staysIn_readLinks _ _).mono ((staysIn_readSelector tokens).suffix hread)

/-- Behind a chain, a comma and blanks. -/
theorem suffix_of_comma {tokens behind next : List Token} {chain : Chain} {text : List Char}
    (hread : readChain tokens = .ok (chain, behind))
    (hfront : skipBlanks behind = ⟨.comma, text⟩ :: next) : skipBlanks next <:+ tokens := by
  have hbehind := (staysIn_readChain tokens).suffix hread
  have hskipped := skipBlanks_suffix behind
  rw [hfront] at hskipped
  exact (skipBlanks_suffix next).trans ((List.suffix_cons _ _).trans (hskipped.trans hbehind))

theorem staysIn_readChains (tokens : List Token) : StaysIn tokens (readChains tokens) := by
  fun_induction readChains tokens with
  | case1 tokens refusal hrefused => exact (staysIn_readChain tokens).refused hrefused
  | case2 tokens chain behind hread text next hfront hshorter refusal hrefused ih =>
    exact (ih.refused hrefused).mono (suffix_of_comma hread hfront)
  | case3 tokens chain behind hread text next hfront hshorter chains rest hchains ih =>
    exact (ih.suffix hchains).trans (suffix_of_comma hread hfront)
  | case4 tokens chain behind hread hfront =>
    exact (skipBlanks_suffix behind).trans ((staysIn_readChain tokens).suffix hread)

/-- Behind the value of a declaration. -/
theorem suffix_of_colon {colon : List Char} {behind value : List Token}
    (hfront : skipBlanks behind = ⟨.colon, colon⟩ :: value) :
    value.dropWhile (!endsValue ·) <:+ behind := by
  have hskipped := skipBlanks_suffix behind
  rw [hfront] at hskipped
  exact (List.dropWhile_suffix _).trans ((List.suffix_cons _ _).trans hskipped)

/-- The faults of a block are in the row, also the one that is placed where the block opens. -/
theorem staysIn_readBlock {opening tokens row : List Token} (hopening : opening <:+ row)
    (hsuffix : tokens <:+ row) : StaysIn row (readBlock (byteLengthOf opening) tokens) := by
  fun_induction readBlock (byteLengthOf opening) tokens with
  | case1 => exact staysIn_error hopening _
  | case2 text rest ih => exact ih ((List.suffix_cons _ _).trans hsuffix)
  | case3 text rest ih => exact ih ((List.suffix_cons _ _).trans hsuffix)
  | case4 text rest => exact (List.suffix_cons _ _).trans hsuffix
  | case5 name text behind colon value hfront brace rest hstop =>
    have hbehind := (List.suffix_cons _ _).trans hsuffix
    exact staysIn_error (hstop ▸ (suffix_of_colon hfront).trans hbehind) _
  | case6 name text behind colon value hfront hbrace hshorter refusal hrefused ih =>
    have hbehind := (List.suffix_cons _ _).trans hsuffix
    exact (ih ((suffix_of_colon hfront).trans hbehind)).refused hrefused
  | case7 name text behind colon value hfront block rest hbrace hshorter hread ih =>
    have hbehind := (List.suffix_cons _ _).trans hsuffix
    exact (ih ((suffix_of_colon hfront).trans hbehind)).suffix hread
  | case8 name text behind hcolon =>
    have hbehind := (List.suffix_cons _ _).trans hsuffix
    exact staysIn_error ((skipBlanks_suffix behind).trans hbehind) _
  | case9 => exact staysIn_error hsuffix _

theorem staysIn_readRule (tokens : List Token) : StaysIn tokens (readRule tokens) := by
  unfold readRule
  split
  · next hrefused => exact (staysIn_readChains tokens).refused hrefused
  · next selectors behind hread =>
    have hbehind := (staysIn_readChains tokens).suffix hread
    split
    · next text inside =>
      have hblock := staysIn_readBlock hbehind ((List.suffix_cons _ _).trans hbehind)
      split
      · next hrefused => exact hblock.refused hrefused
      · next hread => exact hblock.suffix hread
    · exact staysIn_error hbehind _

/-- A row that is refused is refused at the start of an end of it. -/
theorem exists_suffix_of_readRules {tokens : List Token} {refusal : Refusal}
    (hread : readRules tokens = .error refusal) :
    ∃ rest, rest <:+ tokens ∧ byteLengthOf rest = refusal.left := by
  fun_induction readRules tokens with
  | case1 => cases hread
  | case2 tokens token more hfront refusal' hrefused =>
    cases hread
    have hskipped := hfront ▸ skipBlanks_suffix tokens
    exact ((staysIn_readRule _).refused (β := WrittenRule) hrefused).mono hskipped
  | case3 tokens token more hfront rule rest hrule hshorter refusal' hrefused ih =>
    cases hread
    have hskipped := hfront ▸ skipBlanks_suffix tokens
    have hrest := (staysIn_readRule _).suffix hrule
    obtain ⟨place, hplace, hbytes⟩ := ih hrefused
    exact ⟨place, hplace.trans (hrest.trans hskipped), hbytes⟩
  | case4 => cases hread

/-! ### Places in a text -/

/-- The position is the place of a boundary between characters. -/
def PlacedIn (source : List Char) (position : Position) : Prop :=
  IsBoundary source position.offset ∧ position = .locate source position.offset

theorem placedIn_positionOf {source front back : List Char} (hsource : source = front ++ back) :
    PlacedIn source (positionOf source (byteLength back)) := by
  have hplace := Text.byteLength_sub_eq hsource
  have hoffset : min (byteLength front) (byteLength source) = byteLength front := by
    rw [hsource, byteLength_append]
    exact Nat.min_eq_left (Nat.le_add_right _ _)
  rw [positionOf, hplace, PlacedIn]
  change IsBoundary source (min _ _) ∧ _ = Position.locate source (min _ _)
  rw [hoffset]
  exact ⟨⟨front, back, hsource, rfl⟩, rfl⟩

/-- A place between two tokens of a text is one between characters. -/
theorem placedIn_of_suffix {source : List Char} {list rest : List Token}
    (hcut : tokens source = .ok list) (hrest : rest <:+ list) :
    PlacedIn source (positionOf source (byteLengthOf rest)) := by
  obtain ⟨front, rfl⟩ := hrest
  have hsource : source = front.flatMap Token.text ++ rest.flatMap Token.text := by
    rw [← List.flatMap_append, tokens_eq hcut]
  rw [byteLengthOf_eq]
  exact placedIn_positionOf hsource

/-- A text that is refused is refused between two of its characters. -/
theorem placedIn_of_refused {source : List Char} {refusal : Refusal}
    (hwritten : written source = .error refusal) :
    PlacedIn source (refusal.place source).position := by
  cases hcut : tokens source with
  | error refusal' =>
    obtain rfl : refusal' = refusal := by simpa [written, hcut] using hwritten
    obtain ⟨before, after, -, hsource, hleft, -, -⟩ := exists_front_of_tokens hcut
    rw [Refusal.place, ← hleft]
    exact placedIn_positionOf hsource
  | ok list =>
    rw [written_of_tokens hcut] at hwritten
    obtain ⟨rest, hrest, hleft⟩ := exists_suffix_of_readRules hwritten
    rw [Refusal.place, ← hleft]
    exact placedIn_of_suffix hcut hrest

theorem StandsIn.exists_suffix {written : WrittenDeclaration} {front list : List Token}
    (hstands : written.StandsIn front list) :
    ∃ rest, rest <:+ list ∧ byteLengthOf rest = written.left := by
  have hbytes := hstands.byteLengthOf_eq
  obtain ⟨gap, colon, stop, back, rfl, -⟩ := hstands
  rw [byteLengthOf_append] at hbytes
  exact ⟨_, List.suffix_append _ _, (Nat.add_left_cancel hbytes).symm⟩

/-- A declaration that is complained about begins at a character. -/
theorem placedIn_of_mem_diagnose {source : List Char} {found : List WrittenRule}
    (hwritten : written source = .ok found) {diagnostic : Diagnostic}
    (hdiagnostic : diagnostic ∈ diagnose source found) : PlacedIn source diagnostic.position := by
  obtain ⟨list, hcut, hsheet, -⟩ := exists_sheetOf_of_written hwritten
  obtain ⟨declaration, hmem, hdiagnosed⟩ := List.mem_filterMap.mp hdiagnostic
  rw [← flatMap_block_parts] at hmem
  obtain ⟨front, hstands⟩ := exists_standsIn hsheet (proper_of_mem_tokens hcut) hmem
  obtain ⟨rest, hrest, hleft⟩ := StandsIn.exists_suffix hstands
  have hposition : diagnostic.position = positionOf source declaration.left := by
    unfold WrittenDeclaration.diagnostic? at hdiagnosed
    split at hdiagnosed
    · cases hdiagnosed
    · cases hdiagnosed
      rfl
  rw [hposition, ← hleft]
  exact placedIn_of_suffix hcut hrest

/-! ### Every text -/

/-- A place that comes first between two characters comes first by line and column. -/
theorem precedes_of_lt {source : List Char} (hfit : CountsFit source) {offset offset' : Nat}
    (hboundary : IsBoundary source offset) (hboundary' : IsBoundary source offset')
    (hless : offset < offset') :
    (Position.locate source offset).Precedes (.locate source offset') := by
  obtain ⟨middle, hslice⟩ := hboundary.exists_slice hboundary' (Nat.le_of_lt hless)
  obtain ⟨front, back, rfl, rfl, rfl⟩ := Text.slice?_eq_some_iff.mp hslice
  refine Text.precedes_of_append hfit ?_
  rintro rfl
  rw [List.append_nil] at hless
  exact Nat.lt_irrefl _ hless

/-- **The place of an offset has its line and its column, and tells one boundary between characters
from another.** An offset behind the end is moved to the end. Of two boundaries the one that comes
first does so by line and column. Where a text is refused, or where one of its declarations is
complained about, the position is the place of such a boundary. -/
theorem located_and_placed (source : String) (hfit : CountsFit source.toList) :
    (∀ offset,
      (Position.locate source.toList offset).offset = min offset (byteLength source.toList) ∧
      (Position.locate source.toList offset).line.toNat = lineAt source.toList offset ∧
      (Position.locate source.toList offset).column.toNat = columnAt source.toList offset) ∧
    (∀ offset offset', IsBoundary source.toList offset → IsBoundary source.toList offset' →
      (offset < offset' →
        (Position.locate source.toList offset).Precedes (.locate source.toList offset')) ∧
      ((Position.locate source.toList offset).line = (Position.locate source.toList offset').line →
        (Position.locate source.toList offset).column =
          (Position.locate source.toList offset').column → offset = offset')) ∧
    ∀ record,
      (∀ e, parse source record = .error e → PlacedIn source.toList e.position) ∧
      ∀ sheet, parse source record = .ok sheet →
        ∀ diagnostic ∈ sheet.diagnostics, PlacedIn source.toList diagnostic.position := by
  refine ⟨?_, ?_, ?_⟩
  · intro offset
    exact ⟨rfl, hfit.toNat_locate offset⟩
  · intro offset offset' hboundary hboundary'
    refine ⟨precedes_of_lt hfit hboundary hboundary', ?_⟩
    intro hline hcolumn
    have hapart : ∀ {place later : Position}, place.line = later.line →
        place.column = later.column → ¬place.Precedes later := by
      rintro place later hline hcolumn (hless | ⟨-, hless⟩)
      · exact UInt32.lt_irrefl _ (hline ▸ hless)
      · exact UInt32.lt_irrefl _ (hcolumn ▸ hless)
    rcases Nat.lt_trichotomy offset offset' with hless | hsame | hless
    · exact absurd (precedes_of_lt hfit hboundary hboundary' hless) (hapart hline hcolumn)
    · exact hsame
    · exact absurd (precedes_of_lt hfit hboundary' hboundary hless)
        (hapart hline.symm hcolumn.symm)
  · intro record
    constructor
    · intro e hparse
      unfold parse at hparse
      split at hparse
      · next hwritten =>
        cases hparse
        exact placedIn_of_refused hwritten
      · cases hparse
    · intro sheet hparse diagnostic hdiagnostic
      obtain ⟨found, hwritten, rfl⟩ := exists_written_of_parse hparse
      cases record with
      | false => cases hdiagnostic
      | true => exact placedIn_of_mem_diagnose hwritten hdiagnostic

/-- A complaint on the second line, an offset within a character and one behind the end. -/
theorem located_and_placed_of_wide_character :
    ∃ (source : String) (sheet : Sheet), CountsFit source.toList ∧ parse source = .ok sheet ∧
      sheet.diagnostics.map Diagnostic.position = [⟨5, 2, 2⟩] ∧
      (∀ diagnostic ∈ sheet.diagnostics, PlacedIn source.toList diagnostic.position) ∧
      lineAt source.toList 1 = 1 ∧ columnAt source.toList 1 = 2 ∧
      lineAt source.toList 20 = 2 ∧ columnAt source.toList 20 = 6 ∧
      (Position.locate source.toList 3).Precedes (.locate source.toList 5) := by
  have hfit : CountsFit "é\x7b\n x:1\x7d".toList := Text.countsFit_of_length (by decide)
  have hwritten : written "é\x7b\n x:1\x7d".toList = .ok
      [⟨[.single ⟨some "é", none, none⟩],
        [⟨"x", [⟨.number (Number.Single.ofRatio false 1 1) "", ['1']⟩], 4⟩]⟩] := by
    decide +kernel
  have hparse := parse_of_written true hwritten
  obtain ⟨hcounts, hordered, hplaced⟩ := located_and_placed _ hfit
  have hwithin := hcounts 1
  have hbehind := hcounts 20
  have hless :=
    (hordered 3 5 ⟨['é', '\x7b'], _, rfl, rfl⟩ ⟨['é', '\x7b', '\n', ' '], _, rfl, rfl⟩).1
  refine ⟨_, _, hfit, hparse, by decide +kernel, (hplaced true).2 _ hparse, ?_, ?_, ?_, ?_,
    hless (by decide)⟩
  · exact hwithin.2.1.symm.trans (by decide +kernel)
  · exact hwithin.2.2.symm.trans (by decide +kernel)
  · exact hbehind.2.1.symm.trans (by decide +kernel)
  · exact hbehind.2.2.symm.trans (by decide +kernel)

end WidgetStyle.Sheet
