import WidgetStyle.Proofs.GrammarCompleteness
import WidgetStyle.Proofs.Seam

/-!
# Two stylesheets in one text

A text that is a stylesheet ends in a closing brace or in blanks, so it can be put in front of any
other text: its rules are read first, and then what the other text has (`written_append`). What is
known by the number of bytes behind it, the place of a declaration, moves by the length of the
second text, and is the same position as before. The rules of the second text keep everything but
their order.
-/

namespace WidgetStyle

/-- The rule with `n` more rules before it. -/
def Rule.behind (n : Nat) (rule : Rule) : Rule :=
  { rule with order := rule.order + n }

theorem Chain.links_injective : Function.Injective Chain.links := by
  intro chain other hlinks
  induction chain generalizing other with
  | single selector =>
    cases other with
    | single selector' =>
      cases hlinks
      rfl
    | extend left combinator selector' =>
      have hlength := congrArg List.length hlinks
      cases left <;> simp [links] at hlength
  | extend left combinator selector ih =>
    cases other with
    | single selector' =>
      have hlength := congrArg List.length hlinks
      cases left <;> simp [links] at hlength
    | extend left' combinator' selector' =>
      obtain ⟨hleft, hlink⟩ := List.append_inj' hlinks rfl
      obtain rfl := ih hleft
      cases hlink
      rfl

namespace Text.Position

theorem pass_append {left : Nat} {front : List Char} (back : List Char)
    (hleft : left ≤ byteLength front) (line column : UInt32) :
    pass left (front ++ back) line column = pass left front line column := by
  induction front generalizing left line column with
  | nil =>
    obtain rfl : left = 0 := Nat.le_zero.mp hleft
    rw [pass, pass]
  | cons c front ih =>
    cases left with
    | zero => rw [pass, pass]
    | succ left =>
      have hleft' : left + 1 - c.utf8Size ≤ byteLength front := by
        rw [byteLength] at hleft
        omega
      rw [List.cons_append, pass, pass, ih hleft', ih hleft']

/-- A place is the same with more text behind it. -/
theorem locate_append {offset : Nat} {front : List Char} (back : List Char)
    (hoffset : offset ≤ byteLength front) :
    locate (front ++ back) offset = locate front offset := by
  have hwhole : offset ≤ byteLength (front ++ back) := by
    rw [byteLength_append]
    omega
  simp only [locate, Nat.min_eq_left hoffset, Nat.min_eq_left hwhole, pass_append back hoffset]

end Text.Position

namespace Sheet

open Grammar

theorem WrittenRule.parts_injective : Function.Injective WrittenRule.parts := by
  rintro ⟨selectors, block⟩ ⟨selectors', block'⟩ hparts
  obtain ⟨hselectors, rfl⟩ := Grammar.Rule.mk.inj hparts
  obtain rfl := List.map_injective_iff.mpr Chain.links_injective hselectors
  rfl

/-! ### More text behind -/

/-- The declaration with more bytes behind it. -/
def WrittenDeclaration.moved (n : Nat) (written : WrittenDeclaration) : WrittenDeclaration :=
  { written with left := written.left + n }

/-- The rule with more bytes behind it. -/
def WrittenRule.moved (n : Nat) (written : WrittenRule) : WrittenRule :=
  { written with block := written.block.map (WrittenDeclaration.moved n) }

theorem blockOf_moved {behind : Nat} {used : List Token} {block : List WrittenDeclaration}
    (hused : BlockOf behind used block) (n : Nat) :
    BlockOf (behind + n) used (block.map (WrittenDeclaration.moved n)) := by
  induction hused with
  | nil => exact .nil
  | blank text hused ih => exact .blank text ih
  | semicolon text hused ih => exact .semicolon text ih
  | ended name text colon semicolon hgap hvalue hused ih =>
    rw [List.map_cons, WrittenDeclaration.moved, Nat.add_assoc]
    exact .ended name text colon semicolon hgap hvalue ih
  | last name text colon hgap hvalue =>
    rw [List.map_singleton, WrittenDeclaration.moved, Nat.add_assoc]
    exact .last name text colon hgap hvalue

theorem ruleOf_moved {behind : Nat} {used : List Token} {written : WrittenRule}
    (hused : RuleOf behind used written.parts) (n : Nat) :
    RuleOf (behind + n) used (written.moved n).parts := by
  cases hused with
  | mk opening closing hhead hgap hinside =>
    refine .mk opening closing hhead hgap ?_
    rw [← Nat.add_assoc]
    exact blockOf_moved hinside n

/-! ### Rows of tokens put together -/

theorem Closed.append_cons {stop : Token} {back : List Token} (front : List Token)
    (hstop : stop.kind = .blank ∨ endsValue stop = true) (hback : Closed back) :
    Closed (front ++ stop :: back) := by
  intro token hlast
  rw [List.getLast?_append_cons] at hlast
  cases back with
  | nil =>
    cases hlast
    exact hstop
  | cons next back =>
    rw [List.getLast?_cons_cons] at hlast
    exact hback token hlast

theorem closed_of_sheetOf {tokens : List Token} {rules : List Grammar.Rule}
    (hsheet : SheetOf tokens rules) : Closed tokens := by
  induction hsheet with
  | nil =>
    intro token hlast
    cases hlast
  | blank text hrest ih => exact ih.append_cons [] (.inl rfl)
  | @rule first tokens rule rules hfirst hrest ih =>
    obtain ⟨opening, closing, hhead, hgap, hinside⟩ := hfirst
    rw [List.append_assoc]
    exact ih.append_cons _ (.inr rfl)

theorem byteLengthOf_join (front back : List Token) :
    byteLengthOf (join front back) = byteLengthOf front + byteLengthOf back := by
  fun_induction join front back with
  | case1 back => exact (Nat.zero_add _).symm
  | case2 text text' back =>
    simp only [byteLengthOf, Text.byteLength_append]
    omega
  | case3 token front back hseam ih => rw [byteLengthOf, byteLengthOf, ih, Nat.add_assoc]

/-- Only blanks at the seam are changed. -/
theorem join_append_cons {token : Token} (hkind : token.kind ≠ .blank)
    (front tokens back : List Token) :
    join (front ++ token :: tokens) back = front ++ token :: join tokens back := by
  induction front with
  | nil =>
    cases tokens with
    | nil => exact join_singleton fun hblank => absurd hblank hkind
    | cons next tokens => exact join_cons _ _ (List.cons_ne_nil _ _)
  | cons first front ih => rw [List.cons_append, join_cons _ _ (by simp), ih, List.cons_append]

theorem join_append_right {token : Token} (hkind : token.kind ≠ .blank)
    (front back tokens : List Token) :
    join front (back ++ token :: tokens) = join front back ++ token :: tokens := by
  fun_induction join front back with
  | case1 back => rfl
  | case2 text text' back => rw [List.cons_append, join, List.cons_append]
  | case3 first front back hseam ih =>
    rw [List.cons_append, ← ih, join]
    intro text text' more hmore
    cases back with
    | nil =>
      obtain ⟨rfl, -⟩ := List.cons.inj hmore
      exact absurd rfl hkind
    | cons next back =>
      obtain ⟨rfl, -⟩ := List.cons.inj hmore
      exact hseam text text' back rfl

/-- A blank in front of a row is a token of its own, or part of the blank that is there. -/
theorem exists_join_blank (text : List Char) (back : List Token) :
    ∃ text' rest, join [⟨.blank, text⟩] back = ⟨.blank, text'⟩ :: rest ∧
      (back = rest ∨ ∃ text'', back = ⟨.blank, text''⟩ :: rest) := by
  by_cases hblank : ∃ text'' rest, back = ⟨.blank, text''⟩ :: rest
  · obtain ⟨text'', rest, rfl⟩ := hblank
    exact ⟨text ++ text'', rest, by rw [join], .inr ⟨text'', rfl⟩⟩
  · refine ⟨text, back, join_singleton ?_, .inl rfl⟩
    rintro - ⟨kind, text''⟩ hnext rfl
    obtain ⟨rest, hback⟩ := List.head?_eq_some_iff.mp hnext
    exact hblank ⟨text'', rest, hback⟩

/-- Blanks behind the first sheet do not matter to the second one. -/
theorem readRules_join_blank (text : List Char) (back : List Token) :
    readRules (join [⟨.blank, text⟩] back) = readRules back := by
  obtain ⟨text', rest, hjoin, rfl | ⟨text'', rfl⟩⟩ := exists_join_blank text back
  · rw [hjoin, readRules_blank]
  · rw [hjoin, readRules_blank, readRules_blank]

theorem join_of_ruleOf {behind : Nat} {first : List Token} {rule : Grammar.Rule}
    (hfirst : RuleOf behind first rule) (tokens back : List Token) :
    join (first ++ tokens) back = first ++ join tokens back := by
  cases hfirst with
  | @mk head gap inside chains block opening closing hhead hgap hinside =>
    generalize head ++ gap ++ ⟨.openBrace, opening⟩ :: inside = front
    rw [List.append_assoc, List.append_assoc]
    exact join_append_cons (by simp) front tokens back

/-- The rules of a row of tokens that is a stylesheet are read first, and then the others. -/
theorem readRules_join {front : List Token} {found : List WrittenRule}
    (hsheet : SheetOf front (found.map WrittenRule.parts)) (back : List Token) :
    readRules (join front back) =
      (readRules back).map (found.map (WrittenRule.moved (byteLengthOf back)) ++ ·) := by
  generalize hparts : found.map WrittenRule.parts = rules at hsheet
  induction hsheet generalizing found with
  | nil =>
    rw [List.map_eq_nil_iff] at hparts
    rw [hparts, join]
    cases readRules back <;> rfl
  | @blank tokens rules text hrest ih =>
    rw [← ih hparts]
    cases tokens with
    | nil => rw [readRules_join_blank, join]
    | cons next tokens => rw [join_cons _ _ (List.cons_ne_nil _ _), readRules_blank]
  | @rule first tokens rule rules hfirst hrest ih =>
    obtain ⟨written, found, rfl, rfl, hfound⟩ := List.map_eq_cons_iff.mp hparts
    have hmoved := ruleOf_moved hfirst (byteLengthOf back)
    rw [← byteLengthOf_join] at hmoved
    obtain ⟨written', hwritten, hrules⟩ := readRules_of_ruleOf hmoved
    obtain rfl := WrittenRule.parts_injective hwritten
    rw [join_of_ruleOf hfirst, hrules, ih hfound]
    cases readRules back <;> rfl

/-! ### Texts put together -/

theorem byteLengthOf_eq (list : List Token) :
    byteLengthOf list = Text.byteLength (list.flatMap Token.text) := by
  induction list with
  | nil => rfl
  | cons token list ih => rw [byteLengthOf, List.flatMap_cons, Text.byteLength_append, ih]

theorem byteLengthOf_tokens {cs : List Char} {list : List Token} (hcut : tokens cs = .ok list) :
    byteLengthOf list = Text.byteLength cs := by
  rw [byteLengthOf_eq, tokens_eq hcut]

/-- A text that is a stylesheet in front of another one: its rules are read first, and then what
the other text has, be it rules or a fault. -/
theorem written_append {front : List Char} {found : List WrittenRule}
    (hfront : written front = .ok found) (back : List Char) :
    written (front ++ back) =
      (written back).map (found.map (WrittenRule.moved (Text.byteLength back)) ++ ·) := by
  unfold written at hfront ⊢
  split at hfront
  · cases hfront
  · next list hcut =>
    have hsheet := sheetOf_readRules (spaced_tokens hcut) hfront
    rw [tokens_append hcut (closed_of_sheetOf hsheet)]
    cases hback : tokens back with
    | error refusal => rfl
    | ok list' =>
      change readRules (join list list') = _
      rw [readRules_join hsheet, byteLengthOf_tokens hback]

/-! ### Diagnostics and rules -/

theorem positionOf_append (front back : List Char) (left : Nat) :
    positionOf (front ++ back) (left + Text.byteLength back) = positionOf front left := by
  have hoffset : Text.byteLength (front ++ back) - (left + Text.byteLength back) =
      Text.byteLength front - left := by
    rw [Text.byteLength_append]
    omega
  rw [positionOf, positionOf, hoffset]
  exact Text.Position.locate_append back (Nat.sub_le _ _)

theorem diagnostic?_moved (front back : List Char) (declaration : WrittenDeclaration) :
    (declaration.moved (Text.byteLength back)).diagnostic? (front ++ back) =
      declaration.diagnostic? front := by
  unfold WrittenDeclaration.diagnostic? WrittenDeclaration.moved
  rw [positionOf_append]
  rfl

theorem diagnose_append (front back : List Char) (found more : List WrittenRule) :
    diagnose (front ++ back) (found.map (WrittenRule.moved (Text.byteLength back)) ++ more) =
      diagnose front found ++ diagnose (front ++ back) more := by
  have hblocks : (found.map (WrittenRule.moved (Text.byteLength back))).flatMap WrittenRule.block =
      (found.flatMap WrittenRule.block).map (WrittenDeclaration.moved (Text.byteLength back)) := by
    rw [List.flatMap_map, List.map_flatMap]
    rfl
  rw [diagnose, List.flatMap_append, List.filterMap_append, hblocks, List.filterMap_map]
  simp only [Function.comp_def, diagnostic?_moved]
  rfl

/-- What the catalog complains about. -/
def complaint? : Except Complaint Declaration → Option Complaint
  | .ok _ => none
  | .error complaint => some complaint

theorem map_complaint_filterMap (source : List Char) (block : List WrittenDeclaration) :
    (block.filterMap fun declaration => declaration.diagnostic? source).map Diagnostic.complaint =
      (block.map WrittenDeclaration.judge).filterMap complaint? := by
  rw [List.map_filterMap, List.filterMap_map]
  congr 1
  funext declaration
  unfold WrittenDeclaration.diagnostic? complaint?
  cases hjudge : declaration.judge <;> simp [hjudge]

/-- What is complained about does not depend on where it stands. -/
theorem complaints_diagnose (source source' : List Char) (rules : List WrittenRule) :
    (diagnose source rules).map Diagnostic.complaint =
      (diagnose source' rules).map Diagnostic.complaint := by
  rw [diagnose, diagnose, map_complaint_filterMap, map_complaint_filterMap]

theorem WrittenRule.rule_moved (n number : Nat) (written : WrittenRule) :
    (written.moved n).rule number = written.rule number := by
  have hdeclarations : (written.moved n).declarations = written.declarations := by
    rw [declarations, declarations, moved, List.filterMap_map]
    rfl
  rw [rule, rule, hdeclarations]
  rfl

theorem rulesFrom_moved (number n : Nat) (found : List WrittenRule) :
    rulesFrom number (found.map (WrittenRule.moved n)) = rulesFrom number found := by
  induction found generalizing number with
  | nil => rfl
  | cons written found ih => rw [List.map_cons, rulesFrom, rulesFrom, ih, WrittenRule.rule_moved]

theorem rulesFrom_add (number n : Nat) (found : List WrittenRule) :
    rulesFrom (number + n) found = (rulesFrom number found).map (Rule.behind n) := by
  induction found generalizing number with
  | nil => rfl
  | cons written found ih =>
    rw [rulesFrom, rulesFrom, List.map_cons, ← ih, Nat.add_right_comm]
    rfl

theorem rulesFrom_moved_append (found more : List WrittenRule) (n : Nat) :
    rulesFrom 0 (found.map (WrittenRule.moved n) ++ more) =
      rulesFrom 0 found ++ (rulesFrom 0 more).map (Rule.behind (rulesFrom 0 found).length) := by
  rw [rulesFrom_append, rulesFrom_moved, List.length_map, rulesFrom_add, length_rulesFrom]

end Sheet

end WidgetStyle
