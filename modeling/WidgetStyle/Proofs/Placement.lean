import WidgetStyle.Proofs.Concatenation

/-!
# Where a declaration stands

A derivation of a stylesheet can be taken apart at each of its declarations: in front of it stand
whole rules, the head of its own rule and other declarations of the block, and behind it the rest
of the block and more rules (`sheetOf_split`, `blockOf_split`). The parts are derivations of their
own, with the places of what stands in front counted anew.

So the declaration can also be left out: what stands in front of it and behind it, joined as two
rows are, is a stylesheet with the same verdicts on all other declarations (`sheetOf_without`).
-/

namespace WidgetStyle.Sheet

open Grammar

/-! ### Texts of tokens -/

/-- No token is empty, and words are written as their names. -/
structure Token.Proper (token : Token) : Prop where
  text_ne_nil : token.text ≠ []
  text_of_word : ∀ name, token.kind = .word name → token.text = name.toList

theorem proper_of_mem_tokens {cs : List Char} {list : List Token} (hcut : tokens cs = .ok list) :
    ∀ token ∈ list, token.Proper := by
  refine forall_mem_tokens ?_ hcut
  intro c cs token rest hread
  exact ⟨(read_eq (read_eq_ok_iff.mpr hread)).2, fun name hkind => hread.text_of_word hkind⟩

/-! ### Blocks -/

/-- The tokens of a declaration: its name, a colon and its value, and the semicolon behind it if
there is one. Else `back`, which stands behind it, has to be empty. -/
inductive RowOf (written : WrittenDeclaration) (back : List Token) : List Token → Prop
  | ended {gap : List Token} (text colon semicolon : List Char) (hgap : Gap gap)
      (hvalue : ValueOf written.value) :
      RowOf written back (⟨.word written.name, text⟩ :: gap ++ ⟨.colon, colon⟩ :: written.value ++
        [⟨.semicolon, semicolon⟩])
  | last {gap : List Token} (text colon : List Char) (hgap : Gap gap)
      (hvalue : ValueOf written.value) (hback : back = []) :
      RowOf written back (⟨.word written.name, text⟩ :: gap ++ ⟨.colon, colon⟩ :: written.value)

/-- The front of a block, behind which the block can go on anyhow: each declaration in it has its
semicolon. Nothing is said about the places of the declarations. -/
inductive OpenBlockOf : List Token → List WrittenDeclaration → Prop
  | nil : OpenBlockOf [] []
  | blank {tokens : List Token} {block : List WrittenDeclaration} (text : List Char)
      (hrest : OpenBlockOf tokens block) : OpenBlockOf (⟨.blank, text⟩ :: tokens) block
  | semicolon {tokens : List Token} {block : List WrittenDeclaration} (text : List Char)
      (hrest : OpenBlockOf tokens block) : OpenBlockOf (⟨.semicolon, text⟩ :: tokens) block
  | ended {gap value tokens : List Token} {block : List WrittenDeclaration} (name : String)
      (text colon semicolon : List Char) (left : Nat) (hgap : Gap gap) (hvalue : ValueOf value)
      (hrest : OpenBlockOf tokens block) :
      OpenBlockOf
        (⟨.word name, text⟩ :: gap ++ ⟨.colon, colon⟩ :: value ++ ⟨.semicolon, semicolon⟩ :: tokens)
        (⟨name, value, left⟩ :: block)

/-- A block comes apart at each of its declarations. -/
theorem blockOf_split {behind : Nat} {tokens : List Token}
    {before after : List WrittenDeclaration} {written : WrittenDeclaration}
    (hblock : BlockOf behind tokens (before ++ written :: after)) :
    ∃ front row back, tokens = front ++ (row ++ back) ∧ OpenBlockOf front before ∧
      RowOf written back row ∧ written.left = byteLengthOf (row ++ back) + behind ∧
      BlockOf behind back after := by
  generalize hall : before ++ written :: after = block at hblock
  induction hblock generalizing before with
  | nil => simp at hall
  | blank text hrest ih =>
    obtain ⟨front, row, back, rfl, hfront, hrow, hleft, hback⟩ := ih hall
    exact ⟨⟨.blank, text⟩ :: front, row, back, rfl, .blank text hfront, hrow, hleft, hback⟩
  | semicolon text hrest ih =>
    obtain ⟨front, row, back, rfl, hfront, hrow, hleft, hback⟩ := ih hall
    exact ⟨⟨.semicolon, text⟩ :: front, row, back, rfl, .semicolon text hfront, hrow, hleft, hback⟩
  | @ended gap value tokens block name text colon semicolon hgap hvalue hrest ih =>
    cases before with
    | nil =>
      obtain ⟨rfl, rfl⟩ := List.cons.inj hall
      have htokens : ⟨.word name, text⟩ :: gap ++ ⟨.colon, colon⟩ :: value ++
          ⟨.semicolon, semicolon⟩ :: tokens = (⟨.word name, text⟩ :: gap ++ ⟨.colon, colon⟩ ::
            value ++ [⟨.semicolon, semicolon⟩]) ++ tokens := by
        simp only [List.append_assoc, List.cons_append, List.nil_append]
      exact ⟨[], _, tokens, htokens, .nil, .ended text colon semicolon hgap hvalue,
        by rw [htokens], hrest⟩
    | cons first before =>
      obtain ⟨rfl, htail⟩ := List.cons.inj hall
      obtain ⟨front, row, back, rfl, hfront, hrow, hleft, hback⟩ := ih htail
      have htokens : ⟨.word name, text⟩ :: gap ++ ⟨.colon, colon⟩ :: value ++
          ⟨.semicolon, semicolon⟩ :: (front ++ (row ++ back)) = (⟨.word name, text⟩ :: gap ++
            ⟨.colon, colon⟩ :: value ++ ⟨.semicolon, semicolon⟩ :: front) ++ (row ++ back) := by
        simp only [List.append_assoc, List.cons_append]
      exact ⟨_, row, back, htokens, .ended name text colon semicolon _ hgap hvalue hfront, hrow,
        hleft, hback⟩
  | @last gap value name text colon hgap hvalue =>
    cases before with
    | nil =>
      obtain ⟨rfl, rfl⟩ := List.cons.inj hall
      refine ⟨[], _, [], (List.append_nil _).symm, .nil, .last text colon hgap hvalue rfl, ?_, .nil⟩
      rw [List.append_nil]
    | cons first before => simp at hall

/-- What is derived with more bytes behind it can be derived with fewer. -/
theorem exists_blockOf_of_add {behind n : Nat} {used : List Token} {block : List WrittenDeclaration}
    (hused : BlockOf (behind + n) used block) :
    ∃ unmoved, BlockOf behind used unmoved ∧ block = unmoved.map (WrittenDeclaration.moved n) := by
  induction hused with
  | nil => exact ⟨[], .nil, rfl⟩
  | blank text hrest ih =>
    obtain ⟨unmoved, hunmoved, rfl⟩ := ih
    exact ⟨unmoved, .blank text hunmoved, rfl⟩
  | semicolon text hrest ih =>
    obtain ⟨unmoved, hunmoved, rfl⟩ := ih
    exact ⟨unmoved, .semicolon text hunmoved, rfl⟩
  | ended name text colon semicolon hgap hvalue hrest ih =>
    obtain ⟨unmoved, hunmoved, rfl⟩ := ih
    refine ⟨_, .ended name text colon semicolon hgap hvalue hunmoved, ?_⟩
    rw [List.map_cons, WrittenDeclaration.moved, Nat.add_assoc]
  | last name text colon hgap hvalue =>
    refine ⟨_, .last name text colon hgap hvalue, ?_⟩
    rw [List.map_singleton, WrittenDeclaration.moved, Nat.add_assoc]

/-! ### Rules -/

/-- The rule with more bytes behind it. -/
def Grammar.Rule.moved (n : Nat) (rule : Grammar.Rule) : Grammar.Rule :=
  { rule with block := rule.block.map (WrittenDeclaration.moved n) }

theorem exists_ruleOf_of_add {behind n : Nat} {used : List Token} {rule : Grammar.Rule}
    (hused : RuleOf (behind + n) used rule) :
    ∃ unmoved, RuleOf behind used unmoved ∧ rule = unmoved.moved n := by
  obtain ⟨opening, closing, hhead, hgap, hinside⟩ := hused
  rw [← Nat.add_assoc] at hinside
  obtain ⟨unmoved, hunmoved, rfl⟩ := exists_blockOf_of_add hinside
  exact ⟨⟨_, unmoved⟩, .mk opening closing hhead hgap hunmoved, rfl⟩

/-- A stylesheet comes apart at each of its rules. -/
theorem sheetOf_split {tokens : List Token} {before after : List Grammar.Rule}
    {rule : Grammar.Rule} (hsheet : SheetOf tokens (before ++ rule :: after)) :
    ∃ front first back unmoved, tokens = front ++ (first ++ back) ∧ SheetOf front unmoved ∧
      before = unmoved.map (Grammar.Rule.moved (byteLengthOf (first ++ back))) ∧
      RuleOf (byteLengthOf back) first rule ∧ SheetOf back after := by
  generalize hall : before ++ rule :: after = rules at hsheet
  induction hsheet generalizing before with
  | nil => simp at hall
  | blank text hrest ih =>
    obtain ⟨front, first, back, unmoved, rfl, hfront, hbefore, hfirst, hback⟩ := ih hall
    exact ⟨⟨.blank, text⟩ :: front, first, back, unmoved, rfl, .blank text hfront, hbefore, hfirst,
      hback⟩
  | @rule used tokens given rules hused hrest ih =>
    cases before with
    | nil =>
      obtain ⟨rfl, rfl⟩ := List.cons.inj hall
      exact ⟨[], used, tokens, [], rfl, .nil, rfl, hused, hrest⟩
    | cons next before =>
      obtain ⟨rfl, htail⟩ := List.cons.inj hall
      obtain ⟨front, first, back, unmoved, rfl, hfront, rfl, hfirst, hback⟩ := ih htail
      rw [byteLengthOf_append] at hused
      obtain ⟨given, hgiven, rfl⟩ := exists_ruleOf_of_add hused
      exact ⟨used ++ front, first, back, given :: unmoved, (List.append_assoc _ _ _).symm,
        .rule hgiven hfront, rfl, hfirst, hback⟩

/-- One stylesheet behind the other. -/
theorem sheetOf_append {front back : List Token} {before after : List Grammar.Rule}
    (hfront : SheetOf front before) (hback : SheetOf back after) :
    SheetOf (front ++ back) (before.map (Grammar.Rule.moved (byteLengthOf back)) ++ after) := by
  induction hfront with
  | nil => exact hback
  | blank text hrest ih => exact .blank text ih
  | @rule first tokens rule rules hfirst hrest ih =>
    rw [List.append_assoc]
    refine .rule ?_ ih
    rw [byteLengthOf_append]
    obtain ⟨opening, closing, hhead, hgap, hinside⟩ := hfirst
    refine .mk opening closing hhead hgap ?_
    rw [← Nat.add_assoc]
    exact blockOf_moved hinside _

/-- Each declaration of a stylesheet is one of a block of a rule. -/
theorem exists_rule_of_flatMap_eq {rules : List Grammar.Rule}
    {before after : List WrittenDeclaration} {written : WrittenDeclaration}
    (hall : rules.flatMap Grammar.Rule.block = before ++ written :: after) :
    ∃ rulesBefore chains blockBefore blockAfter rulesAfter,
      rules = rulesBefore ++ ⟨chains, blockBefore ++ written :: blockAfter⟩ :: rulesAfter ∧
      before = rulesBefore.flatMap Grammar.Rule.block ++ blockBefore ∧
      after = blockAfter ++ rulesAfter.flatMap Grammar.Rule.block := by
  induction rules generalizing before with
  | nil => simp at hall
  | cons rule rules ih =>
    rw [List.flatMap_cons] at hall
    rcases List.append_eq_append_iff.mp hall with ⟨more, hbefore, hrest⟩ | ⟨more, hblock, hrest⟩
    · -- the declaration stands in a later rule
      obtain ⟨rulesBefore, chains, blockBefore, blockAfter, rulesAfter, rfl, rfl, hafter⟩ := ih hrest
      refine ⟨rule :: rulesBefore, chains, blockBefore, blockAfter, rulesAfter, rfl, ?_, hafter⟩
      rw [hbefore, List.flatMap_cons, List.append_assoc]
    · cases more with
      | nil =>
        rw [List.append_nil] at hblock
        obtain ⟨rulesBefore, chains, blockBefore, blockAfter, rulesAfter, rfl, hnil, hafter⟩ :=
          ih (show _ = [] ++ written :: after from hrest.symm)
        refine ⟨rule :: rulesBefore, chains, blockBefore, blockAfter, rulesAfter, rfl, ?_, hafter⟩
        rw [← hblock, List.flatMap_cons, List.append_assoc, ← hnil, List.append_nil]
      | cons next more =>
        obtain ⟨rfl, rfl⟩ := List.cons.inj hrest
        refine ⟨[], rule.chains, before, more, rules, ?_, rfl, rfl⟩
        rw [← hblock]
        rfl

/-! ### A stylesheet without a declaration -/

theorem closed_of_openBlockOf {front : List Token} {before : List WrittenDeclaration}
    (hfront : OpenBlockOf front before) : Closed front := by
  induction hfront with
  | nil => simp [Closed]
  | blank text hrest ih => exact ih.append_cons [] (.inl rfl)
  | semicolon text hrest ih => exact ih.append_cons [] (.inr rfl)
  | ended name text colon semicolon left hgap hvalue hrest ih => exact ih.append_cons _ (.inr rfl)

theorem blockOf_join_blank {behind : Nat} {back : List Token} {block : List WrittenDeclaration}
    (text : List Char) (hback : BlockOf behind back block) :
    BlockOf behind (join [⟨.blank, text⟩] back) block := by
  obtain ⟨text', rest, hjoin, rfl | ⟨text'', rfl⟩⟩ := exists_join_blank text back
  · rw [hjoin]
    exact .blank text' hback
  · rw [hjoin]
    cases hback with
    | blank text'' hrest => exact .blank text' hrest

/-- A block can go on behind an open front. Blanks on both sides of the seam become one. -/
theorem OpenBlockOf.exists_blockOf_join {behind : Nat} {front back : List Token}
    {before after : List WrittenDeclaration} (hfront : OpenBlockOf front before)
    (hback : BlockOf behind back after) :
    ∃ block, BlockOf behind (join front back) block ∧
      block.map WrittenDeclaration.judge = (before ++ after).map WrittenDeclaration.judge := by
  induction hfront with
  | nil => exact ⟨after, hback, rfl⟩
  | @blank tokens before text hrest ih =>
    obtain ⟨block, hblock, hjudged⟩ := ih
    refine ⟨block, ?_, hjudged⟩
    cases tokens with
    | nil => exact blockOf_join_blank text hblock
    | cons next tokens =>
      rw [join_cons _ _ (List.cons_ne_nil _ _)]
      exact .blank text hblock
  | @semicolon tokens before text hrest ih =>
    obtain ⟨block, hblock, hjudged⟩ := ih
    have hkind : (⟨.semicolon, text⟩ : Token).kind ≠ .blank := by simp
    have hjoin := join_append_cons hkind [] tokens back
    rw [List.nil_append] at hjoin
    rw [hjoin]
    exact ⟨block, .semicolon text hblock, hjudged⟩
  | @ended gap value tokens before name text colon semicolon left hgap hvalue hrest ih =>
    obtain ⟨block, hblock, hjudged⟩ := ih
    rw [join_append_cons (by simp)]
    refine ⟨_, .ended name text colon semicolon hgap hvalue hblock, ?_⟩
    rw [List.map_cons, hjudged]
    rfl

/-- What the catalog makes of a rule: its chains, and the verdicts on its declarations. -/
def Grammar.Rule.verdict (rule : Grammar.Rule) :
    List (List Link) × List (Except Complaint Declaration) :=
  (rule.chains, rule.block.map WrittenDeclaration.judge)

theorem Grammar.Rule.verdict_moved (n : Nat) (rule : Grammar.Rule) :
    (rule.moved n).verdict = rule.verdict := by
  rw [verdict, verdict, moved, List.map_map]
  rfl

/-- A declaration can be taken out of a stylesheet. The tokens in front of it end as `Closed` says,
and with those behind it they are a stylesheet with the same rules but for the declaration. -/
theorem sheetOf_without {list : List Token} {rulesBefore rulesAfter : List Grammar.Rule}
    {chains : List (List Link)} {blockBefore blockAfter : List WrittenDeclaration}
    {written : WrittenDeclaration}
    (hsheet : SheetOf list
      (rulesBefore ++ ⟨chains, blockBefore ++ written :: blockAfter⟩ :: rulesAfter)) :
    ∃ front row back closing rest,
      list = front ++ (row ++ (back ++ ⟨.closeBrace, closing⟩ :: rest)) ∧ Closed front ∧
      RowOf written back row ∧
      written.left = byteLengthOf (row ++ (back ++ ⟨.closeBrace, closing⟩ :: rest)) ∧
      ∃ rules, SheetOf (join front (back ++ ⟨.closeBrace, closing⟩ :: rest)) rules ∧
        rules.map Grammar.Rule.verdict = (rulesBefore ++
          ⟨chains, blockBefore ++ blockAfter⟩ :: rulesAfter).map Grammar.Rule.verdict := by
  obtain ⟨front, first, rest, unmoved, rfl, hfront, rfl, hfirst, hrest⟩ := sheetOf_split hsheet
  obtain @⟨head, gap, inside, _, _, opening, closing, hhead, hgap, hinside⟩ := hfirst
  obtain ⟨blockFront, row, back, rfl, hopen, hrow, hleft, hback⟩ := blockOf_split hinside
  obtain ⟨block, hblock, hjudged⟩ := hopen.exists_blockOf_join hback
  have hclosed : Closed (front ++ (head ++ gap) ++ ⟨.openBrace, opening⟩ :: blockFront) :=
    (closed_of_openBlockOf hopen).append_cons _ (.inr rfl)
  have hjoin : front ++ (head ++ gap ++ ⟨.openBrace, opening⟩ :: join blockFront back ++
      [⟨.closeBrace, closing⟩] ++ rest) =
      join (front ++ (head ++ gap) ++ ⟨.openBrace, opening⟩ :: blockFront)
        (back ++ ⟨.closeBrace, closing⟩ :: rest) := by
    rw [join_append_cons (by simp), join_append_right (by simp)]
    simp only [List.append_assoc, List.cons_append, List.nil_append]
  have hwhole := sheetOf_append hfront (.rule (.mk opening closing hhead hgap hblock) hrest)
  rw [hjoin] at hwhole
  refine ⟨_, row, back, closing, rest, ?_, hclosed, hrow, ?_, _, hwhole, ?_⟩
  · simp only [List.append_assoc, List.cons_append, List.nil_append]
  · rw [hleft, ← byteLengthOf_closed, List.append_assoc]
  · have hrule : Grammar.Rule.verdict ⟨chains, block⟩ =
        Grammar.Rule.verdict ⟨chains, blockBefore ++ blockAfter⟩ := by
      rw [Grammar.Rule.verdict, hjudged]
      rfl
    simp only [List.map_append, List.map_cons, List.map_map, Function.comp_def,
      Grammar.Rule.verdict_moved, hrule]

end WidgetStyle.Sheet
