import WidgetStyle.Proofs.Domain
import WidgetStyle.Proofs.Placement

/-!
# What the declarations of a stylesheet come to

A block is run through from left to right, and each declaration that is accepted replaces the one
before it of the same attribute. What is left in the end is, for every attribute, the last
declaration that declares a value for it (`Leaves`): one that declares nothing
takes no part. A declaration that declares nothing is complained about instead, once, at its name.
-/

namespace WidgetStyle.Sheet

open Grammar
open Text (Position)

/-! ### The last declaration of an attribute -/

/-- At this place of a block stands the last declaration for its attribute: it declares a value,
and no later one declares a value for the attribute. -/
def LastAt (block : List WrittenDeclaration) (place : Nat) (declared : Declaration) : Prop :=
  (∃ written, block[place]? = some written ∧ written.Declares declared) ∧
    ∀ later written other, place < later → block[later]? = some written →
      written.Declares other → other.target ≠ declared.target

/-- The declarations are the last ones of their attributes in the block, each of them once and in
the order of the block. -/
def Leaves (block : List WrittenDeclaration) (declarations : List Declaration) : Prop :=
  ∃ entries : List (Nat × Declaration), declarations = entries.map Prod.snd ∧
    (entries.map Prod.fst).Pairwise (· < ·) ∧
    ∀ place declared, (place, declared) ∈ entries ↔ LastAt block place declared

theorem WrittenDeclaration.Declares.unique {written : WrittenDeclaration}
    {declared other : Declaration} (hdeclares : written.Declares declared)
    (hother : written.Declares other) : declared = other := by
  rw [← judge_eq_ok_iff] at hdeclares hother
  exact Except.ok.inj (hdeclares.symm.trans hother)

theorem LastAt.place_lt {block : List WrittenDeclaration} {place : Nat} {declared : Declaration}
    (hlast : LastAt block place declared) : place < block.length := by
  obtain ⟨⟨written, hplace, -⟩, -⟩ := hlast
  exact (List.getElem?_eq_some_iff.mp hplace).1

/-- With one more declaration at the end of a block, what was last stays last unless the new one
declares a value for the same attribute. -/
theorem lastAt_append_singleton {block : List WrittenDeclaration} {written : WrittenDeclaration}
    {place : Nat} {declared : Declaration} :
    LastAt (block ++ [written]) place declared ↔
      (LastAt block place declared ∧
        ∀ other, written.Declares other → other.target ≠ declared.target) ∨
      (place = block.length ∧ written.Declares declared) := by
  constructor
  · rintro ⟨⟨given, hplace, hdeclares⟩, hlater⟩
    by_cases hinside : place < block.length
    · left
      rw [List.getElem?_append_left hinside] at hplace
      refine ⟨⟨⟨given, hplace, hdeclares⟩, ?_⟩, ?_⟩
      · intro later next other hbehind hnext hother
        have hbound := (List.getElem?_eq_some_iff.mp hnext).1
        exact hlater later next other hbehind (by rwa [List.getElem?_append_left hbound]) hother
      · intro other hother
        exact hlater block.length written other hinside (by simp) hother
    · right
      have hbound := (List.getElem?_eq_some_iff.mp hplace).1
      obtain rfl : place = block.length := by
        rw [List.length_append, List.length_singleton] at hbound
        omega
      obtain rfl : written = given := by simpa using hplace
      exact ⟨rfl, hdeclares⟩
  · rintro (⟨⟨⟨given, hplace, hdeclares⟩, hlater⟩, hnew⟩ | ⟨rfl, hdeclares⟩)
    · have hinside := (List.getElem?_eq_some_iff.mp hplace).1
      refine ⟨⟨given, by rwa [List.getElem?_append_left hinside], hdeclares⟩, ?_⟩
      intro later next other hbehind hnext hother
      by_cases hbound : later < block.length
      · rw [List.getElem?_append_left hbound] at hnext
        exact hlater later next other hbehind hnext hother
      · have hend := (List.getElem?_eq_some_iff.mp hnext).1
        obtain rfl : later = block.length := by
          rw [List.length_append, List.length_singleton] at hend
          omega
        obtain rfl : written = next := by simpa using hnext
        exact hnew other hother
    · refine ⟨⟨written, by simp, hdeclares⟩, ?_⟩
      intro later next other hbehind hnext hother
      have hend := (List.getElem?_eq_some_iff.mp hnext).1
      rw [List.length_append, List.length_singleton] at hend
      omega

theorem toOption_judge_eq_some_iff {written : WrittenDeclaration} {declared : Declaration} :
    written.judge.toOption = some declared ↔ written.Declares declared := by
  rw [← WrittenDeclaration.judge_eq_ok_iff]
  cases written.judge <;> simp [Except.toOption]

theorem WrittenRule.declarations_append_singleton (selectors : List Chain)
    (block : List WrittenDeclaration) (written : WrittenDeclaration) :
    WrittenRule.declarations ⟨selectors, block ++ [written]⟩ =
      match written.judge.toOption with
      | none => WrittenRule.declarations ⟨selectors, block⟩
      | some declared => declare (WrittenRule.declarations ⟨selectors, block⟩) declared := by
  rw [declarations, List.filterMap_append, List.foldl_append]
  cases hjudge : written.judge.toOption with
  | none => simp [hjudge, declarations]
  | some declared => simp [hjudge, declarations]

/-- What a block comes to are the last declarations of its attributes. -/
theorem WrittenRule.leaves_declarations (written : WrittenRule) :
    Leaves written.block written.declarations := by
  obtain ⟨selectors, block⟩ := written
  change Leaves block _
  induction block using List.reverseRecOn with
  | nil => exact ⟨[], rfl, List.Pairwise.nil, by simp [LastAt]⟩
  | append_singleton block written ih =>
    obtain ⟨entries, hentries, hascending, hlast⟩ := ih
    rw [declarations_append_singleton]
    cases hjudge : written.judge.toOption with
    | none =>
      -- the new declaration declares nothing, so nothing changes
      have hnone : ∀ other, ¬ written.Declares other := by
        intro other hother
        rw [← toOption_judge_eq_some_iff, hjudge] at hother
        cases hother
      refine ⟨entries, hentries, hascending, ?_⟩
      intro place declared
      rw [hlast, lastAt_append_singleton]
      simp [hnone]
    | some next =>
      have hnext : written.Declares next := toOption_judge_eq_some_iff.mp hjudge
      refine ⟨entries.filter (fun entry => entry.2.target != next.target) ++ [(block.length, next)],
        ?_, ?_, ?_⟩
      · change (declarations _).filter _ ++ [next] = _
        rw [hentries, List.filter_map, List.map_append]
        rfl
      · rw [List.map_append]
        refine List.pairwise_append.mpr ⟨?_, List.pairwise_singleton _ _, ?_⟩
        · exact hascending.sublist ((List.filter_sublist (l := entries)).map Prod.fst)
        · intro place hplace other hother
          obtain ⟨⟨_, declared⟩, hentry, rfl⟩ := List.mem_map.mp hplace
          obtain rfl := List.mem_singleton.mp hother
          exact ((hlast _ _).mp (List.mem_of_mem_filter hentry)).place_lt
      · intro place declared
        rw [lastAt_append_singleton, List.mem_append, List.mem_filter, List.mem_singleton, hlast]
        have hreplaced : (∀ other, written.Declares other → other.target ≠ declared.target) ↔
            (declared.target != next.target) = true := by
          rw [bne_iff_ne]
          constructor
          · intro hapart
            exact (hapart next hnext).symm
          · intro hapart other hother
            rw [hother.unique hnext]
            exact hapart.symm
        have hlast' : (place, declared) = (block.length, next) ↔
            place = block.length ∧ written.Declares declared := by
          rw [Prod.mk.injEq]
          constructor
          · rintro ⟨hplace, rfl⟩
            exact ⟨hplace, hnext⟩
          · rintro ⟨hplace, hdeclares⟩
            exact ⟨hplace, hdeclares.unique hnext⟩
        rw [hreplaced, hlast']

/-! ### Where declarations stand -/

/-- The declaration stands in a row of tokens behind `front`, with as many bytes from there to the
end as it says: its name, a colon behind at most one blank, and its value, which goes on up to a
semicolon or a closing brace. -/
def WrittenDeclaration.StandsIn (written : WrittenDeclaration) (front list : List Token) : Prop :=
  ∃ gap colon stop back,
    list = front ++ (⟨.word written.name, written.name.toList⟩ :: gap ++ ⟨.colon, colon⟩ ::
      written.value ++ stop :: back) ∧
    Gap gap ∧ ValueOf written.value ∧ (stop.kind = .semicolon ∨ stop.kind = .closeBrace) ∧
    byteLengthOf front + written.left = byteLengthOf list

theorem WrittenDeclaration.StandsIn.byteLengthOf_eq {written : WrittenDeclaration}
    {front list : List Token} (hstands : written.StandsIn front list) :
    byteLengthOf front + written.left = byteLengthOf list := by
  obtain ⟨gap, colon, stop, back, -, -, -, -, hbytes⟩ := hstands
  exact hbytes

/-- The tokens of a declaration and what stands behind them in its block, up to the brace. -/
theorem RowOf.standsIn {written : WrittenDeclaration} {row back : List Token}
    (hrow : RowOf written back row) (hproper : ∀ token ∈ row, token.Proper)
    (front rest : List Token) (closing : List Char)
    (hleft : written.left = byteLengthOf (row ++ (back ++ ⟨.closeBrace, closing⟩ :: rest))) :
    written.StandsIn front (front ++ (row ++ (back ++ ⟨.closeBrace, closing⟩ :: rest))) := by
  have hbytes : byteLengthOf front + written.left =
      byteLengthOf (front ++ (row ++ (back ++ ⟨.closeBrace, closing⟩ :: rest))) := by
    rw [byteLengthOf_append front, hleft]
  cases hrow with
  | @ended gap text colon semicolon hgap hvalue =>
    obtain rfl : text = written.name.toList :=
      (hproper ⟨.word written.name, text⟩ (by simp)).text_of_word _ rfl
    refine ⟨gap, colon, ⟨.semicolon, semicolon⟩, back ++ ⟨.closeBrace, closing⟩ :: rest, ?_, hgap,
      hvalue, .inl rfl, hbytes⟩
    simp only [List.append_assoc, List.cons_append, List.nil_append]
  | @last gap text colon hgap hvalue hback =>
    obtain rfl : text = written.name.toList :=
      (hproper ⟨.word written.name, text⟩ (by simp)).text_of_word _ rfl
    subst hback
    refine ⟨gap, colon, ⟨.closeBrace, closing⟩, rest, ?_, hgap, hvalue, .inr rfl, hbytes⟩
    simp only [List.append_assoc, List.cons_append, List.nil_append]

/-- Each declaration of a stylesheet stands in its tokens. -/
theorem exists_standsIn {list : List Token} {rules : List Grammar.Rule}
    (hsheet : SheetOf list rules) (hproper : ∀ token ∈ list, token.Proper)
    {written : WrittenDeclaration} (hwritten : written ∈ rules.flatMap Grammar.Rule.block) :
    ∃ front, written.StandsIn front list := by
  obtain ⟨before, after, hall⟩ := List.append_of_mem hwritten
  obtain ⟨rulesBefore, chains, blockBefore, blockAfter, rulesAfter, rfl, -, -⟩ :=
    exists_rule_of_flatMap_eq hall
  obtain ⟨front, row, back, closing, rest, rfl, -, hrow, hleft, -⟩ := sheetOf_without hsheet
  refine ⟨front, hrow.standsIn ?_ front rest closing hleft⟩
  intro token htoken
  exact hproper token (List.mem_append_right _ (List.mem_append_left _ htoken))

/-- The places of declarations go down, from at most `high` bytes in front of the end to more than
`low`. -/
structure Descends (low high : Nat) (block : List WrittenDeclaration) : Prop where
  pairwise : block.Pairwise fun a b => b.left < a.left
  bounds : ∀ written ∈ block, low < written.left ∧ written.left ≤ high

theorem Descends.nil (low high : Nat) : Descends low high [] :=
  ⟨List.Pairwise.nil, by simp⟩

theorem Descends.singleton {low high : Nat} {written : WrittenDeclaration}
    (hlow : low < written.left) (hhigh : written.left ≤ high) : Descends low high [written] :=
  ⟨List.pairwise_singleton _ _, by simpa using ⟨hlow, hhigh⟩⟩

theorem Descends.mono {low high high' : Nat} {block : List WrittenDeclaration}
    (hblock : Descends low high block) (hhigh : high ≤ high') : Descends low high' block := by
  refine ⟨hblock.pairwise, ?_⟩
  intro written hwritten
  obtain ⟨hlow, hle⟩ := hblock.bounds written hwritten
  exact ⟨hlow, hle.trans hhigh⟩

theorem Descends.append {low middle high : Nat} {front back : List WrittenDeclaration}
    (hfront : Descends middle high front) (hback : Descends low middle back)
    (hlow : low ≤ middle) (hhigh : middle ≤ high) : Descends low high (front ++ back) := by
  constructor
  · refine List.pairwise_append.mpr ⟨hfront.pairwise, hback.pairwise, ?_⟩
    intro a ha b hb
    exact (hback.bounds b hb).2.trans_lt (hfront.bounds a ha).1
  · intro written hwritten
    rcases List.mem_append.mp hwritten with hwritten | hwritten
    · obtain ⟨hmiddle, hle⟩ := hfront.bounds written hwritten
      exact ⟨hlow.trans_lt hmiddle, hle⟩
    · exact ((hback.mono hhigh).bounds written hwritten)

theorem Descends.cons {low middle high : Nat} {written : WrittenDeclaration}
    {back : List WrittenDeclaration} (hmiddle : middle < written.left)
    (hhigh : written.left ≤ high) (hback : Descends low middle back) (hlow : low ≤ middle) :
    Descends low high (written :: back) :=
  (Descends.singleton hmiddle hhigh).append hback hlow (hmiddle.le.trans hhigh)

theorem byteLengthOf_word_pos {name : String} {text : List Char} (tokens : List Token)
    (hproper : Token.Proper ⟨.word name, text⟩) :
    byteLengthOf tokens < byteLengthOf (⟨.word name, text⟩ :: tokens) := by
  have htext := Text.byteLength_pos hproper.text_ne_nil
  rw [byteLengthOf]
  omega

theorem descends_of_blockOf {behind : Nat} {tokens : List Token} {block : List WrittenDeclaration}
    (hblock : BlockOf behind tokens block) (hproper : ∀ token ∈ tokens, token.Proper) :
    Descends behind (byteLengthOf tokens + behind) block := by
  induction hblock with
  | nil => exact .nil _ _
  | blank text hrest ih =>
    apply (ih fun token htoken => hproper token (List.mem_cons_of_mem _ htoken)).mono
    rw [byteLengthOf]
    omega
  | semicolon text hrest ih =>
    apply (ih fun token htoken => hproper token (List.mem_cons_of_mem _ htoken)).mono
    rw [byteLengthOf]
    omega
  | @ended gap value tokens block name text colon semicolon hgap hvalue hrest ih =>
    have hpos := byteLengthOf_word_pos (gap ++ ⟨.colon, colon⟩ :: value ++
      ⟨.semicolon, semicolon⟩ :: tokens) (hproper ⟨.word name, text⟩ (by simp))
    have htail := ih fun token htoken => hproper token (by simp [htoken])
    have hle : byteLengthOf tokens ≤ byteLengthOf (gap ++ ⟨.colon, colon⟩ :: value ++
        ⟨.semicolon, semicolon⟩ :: tokens) := by
      simp only [byteLengthOf_append, byteLengthOf]
      omega
    exact Descends.cons (Nat.add_lt_add_right (hle.trans_lt hpos) behind) le_rfl htail
      (Nat.le_add_left _ _)
  | @last gap value name text colon hgap hvalue =>
    have hpos := byteLengthOf_word_pos (gap ++ ⟨.colon, colon⟩ :: value)
      (hproper ⟨.word name, text⟩ (by simp))
    refine .singleton ?_ le_rfl
    exact Nat.lt_add_of_pos_left (Nat.zero_lt_of_lt hpos)

theorem descends_of_sheetOf {list : List Token} {rules : List Grammar.Rule}
    (hsheet : SheetOf list rules) (hproper : ∀ token ∈ list, token.Proper) :
    Descends 0 (byteLengthOf list) (rules.flatMap Grammar.Rule.block) := by
  induction hsheet with
  | nil => exact .nil _ _
  | blank text hrest ih =>
    apply (ih fun token htoken => hproper token (List.mem_cons_of_mem _ htoken)).mono
    rw [byteLengthOf]
    omega
  | @rule first tokens rule rules hfirst hrest ih =>
    have htail := ih fun token htoken => hproper token (List.mem_append_right _ htoken)
    obtain @⟨head, gap, inside, _, _, opening, closing, hhead, hgap, hinside⟩ := hfirst
    have hblock := descends_of_blockOf hinside fun token htoken => hproper token (by simp [htoken])
    have hbytes : byteLengthOf inside + (Text.byteLength closing + byteLengthOf tokens) ≤
        byteLengthOf (head ++ gap ++ ⟨.openBrace, opening⟩ :: inside ++ [⟨.closeBrace, closing⟩] ++
          tokens) := by
      simp only [byteLengthOf_append, byteLengthOf]
      omega
    rw [List.flatMap_cons]
    exact Descends.append (hblock.mono hbytes) (htail.mono (Nat.le_add_left _ _)) (Nat.zero_le _)
      ((Nat.le_add_left _ _).trans hbytes)

end WidgetStyle.Sheet
