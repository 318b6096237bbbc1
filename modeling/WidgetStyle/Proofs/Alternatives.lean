import WidgetStyle.Proofs.Precedence

/-!
# One rule for each selector

The selectors of a rule are alternatives, so the rule can be written once for each of them, with
the same declarations. A node is told the same: the rules made from one rule offer one value, and
of offers of one value in a row the most specific one is what counts, which is what the rule itself
offers (`foldl_overrule_map`). All rules behind get other numbers, but one pass over the rules does
not look at numbers.
-/

namespace WidgetStyle

/-- The rules with one selector each, in the order of the selectors. -/
def Rule.alternatives (rule : Rule) : List Rule :=
  rule.selectors.map fun chain => ⟨[chain], rule.declarations, rule.order⟩

/-- The rules numbered by their places. -/
def Rule.numbered (rules : List Rule) : List Rule :=
  rules.mapIdx fun place rule => { rule with order := place }

/-- The sheet with one rule for each selector of each rule, numbered anew. -/
def Sheet.separated (sheet : Sheet) : Sheet :=
  .ofRules (Rule.numbered (sheet.rules.toList.flatMap Rule.alternatives)).toArray sheet.diagnostics

namespace Offer

/-! ### Offers of one value -/

variable {a b : Specificity} {value : Value}

theorem overrule_some (hle : ¬a < b) : overrule (some ⟨a, value⟩) ⟨b, value⟩ = some ⟨a, value⟩ := by
  by_cases hlt : b < a
  · exact if_pos hlt
  · rw [Specificity.lt_iff_rank_lt, not_lt] at hle hlt
    rw [Specificity.rank_injective (le_antisymm hlt hle)]
    exact ite_self _

/-- Of two offers of one value in a row the more specific one counts. -/
theorem overrule_overrule (best : Option Offer) (a b : Specificity) (value : Value) :
    overrule (overrule best ⟨a, value⟩) ⟨b, value⟩ = overrule best ⟨max a b, value⟩ := by
  have hmax : max a b = if a < b then b else a := rfl
  by_cases hab : a < b
  · rw [hmax, if_pos hab]
    have hba : ¬b < a := by
      rw [Specificity.lt_iff_rank_lt] at hab ⊢
      exact hab.not_gt
    cases best with
    | none => exact if_neg hba
    | some current =>
      by_cases hcurrent : a < current.specificity
      · rw [overrule.eq_def (some current) ⟨a, value⟩]
        simp only [if_pos hcurrent]
      · have hcurrent' : ¬b < current.specificity := by
          rw [Specificity.lt_iff_rank_lt] at hab hcurrent ⊢
          exact fun hlt => hcurrent (hab.trans hlt)
        simp only [overrule, if_neg hcurrent, if_neg hcurrent', if_neg hba]
  · rw [hmax, if_neg hab]
    cases best with
    | none => exact overrule_some hab
    | some current =>
      by_cases hcurrent : a < current.specificity
      · have hcurrent' : b < current.specificity := by
          rw [Specificity.lt_iff_rank_lt] at hab hcurrent ⊢
          exact (not_lt.mp hab).trans_lt hcurrent
        simp only [overrule, if_pos hcurrent, if_pos hcurrent']
      · have hkept : overrule (some current) ⟨a, value⟩ = some ⟨a, value⟩ := if_neg hcurrent
        rw [hkept, overrule_some hab]

/-- Of offers of one value in a row the most specific one counts. -/
theorem foldl_overrule_map (specificities : List Specificity) (value : Value)
    (best : Option Offer) :
    (specificities.map fun specificity => ⟨specificity, value⟩).foldl overrule best =
      (specificities.max?.map fun specificity => ⟨specificity, value⟩).toList.foldl overrule
        best := by
  cases specificities with
  | nil => rfl
  | cons first rest =>
    induction rest generalizing first best with
    | nil => rfl
    | cons next rest ih =>
      have hrest := ih best (max first next)
      simp only [List.map_cons, List.foldl_cons, overrule_overrule, List.max?_cons'] at hrest ⊢
      exact hrest

end Offer

/-! ### The rules made from one rule -/

theorem Rule.offer?_alternative (rule : Rule) (chain : Chain) (target : Attribute) (path : Path) :
    offer? ⟨[chain], rule.declarations, rule.order⟩ target path =
      (rule.declaration target).bind fun value =>
        if chain.selects path then some ⟨chain.specificity, value⟩ else none := by
  have hdeclaration :
      declaration ⟨[chain], rule.declarations, rule.order⟩ target = rule.declaration target := rfl
  by_cases hselects : chain.selects path = true
  · simp [offer?, hdeclaration, matchingSpecificity, hselects]
  · simp [offer?, hdeclaration, matchingSpecificity, hselects]

/-- Where the rule declares a value, each selector that selects the node has its own offer. -/
theorem Rule.filterMap_offer?_alternatives (rule : Rule) (target : Attribute) (path : Path) :
    (rule.alternatives.filterMap fun rule => rule.offer? target path) =
      (rule.declaration target).elim [] fun value =>
        ((rule.selectors.filter fun chain => chain.selects path).map Chain.specificity).map
          fun specificity => ⟨specificity, value⟩ := by
  simp only [alternatives, List.filterMap_map, Function.comp_def, offer?_alternative]
  cases rule.declaration target with
  | none => exact List.filterMap_eq_nil_iff.mpr fun _ _ => rfl
  | some value =>
    simp only [Option.elim_some, Option.bind_some]
    rw [List.map_map, ← List.filterMap_eq_map, List.filterMap_filter]
    rfl

theorem Rule.foldl_overrule_alternatives (rule : Rule) (target : Attribute) (path : Path)
    (best : Option Offer) :
    (rule.alternatives.filterMap fun rule => rule.offer? target path).foldl Offer.overrule best =
      (rule.offer? target path).toList.foldl Offer.overrule best := by
  rw [filterMap_offer?_alternatives, offer?]
  cases rule.declaration target with
  | none => rfl
  | some value => exact Offer.foldl_overrule_map _ value best

/-- One pass over the rules with one selector keeps what one pass over the rules keeps. -/
theorem Rule.foldl_overrule_flatMap (rules : List Rule) (target : Attribute) (path : Path)
    (best : Option Offer) :
    ((rules.flatMap alternatives).filterMap fun rule => rule.offer? target path).foldl
        Offer.overrule best =
      (rules.filterMap fun rule => rule.offer? target path).foldl Offer.overrule best := by
  induction rules generalizing best with
  | nil => rfl
  | cons rule rules ih =>
    rw [List.flatMap_cons, List.filterMap_append, List.foldl_append,
      foldl_overrule_alternatives, ih, List.filterMap_cons]
    cases rule.offer? target path with
    | none => rfl
    | some offer => rfl

/-- What a rule offers does not depend on its number. -/
theorem Rule.filterMap_offer?_numbered (rules : List Rule) (target : Attribute) (path : Path) :
    ((numbered rules).filterMap fun rule => rule.offer? target path) =
      rules.filterMap fun rule => rule.offer? target path := by
  have hrules : rules = rules.zipIdx.map Prod.fst := (List.zipIdx_map_fst 0 rules).symm
  rw [numbered, List.mapIdx_eq_zipIdx_map, List.filterMap_map]
  conv_rhs => rw [hrules, List.filterMap_map]
  rfl

theorem Sheet.numbered_separated (sheet : Sheet) : sheet.separated.Numbered := by
  intro place rule hrule
  simp only [separated, ofRules, Rule.numbered, List.getElem?_toArray, List.getElem?_mapIdx,
    Option.map_eq_some_iff] at hrule
  obtain ⟨rule, -, rfl⟩ := hrule
  rfl

/-- **A rule is as good as one rule for each of its selectors.** In a sheet that was read from a
text, let each rule be replaced by rules with one selector and the same declarations, in the order
of the selectors, and the rules be numbered anew. Wherever the sheet stands among others, the same
value wins for every attribute of every node. -/
theorem winning_separated (front back : List Sheet) {sheet : Sheet}
    (hparsed : ∀ other ∈ front ++ sheet :: back, other.Parsed) (indexed indexed' : Bool)
    (target : Attribute) (path : Path) :
    Resolver.winning ⟨front ++ sheet.separated :: back, indexed'⟩ target path =
      Resolver.winning ⟨front ++ sheet :: back, indexed⟩ target path := by
  have hnumbered : ∀ other ∈ front ++ sheet :: back, other.Numbered :=
    fun other hother => (hparsed other hother).numbered
  have hnumbered' : ∀ other ∈ front ++ sheet.separated :: back, other.Numbered := by
    simp only [List.forall_mem_append, List.forall_mem_cons] at hnumbered ⊢
    exact ⟨hnumbered.1, sheet.numbered_separated, hnumbered.2.2⟩
  have hrules : (sheet.separated.rules.toList.filterMap fun rule => rule.offer? target path) =
      (sheet.rules.toList.flatMap Rule.alternatives).filterMap fun rule =>
        rule.offer? target path :=
    Rule.filterMap_offer?_numbered _ target path
  rw [Resolver.winning, Resolver.winning, winner_eq_overrule hnumbered,
    winner_eq_overrule hnumbered']
  -- the passes differ in the middle sheet only
  simp only [List.flatMap_append, List.flatMap_cons, List.filterMap_append, List.foldl_append,
    hrules, Rule.foldl_overrule_flatMap]

/-- A rule with two selectors, the second of which is as specific as a rule of an earlier sheet. -/
theorem winning_separated_of_two_sheets :
    ∃ first second other : Sheet, Sheet.parse ".x b{font:link}" = .ok first ∧
      Sheet.parse "b,.x b{font:default}.y b{font:heading}" = .ok second ∧
      Sheet.parse "b{font:default}.x b{font:default}.y b{font:heading}" = .ok other ∧
      second.separated.rules = other.rules ∧
      Resolver.winning ⟨[first, second.separated], true⟩ .font
          [⟨"a", some "x", none⟩, ⟨"b", none, none⟩] =
        Resolver.winning ⟨[first, second], false⟩ .font
          [⟨"a", some "x", none⟩, ⟨"b", none, none⟩] ∧
      Resolver.winning ⟨[first, second], false⟩ .font
        [⟨"a", some "x", none⟩, ⟨"b", none, none⟩] = some (.keyword "default") := by
  have hfirst : Sheet.written ".x b{font:link}".toList = .ok
      [⟨[.extend (.single ⟨none, some "x", none⟩) .descendant ⟨some "b", none, none⟩],
        [⟨"font", [⟨.word "link", ['l', 'i', 'n', 'k']⟩], 10⟩]⟩] := by decide +kernel
  have hsecond : Sheet.written "b,.x b{font:default}.y b{font:heading}".toList = .ok
      [⟨[.single ⟨some "b", none, none⟩,
          .extend (.single ⟨none, some "x", none⟩) .descendant ⟨some "b", none, none⟩],
        [⟨"font", [⟨.word "default", ['d', 'e', 'f', 'a', 'u', 'l', 't']⟩], 31⟩]⟩,
       ⟨[.extend (.single ⟨none, some "y", none⟩) .descendant ⟨some "b", none, none⟩],
        [⟨"font", [⟨.word "heading", ['h', 'e', 'a', 'd', 'i', 'n', 'g']⟩], 13⟩]⟩] := by
    decide +kernel
  have hother : Sheet.written "b{font:default}.x b{font:default}.y b{font:heading}".toList = .ok
      [⟨[.single ⟨some "b", none, none⟩],
        [⟨"font", [⟨.word "default", ['d', 'e', 'f', 'a', 'u', 'l', 't']⟩], 49⟩]⟩,
       ⟨[.extend (.single ⟨none, some "x", none⟩) .descendant ⟨some "b", none, none⟩],
        [⟨"font", [⟨.word "default", ['d', 'e', 'f', 'a', 'u', 'l', 't']⟩], 31⟩]⟩,
       ⟨[.extend (.single ⟨none, some "y", none⟩) .descendant ⟨some "b", none, none⟩],
        [⟨"font", [⟨.word "heading", ['h', 'e', 'a', 'd', 'i', 'n', 'g']⟩], 13⟩]⟩] := by
    decide +kernel
  have hparse := Sheet.parse_of_written true hfirst
  have hparse' := Sheet.parse_of_written true hsecond
  refine ⟨_, _, _, hparse, hparse', Sheet.parse_of_written true hother, ?_, ?_, ?_⟩
  · decide +kernel
  · exact winning_separated [_] [] (List.forall_mem_cons.mpr ⟨⟨_, true, hparse⟩,
      List.forall_mem_cons.mpr ⟨⟨_, true, hparse'⟩, List.forall_mem_nil _⟩⟩) false true .font _
  · decide +kernel

end WidgetStyle
