import WidgetStyle.Proofs.Parsed
import WidgetStyle.Proofs.RuleIndex
import WidgetStyle.Proofs.Weight
import WidgetStyle.Style

/-!
# Which declaration wins

The cascade runs through the rules of all sheets and keeps the heaviest candidate. Two results say
what comes out of it.

* `resolution_independent_of_index`: looking rules up in the index leaves out only rules that put
  nothing forward, and keeps the others in order. So the list of candidates is the same as that of
  a full scan, and with it every winning value and every resolved style.
* `winning_iff_heaviest`: in sheets that were read from texts, a rule is known by its sheet and its
  order, so weights are unique, and the winning value is the one declared by the single rule of
  the greatest weight.
-/

namespace WidgetStyle

/-! ### The index leaves out nothing -/

/-- A rule puts something forward only if one of its chains selects the node. -/
theorem Rule.exists_selects_of_candidate? {rule : Rule} {sheet : Nat} {target : Attribute}
    {path : Path} {candidate : Candidate}
    (hcandidate : rule.candidate? sheet target path = some candidate) :
    ∃ chain ∈ rule.selectors, chain.selects path = true := by
  obtain ⟨value, -, hweight⟩ := Option.bind_eq_some_iff.mp hcandidate
  obtain ⟨specificity, hmatching, -⟩ := Option.map_eq_some_iff.mp hweight
  rw [matchingSpecificity, Specificity.max?_eq_argmax] at hmatching
  have hmem := List.argmax_mem hmatching
  simp only [List.mem_map, List.mem_filter] at hmem
  obtain ⟨chain, ⟨hchain, hselects⟩, -⟩ := hmem
  exact ⟨chain, hchain, hselects⟩

theorem filterMap_getElem?_range {α : Type} (xs : List α) :
    (List.range xs.length).filterMap (fun i => xs[i]?) = xs := by
  induction xs with
  | nil => rfl
  | cons x xs ih =>
    rw [List.length_cons, List.range_succ_eq_map, List.filterMap_cons, List.filterMap_map]
    simpa [Function.comp_def] using ih

theorem filterMap_filter_isSome {α β : Type} (f : α → Option β) (xs : List α) :
    (xs.filter fun x => (f x).isSome).filterMap f = xs.filterMap f := by
  rw [List.filterMap_filter]
  congr 1
  funext x
  cases hx : f x <;> simp

/-- Ascending places that include every element with an image give the images of all elements. -/
theorem filterMap_of_ascending {α β : Type} (f : α → Option β) (xs : List α) {places : List Nat}
    (hplaces : places.Pairwise (· < ·))
    (hall : ∀ i x, xs[i]? = some x → (f x).isSome = true → i ∈ places) :
    (places.filterMap fun i => xs[i]?).filterMap f = xs.filterMap f := by
  have hsame : (places.filter fun i => (xs[i]?.bind f).isSome) =
      (List.range xs.length).filter fun i => (xs[i]?.bind f).isSome := by
    refine List.Pairwise.eq_of_mem_iff (hplaces.filter _) (List.pairwise_lt_range.filter _) ?_
    intro i
    simp only [List.mem_filter, List.mem_range]
    constructor
    · rintro ⟨-, hsome⟩
      obtain ⟨y, hy⟩ := Option.isSome_iff_exists.mp hsome
      obtain ⟨x, hx, -⟩ := Option.bind_eq_some_iff.mp hy
      exact ⟨(List.getElem?_eq_some_iff.mp hx).1, hsome⟩
    · rintro ⟨-, hsome⟩
      obtain ⟨y, hy⟩ := Option.isSome_iff_exists.mp hsome
      obtain ⟨x, hx, hfx⟩ := Option.bind_eq_some_iff.mp hy
      exact ⟨hall i x hx (by simp [hfx]), hsome⟩
  calc (places.filterMap fun i => xs[i]?).filterMap f
      = (places.filter fun i => (xs[i]?.bind f).isSome).filterMap fun i => xs[i]?.bind f := by
        rw [filterMap_filter_isSome, List.filterMap_filterMap]
    _ = ((List.range xs.length).filterMap fun i => xs[i]?).filterMap f := by
        rw [hsame, filterMap_filter_isSome, List.filterMap_filterMap]
    _ = xs.filterMap f := by rw [filterMap_getElem?_range]

theorem Sheet.mem_candidates_of_selects {sheet : Sheet} {path : Path} {place : Nat} {rule : Rule}
    (hrule : sheet.rules[place]? = some rule)
    (hselects : ∃ chain ∈ rule.selectors, chain.selects path = true) :
    place ∈ sheet.candidates path := by
  obtain ⟨chain, hchain, hchain'⟩ := hselects
  obtain ⟨leaf, hleaf, key, hkey, hhas⟩ := Rule.hasKey_of_selects hchain hchain'
  simp only [candidates, hleaf, sheet.index_eq, Index.mem_candidates]
  exact ⟨rule, by simpa using hrule, key, hkey, hhas⟩

theorem Sheet.pairwise_candidates (sheet : Sheet) (path : Path) :
    (sheet.candidates path).Pairwise (· < ·) := by
  unfold candidates
  split
  · rw [sheet.index_eq]
    exact Index.pairwise_candidates _ _
  · exact List.Pairwise.nil

/-- A sheet puts the same candidates forward with the index and without it. -/
theorem Sheet.filterMap_visited (sheet : Sheet) (indexed : Bool) (number : Nat)
    (target : Attribute) (path : Path) :
    ((sheet.visited indexed path).filterMap fun rule => rule.candidate? number target path) =
      sheet.rules.toList.filterMap fun rule => rule.candidate? number target path := by
  cases indexed with
  | false => rfl
  | true =>
    simp only [visited, if_true, ← Array.getElem?_toList]
    refine filterMap_of_ascending _ _ (sheet.pairwise_candidates path) ?_
    intro place rule hrule hsome
    obtain ⟨candidate, hcandidate⟩ := Option.isSome_iff_exists.mp hsome
    exact mem_candidates_of_selects (by simpa using hrule)
      (Rule.exists_selects_of_candidate? hcandidate)

theorem candidatesFrom_indexed (indexed : Bool) (target : Attribute) (path : Path) (number : Nat)
    (sheets : List Sheet) :
    candidatesFrom indexed target path number sheets =
      candidatesFrom false target path number sheets := by
  induction sheets generalizing number with
  | nil => rfl
  | cons sheet sheets ih =>
    rw [candidatesFrom, candidatesFrom, ih, Sheet.filterMap_visited, Sheet.filterMap_visited]

theorem winner_indexed (sheets : List Sheet) (indexed : Bool) (target : Attribute) (path : Path) :
    winner sheets indexed target path = winner sheets false target path := by
  rw [winner, winner, candidatesFrom_indexed]

theorem Resolver.winning_indexed (sheets : List Sheet) (indexed : Bool) (target : Attribute)
    (path : Path) :
    Resolver.winning ⟨sheets, indexed⟩ target path = winner sheets false target path :=
  winner_indexed sheets indexed target path

/-- **The index changes no result.** Scanning every rule and looking rules up in the index give the
same winning values, so they resolve every attribute and compute every style alike, and a sheet
asked alone answers as a resolver that holds nothing else. -/
theorem resolution_independent_of_index (sheets : List Sheet) (path : Path) :
    (∀ target, winner sheets true target path = winner sheets false target path) ∧
    (∀ indexed indexed' : Bool,
      (∀ target, Resolver.winning ⟨sheets, indexed⟩ target path =
        Resolver.winning ⟨sheets, indexed'⟩ target path) ∧
      (∀ {α : Type} [StyleValue α] (descriptor : Descriptor α),
        Resolver.resolve ⟨sheets, indexed⟩ descriptor path =
          Resolver.resolve ⟨sheets, indexed'⟩ descriptor path) ∧
      Resolver.style ⟨sheets, indexed⟩ path = Resolver.style ⟨sheets, indexed'⟩ path) ∧
    (∀ (sheet : Sheet) (indexed : Bool) {α : Type} [StyleValue α] (descriptor : Descriptor α),
      sheet.resolve descriptor path = Resolver.resolve ⟨[sheet], indexed⟩ descriptor path) := by
  refine ⟨fun target => winner_indexed sheets true target path, ?_, ?_⟩
  · intro indexed indexed'
    have hwinning : ∀ target, Resolver.winning ⟨sheets, indexed⟩ target path =
        Resolver.winning ⟨sheets, indexed'⟩ target path := by
      intro target
      rw [Resolver.winning_indexed, Resolver.winning_indexed]
    refine ⟨hwinning, ?_, ?_⟩
    · intro α _ descriptor
      rw [Resolver.resolve, Resolver.resolve, hwinning]
    · simp only [Resolver.style, Resolver.resolve, hwinning]
  · intro sheet indexed α _ descriptor
    rw [Sheet.resolve, Resolver.resolve, winner_indexed, Resolver.winning_indexed]

/-! ### The heaviest rule wins -/

/-- The rule selects the last node of the path with this specificity: the highest among those of
its chains that select the node. -/
def Rule.SelectsWith (rule : Rule) (path : Path) (s : Specificity) : Prop :=
  (∃ chain ∈ rule.selectors, chain.selects path = true ∧ chain.specificity = s) ∧
    ∀ chain ∈ rule.selectors, chain.selects path = true → chain.specificity.rank ≤ s.rank

/-- In the sheet and at the place that the weight names stands a rule that declares the value for
the attribute and selects the node with the specificity of the weight. -/
def PutsForward (sheets : List Sheet) (target : Attribute) (path : Path) (weight : Weight)
    (value : Value) : Prop :=
  ∃ sheet rule, sheets[weight.sheet]? = some sheet ∧ sheet.rules[weight.order]? = some rule ∧
    ⟨target, value⟩ ∈ rule.declarations ∧ rule.SelectsWith path weight.specificity

/-- Where ranks tell the elements of a list apart, the one of greatest rank is the maximum. -/
theorem argmax_eq_some_iff_of_injOn {α β : Type} [LinearOrder β] {rank : α → β} {list : List α}
    (hinj : ∀ a ∈ list, ∀ b ∈ list, rank a = rank b → a = b) {m : α} :
    list.argmax rank = some m ↔ m ∈ list ∧ ∀ a ∈ list, rank a ≤ rank m := by
  constructor
  · intro hmax
    exact ⟨List.argmax_mem hmax, fun a ha => List.le_of_mem_argmax ha hmax⟩
  · rintro ⟨hm, hle⟩
    cases hmax : list.argmax rank with
    | none =>
      rw [List.argmax_eq_none.mp hmax] at hm
      cases hm
    | some best =>
      have hbest : best ∈ list := List.argmax_mem hmax
      have hrank : rank best = rank m := le_antisymm (hle best hbest) (List.le_of_mem_argmax hm hmax)
      rw [hinj best hbest m hm hrank]

theorem Rule.matchingSpecificity_eq_some_iff {rule : Rule} {path : Path} {s : Specificity} :
    rule.matchingSpecificity path = some s ↔ rule.SelectsWith path s := by
  rw [matchingSpecificity, Specificity.max?_eq_argmax,
    argmax_eq_some_iff_of_injOn fun a _ b _ hrank => Specificity.rank_injective hrank]
  simp only [SelectsWith, List.mem_map, List.mem_filter, and_assoc]
  constructor
  · rintro ⟨hs, hle⟩
    exact ⟨hs, fun chain hchain hselects => hle _ ⟨chain, hchain, hselects, rfl⟩⟩
  · rintro ⟨hs, hle⟩
    refine ⟨hs, ?_⟩
    rintro _ ⟨chain, hchain, hselects, rfl⟩
    exact hle chain hchain hselects

theorem Rule.exists_selectsWith_iff {rule : Rule} {path : Path} :
    (∃ s, rule.SelectsWith path s) ↔ ∃ chain ∈ rule.selectors, chain.selects path = true := by
  constructor
  · rintro ⟨s, ⟨chain, hchain, hselects, -⟩, -⟩
    exact ⟨chain, hchain, hselects⟩
  · rintro ⟨chain, hchain, hselects⟩
    have hmem : chain.specificity ∈
        (rule.selectors.filter fun chain => chain.selects path).map Chain.specificity :=
      List.mem_map.mpr ⟨chain, List.mem_filter.mpr ⟨hchain, hselects⟩, rfl⟩
    obtain ⟨s, hs⟩ : ∃ s, rule.matchingSpecificity path = some s := by
      cases hmatching : rule.matchingSpecificity path with
      | some s => exact ⟨s, rfl⟩
      | none =>
        rw [matchingSpecificity, List.max?_eq_none_iff] at hmatching
        rw [hmatching] at hmem
        cases hmem
    exact ⟨s, matchingSpecificity_eq_some_iff.mp hs⟩

theorem Rule.candidate?_eq_some_iff {rule : Rule}
    (hdistinct : rule.declarations.Pairwise fun a b => a.target ≠ b.target) {number : Nat}
    {target : Attribute} {path : Path} {candidate : Candidate} :
    rule.candidate? number target path = some candidate ↔
      candidate.weight.sheet = number ∧ candidate.weight.order = rule.order ∧
        ⟨target, candidate.value⟩ ∈ rule.declarations ∧
        rule.SelectsWith path candidate.weight.specificity := by
  obtain ⟨⟨specificity, place, order⟩, value⟩ := candidate
  simp only [candidate?, Option.bind_eq_some_iff, Option.map_eq_some_iff,
    declaration_eq_some_iff hdistinct, matchingSpecificity_eq_some_iff, Candidate.mk.injEq,
    Weight.mk.injEq]
  constructor
  · rintro ⟨_, hdeclared, _, hselects, ⟨rfl, rfl, rfl⟩, rfl⟩
    exact ⟨rfl, rfl, hdeclared, hselects⟩
  · rintro ⟨rfl, rfl, hdeclared, hselects⟩
    exact ⟨value, hdeclared, specificity, hselects, ⟨rfl, rfl, rfl⟩, rfl⟩

theorem mem_candidatesFrom {target : Attribute} {path : Path} {number : Nat} {sheets : List Sheet}
    {candidate : Candidate} :
    candidate ∈ candidatesFrom false target path number sheets ↔
      ∃ (place : Nat) (sheet : Sheet) (rule : Rule), sheets[place]? = some sheet ∧
        rule ∈ sheet.rules ∧ rule.candidate? (number + place) target path = some candidate := by
  induction sheets generalizing number with
  | nil => simp [candidatesFrom]
  | cons first sheets ih =>
    simp only [candidatesFrom, List.mem_append, ih, Sheet.visited, List.mem_filterMap,
      Array.mem_toList_iff, Bool.false_eq_true, if_false]
    constructor
    · rintro (⟨rule, hrule, hcandidate⟩ | ⟨place, sheet, rule, hsheet, hrule, hcandidate⟩)
      · exact ⟨0, first, rule, rfl, hrule, hcandidate⟩
      · refine ⟨place + 1, sheet, rule, hsheet, hrule, ?_⟩
        rw [← hcandidate, Nat.add_assoc, Nat.add_comm 1 place]
    · rintro ⟨place, sheet, rule, hsheet, hrule, hcandidate⟩
      cases place with
      | zero =>
        obtain rfl : first = sheet := by simpa using hsheet
        exact .inl ⟨rule, hrule, hcandidate⟩
      | succ place =>
        refine .inr ⟨place, sheet, rule, hsheet, hrule, ?_⟩
        rw [← hcandidate, Nat.add_assoc, Nat.add_comm 1 place]

section ParsedSheets

variable {sheets : List Sheet} {target : Attribute} {path : Path}

/-- In sheets read from texts the candidates are what the rules put forward, each with the place
of its own rule. -/
theorem mem_candidates_iff (hparsed : ∀ sheet ∈ sheets, sheet.Parsed) {candidate : Candidate} :
    candidate ∈ candidatesFrom false target path 0 sheets ↔
      PutsForward sheets target path candidate.weight candidate.value := by
  rw [mem_candidatesFrom]
  constructor
  · rintro ⟨place, sheet, rule, hsheet, hrule, hcandidate⟩
    have hsheet' := hparsed sheet (List.mem_of_getElem? hsheet)
    obtain ⟨order, horder⟩ := Array.mem_iff_getElem?.mp hrule
    rw [Rule.candidate?_eq_some_iff (hsheet'.pairwise_declarations hrule),
      hsheet'.order_eq horder, Nat.zero_add] at hcandidate
    obtain ⟨rfl, rfl, hdeclared, hselects⟩ := hcandidate
    exact ⟨sheet, rule, hsheet, horder, hdeclared, hselects⟩
  · rintro ⟨sheet, rule, hsheet, hrule, hdeclared, hselects⟩
    have hsheet' := hparsed sheet (List.mem_of_getElem? hsheet)
    have hmem : rule ∈ sheet.rules := Array.mem_iff_getElem?.mpr ⟨_, hrule⟩
    refine ⟨_, sheet, rule, hsheet, hmem, ?_⟩
    rw [Rule.candidate?_eq_some_iff (hsheet'.pairwise_declarations hmem)]
    exact ⟨(Nat.zero_add _).symm, (hsheet'.order_eq hrule).symm, hdeclared, hselects⟩

/-- The rule that a weight names declares one value for the attribute. -/
theorem PutsForward.value_unique (hparsed : ∀ sheet ∈ sheets, sheet.Parsed) {weight : Weight}
    {value value' : Value} (hvalue : PutsForward sheets target path weight value)
    (hvalue' : PutsForward sheets target path weight value') : value = value' := by
  obtain ⟨sheet, rule, hsheet, hrule, hdeclared, -⟩ := hvalue
  obtain ⟨sheet', rule', hsheet', hrule', hdeclared', -⟩ := hvalue'
  obtain rfl : sheet = sheet' := Option.some.inj (hsheet.symm.trans hsheet')
  obtain rfl : rule = rule' := Option.some.inj (hrule.symm.trans hrule')
  have hdistinct := (hparsed sheet (List.mem_of_getElem? hsheet)).pairwise_declarations
    (Array.mem_iff_getElem?.mpr ⟨_, hrule⟩)
  rw [← Rule.declaration_eq_some_iff hdistinct] at hdeclared hdeclared'
  exact Option.some.inj (hdeclared.symm.trans hdeclared')

theorem winner_eq_some_iff (hparsed : ∀ sheet ∈ sheets, sheet.Parsed) {indexed : Bool}
    {value : Value} :
    winner sheets indexed target path = some value ↔
      ∃ weight, PutsForward sheets target path weight value ∧
        ∀ other given, PutsForward sheets target path other given → other.rank ≤ weight.rank := by
  -- candidates of one weight come from one rule, so they are equal
  have hinj : ∀ a ∈ candidatesFrom false target path 0 sheets,
      ∀ b ∈ candidatesFrom false target path 0 sheets,
      a.weight.rank = b.weight.rank → a = b := by
    rintro ⟨weight, given⟩ ha ⟨other, given'⟩ hb hrank
    obtain rfl : weight = other := Weight.rank_injective hrank
    rw [mem_candidates_iff hparsed] at ha hb
    obtain rfl : given = given' := ha.value_unique hparsed hb
    rfl
  rw [winner_indexed, winner, Candidate.foldl_better_eq_argmax, Option.map_eq_some_iff]
  simp only [argmax_eq_some_iff_of_injOn hinj, mem_candidates_iff hparsed]
  constructor
  · rintro ⟨⟨weight, _⟩, ⟨hputs, hgreatest⟩, rfl⟩
    exact ⟨weight, hputs, fun other given hother => hgreatest ⟨other, given⟩ hother⟩
  · rintro ⟨weight, hputs, hgreatest⟩
    exact ⟨⟨weight, value⟩, ⟨hputs, fun other hother => hgreatest _ _ hother⟩, rfl⟩

theorem exists_putsForward_iff :
    (∃ weight value, PutsForward sheets target path weight value) ↔
      ∃ sheet ∈ sheets, ∃ rule ∈ sheet.rules, (∃ value, ⟨target, value⟩ ∈ rule.declarations) ∧
        ∃ chain ∈ rule.selectors, chain.selects path = true := by
  constructor
  · rintro ⟨weight, value, sheet, rule, hsheet, hrule, hdeclared, hselects⟩
    exact ⟨sheet, List.mem_of_getElem? hsheet, rule, Array.mem_iff_getElem?.mpr ⟨_, hrule⟩,
      ⟨value, hdeclared⟩, Rule.exists_selectsWith_iff.mp ⟨_, hselects⟩⟩
  · rintro ⟨sheet, hsheet, rule, hrule, ⟨value, hdeclared⟩, hselects⟩
    obtain ⟨place, hplace⟩ := List.mem_iff_getElem?.mp hsheet
    obtain ⟨order, horder⟩ := Array.mem_iff_getElem?.mp hrule
    obtain ⟨specificity, hspecificity⟩ := Rule.exists_selectsWith_iff.mpr hselects
    exact ⟨⟨specificity, place, order⟩, value, sheet, rule, hplace, horder, hdeclared,
      hspecificity⟩

theorem winner_isSome_iff (hparsed : ∀ sheet ∈ sheets, sheet.Parsed) {indexed : Bool} :
    (winner sheets indexed target path).isSome = true ↔
      ∃ weight value, PutsForward sheets target path weight value := by
  rw [winner_indexed, winner, Candidate.foldl_better_eq_argmax, Option.isSome_map,
    Option.isSome_iff_ne_none, ne_eq, List.argmax_eq_none]
  constructor
  · intro hne
    obtain ⟨candidate, hcandidate⟩ := List.exists_mem_of_ne_nil _ hne
    exact ⟨_, _, (mem_candidates_iff hparsed).mp hcandidate⟩
  · rintro ⟨weight, value, hputs⟩
    have hmem : ⟨weight, value⟩ ∈ candidatesFrom false target path 0 sheets :=
      (mem_candidates_iff hparsed).mpr hputs
    exact List.ne_nil_of_mem hmem

end ParsedSheets

/-- **The winning value is the one of the heaviest rule.** For sheets read from texts, some value
wins exactly when a rule declares the attribute and has a chain that selects the node. The value
that wins is declared by the one such rule whose specificity, sheet and order are
lexicographically greatest, and where there is no such rule the attribute has its initial value. -/
theorem winning_iff_heaviest (resolver : Resolver)
    (hparsed : ∀ sheet ∈ resolver.sheets, sheet.Parsed) (target : Attribute) (path : Path) :
    ((resolver.winning target path).isSome = true ↔
      ∃ sheet ∈ resolver.sheets, ∃ rule ∈ sheet.rules,
        (∃ value, ⟨target, value⟩ ∈ rule.declarations) ∧
        ∃ chain ∈ rule.selectors, chain.selects path = true) ∧
    (∀ value, resolver.winning target path = some value ↔
      ∃! weight, PutsForward resolver.sheets target path weight value ∧
        ∀ other given, PutsForward resolver.sheets target path other given →
          other.rank ≤ weight.rank) ∧
    (∀ {α : Type} [StyleValue α] (descriptor : Descriptor α), descriptor.target = target →
      (¬ ∃ sheet ∈ resolver.sheets, ∃ rule ∈ sheet.rules,
        (∃ value, ⟨target, value⟩ ∈ rule.declarations) ∧
        ∃ chain ∈ rule.selectors, chain.selects path = true) →
      resolver.resolve descriptor path = descriptor.initial) := by
  refine ⟨?_, ?_, ?_⟩
  · rw [Resolver.winning, winner_isSome_iff hparsed, exists_putsForward_iff]
  · intro value
    rw [Resolver.winning, winner_eq_some_iff hparsed]
    constructor
    · rintro ⟨weight, hputs, hgreatest⟩
      refine ⟨weight, ⟨hputs, hgreatest⟩, ?_⟩
      rintro other ⟨hother, hgreatest'⟩
      exact Weight.rank_injective
        (le_antisymm (hgreatest other value hother) (hgreatest' weight value hputs))
    · rintro ⟨weight, hweight, -⟩
      exact ⟨weight, hweight⟩
  · rintro α _ descriptor rfl hnone
    have hwinning : resolver.winning descriptor.target path = none := by
      rw [← exists_putsForward_iff, ← winner_isSome_iff hparsed] at hnone
      exact Option.not_isSome_iff_eq_none.mp hnone
    rw [Resolver.resolve, hwinning]
    rfl

/-- The first sheet has the more specific rule, the second one the later rule. -/
theorem winning_iff_heaviest_of_two_sheets :
    ∃ first second : Sheet, Sheet.parse ".x a{font:link}" = .ok first ∧
      Sheet.parse "a,td a{font:heading}" = .ok second ∧
      (∃! weight,
        PutsForward [first, second] .font [⟨"td", some "x", none⟩, ⟨"a", none, none⟩] weight
          (.keyword "link") ∧
        ∀ other given,
          PutsForward [first, second] .font [⟨"td", some "x", none⟩, ⟨"a", none, none⟩] other given →
            other.rank ≤ weight.rank) ∧
      Resolver.resolve ⟨[first, second], true⟩ Descriptor.width
        [⟨"td", some "x", none⟩, ⟨"a", none, none⟩] = .auto := by
  have hfirst : Sheet.written ".x a{font:link}".toList = .ok
      [⟨[.extend (.single ⟨none, some "x", none⟩) .descendant ⟨some "a", none, none⟩],
        [⟨"font", [⟨.word "link", ['l', 'i', 'n', 'k']⟩], 10⟩]⟩] := by decide +kernel
  have hsecond : Sheet.written "a,td a{font:heading}".toList = .ok
      [⟨[.single ⟨some "a", none, none⟩,
          .extend (.single ⟨some "td", none, none⟩) .descendant ⟨some "a", none, none⟩],
        [⟨"font", [⟨.word "heading", ['h', 'e', 'a', 'd', 'i', 'n', 'g']⟩], 13⟩]⟩] := by
    decide +kernel
  have hparse := Sheet.parse_of_written true hfirst
  have hparse' := Sheet.parse_of_written true hsecond
  have hheaviest := winning_iff_heaviest ⟨[_, _], true⟩
    (List.forall_mem_cons.mpr ⟨⟨_, true, hparse⟩,
      List.forall_mem_cons.mpr ⟨⟨_, true, hparse'⟩, List.forall_mem_nil _⟩⟩)
  refine ⟨_, _, hparse, hparse', ((hheaviest .font _).2.1 _).mp ?_, ?_⟩
  · decide +kernel
  · refine (hheaviest .width _).2.2 _ rfl ?_
    rw [← (hheaviest .width _).1]
    decide +kernel

end WidgetStyle
