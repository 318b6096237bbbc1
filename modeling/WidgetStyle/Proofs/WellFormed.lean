import Mathlib.Algebra.Group.Nat.Defs
import WidgetStyle.Proofs.Cascade
import WidgetStyle.Proofs.Domain
import WidgetStyle.Proofs.GrammarSoundness

/-!
# Rules that were read are well formed

What the reading of a text establishes in different places holds of every rule in the end
(`Rule.WellFormed`): the grammar gives it a chain, its place gives it its order, each declaration
that was taken replaced the others of its attribute and lies in the domain of the attribute, and
chains count their specificity as they grow.

So a value that wins is one that the attribute admits. The typed view of a descriptor is asked for
only then, and it exists: the initial value is never put in the place of a value that won.
-/

namespace WidgetStyle

/-! ### Specificity counts parts -/

/-- The specificity of a row of links, counted over the row. -/
def Specificity.ofLinks (links : List Link) : Specificity where
  ids := UInt32.ofNat (links.countP fun link => link.selector.id.isSome)
  classes := UInt32.ofNat (links.countP fun link => link.selector.className.isSome)
  elements := UInt32.ofNat (links.countP fun link => link.selector.element.isSome)

theorem Specificity.ofLinks_append (left right : List Link) :
    ofLinks (left ++ right) = (ofLinks left).add (ofLinks right) := by
  simp only [ofLinks, add, List.countP_append, UInt32.ofNat_add]

theorem SimpleSelector.specificity_eq_ofLinks (combinator : Combinator)
    (selector : SimpleSelector) :
    selector.specificity = Specificity.ofLinks [⟨combinator, selector⟩] := by
  obtain ⟨element, className, id⟩ := selector
  simp only [specificity, Specificity.ofLinks, List.countP_singleton]
  cases element <;> cases className <;> cases id <;> rfl

/-- The specificity that a chain has from growing is the one counted over its links. -/
theorem Chain.specificity_eq_ofLinks (chain : Chain) :
    chain.specificity = Specificity.ofLinks chain.links := by
  induction chain with
  | single selector => exact selector.specificity_eq_ofLinks .descendant
  | extend left combinator selector ih =>
    rw [specificity, links, Specificity.ofLinks_append, ih,
      selector.specificity_eq_ofLinks combinator]

/-- The specificity counts the ids, classes and element names in the links, as far as a word of 32
bits can count. -/
structure Chain.Counted (chain : Chain) : Prop where
  ids : chain.links.countP (fun link => link.selector.id.isSome) < 2 ^ 32 →
    chain.specificity.ids.toNat = chain.links.countP fun link => link.selector.id.isSome
  classes : chain.links.countP (fun link => link.selector.className.isSome) < 2 ^ 32 →
    chain.specificity.classes.toNat = chain.links.countP fun link => link.selector.className.isSome
  elements : chain.links.countP (fun link => link.selector.element.isSome) < 2 ^ 32 →
    chain.specificity.elements.toNat = chain.links.countP fun link => link.selector.element.isSome

theorem Chain.counted (chain : Chain) : chain.Counted := by
  have hlinks := chain.specificity_eq_ofLinks
  constructor
  · intro hids
    rw [hlinks]
    exact UInt32.toNat_ofNat_of_lt' hids
  · intro hclasses
    rw [hlinks]
    exact UInt32.toNat_ofNat_of_lt' hclasses
  · intro helements
    rw [hlinks]
    exact UInt32.toNat_ofNat_of_lt' helements

/-! ### Rules -/

/-- What holds of the rule at a place of a sheet that was read from a text. -/
structure Rule.WellFormed (place : Nat) (rule : Rule) : Prop where
  selectors_ne_nil : rule.selectors ≠ []
  counted : ∀ chain ∈ rule.selectors, chain.Counted
  order_eq : rule.order = place
  distinct : rule.declarations.Pairwise fun a b => a.target ≠ b.target
  admits : ∀ declared ∈ rule.declarations, declared.target.Admits declared.value

namespace Sheet

theorem Grammar.chains_ne_nil_of_chainsOf {tokens : List Token} {chains : List (List Link)}
    (hchains : ChainsOf tokens chains) : chains ≠ [] := by
  cases hchains with
  | single hchain => exact List.cons_ne_nil _ _
  | cons text hchain hbefore hbehind hrest => exact List.cons_ne_nil _ _

theorem Grammar.chains_ne_nil_of_sheetOf {tokens : List Token} {rules : List Grammar.Rule}
    (hsheet : SheetOf tokens rules) : ∀ rule ∈ rules, rule.chains ≠ [] := by
  induction hsheet with
  | nil =>
    intro rule hrule
    cases hrule
  | blank text hrest ih => exact ih
  | rule hfirst hrest ih =>
    intro rule hrule
    rcases List.mem_cons.mp hrule with rfl | hrule
    · obtain ⟨opening, closing, hhead, hgap, hinside⟩ := hfirst
      exact chains_ne_nil_of_chainsOf hhead
    · exact ih rule hrule

theorem selectors_ne_nil_of_written {source : List Char} {rules : List WrittenRule}
    (hwritten : written source = .ok rules) : ∀ rule ∈ rules, rule.selectors ≠ [] := by
  unfold written at hwritten
  split at hwritten
  · cases hwritten
  · next list hcut =>
    intro rule hrule hnil
    have hsheet := sheetOf_readRules (spaced_tokens hcut) hwritten
    apply Grammar.chains_ne_nil_of_sheetOf hsheet _ (List.mem_map_of_mem hrule)
    rw [WrittenRule.parts, hnil, List.map_nil]

theorem mem_of_mem_declare {declarations : List Declaration} {next declared : Declaration}
    (hdeclared : declared ∈ declare declarations next) : declared ∈ declarations ∨ declared = next := by
  rcases List.mem_append.mp hdeclared with hkept | hlast
  · exact .inl (List.mem_of_mem_filter hkept)
  · exact .inr (List.mem_singleton.mp hlast)

theorem mem_of_mem_foldl_declare {accepted declarations : List Declaration} {declared : Declaration}
    (hdeclared : declared ∈ accepted.foldl declare declarations) :
    declared ∈ declarations ∨ declared ∈ accepted := by
  induction accepted generalizing declarations with
  | nil => exact .inl hdeclared
  | cons next accepted ih =>
    rcases ih hdeclared with hfirst | hrest
    · rcases mem_of_mem_declare hfirst with hbefore | rfl
      · exact .inl hbefore
      · exact .inr List.mem_cons_self
    · exact .inr (List.mem_cons_of_mem _ hrest)

/-- A declaration of a rule is one that the block declares. -/
theorem WrittenRule.exists_declares {rule : WrittenRule} {declared : Declaration}
    (hdeclared : declared ∈ rule.declarations) : ∃ written ∈ rule.block, written.Declares declared := by
  rcases mem_of_mem_foldl_declare hdeclared with hnone | haccepted
  · cases hnone
  · obtain ⟨written, hwritten, hjudge⟩ := List.mem_filterMap.mp haccepted
    refine ⟨written, hwritten, WrittenDeclaration.judge_eq_ok_iff.mp ?_⟩
    cases hverdict : written.judge with
    | error complaint => simp [hverdict, Except.toOption] at hjudge
    | ok found =>
      rw [hverdict] at hjudge
      exact congrArg Except.ok (Option.some.inj hjudge)

theorem Parsed.wellFormed {sheet : Sheet} (hparsed : sheet.Parsed) {place : Nat} {rule : Rule}
    (hrule : sheet.rules[place]? = some rule) : rule.WellFormed place := by
  have hdistinct := hparsed.pairwise_declarations (Array.mem_iff_getElem?.mpr ⟨place, hrule⟩)
  have horder := hparsed.order_eq hrule
  obtain ⟨source, record, hparse⟩ := hparsed
  obtain ⟨rules, hwritten, rfl⟩ := exists_written_of_parse hparse
  simp only [ofRules, List.getElem?_toArray, getElem?_rulesFrom, Nat.zero_add,
    Option.map_eq_some_iff] at hrule
  obtain ⟨written, hplace, rfl⟩ := hrule
  refine ⟨selectors_ne_nil_of_written hwritten _ (List.mem_of_getElem? hplace),
    fun chain _ => chain.counted, horder, hdistinct, ?_⟩
  intro declared hdeclared
  obtain ⟨_, -, hdeclares⟩ := WrittenRule.exists_declares hdeclared
  exact hdeclares.admits

end Sheet

/-! ### Typed views -/

/-- The descriptors of the catalog: each attribute with its type. -/
inductive Descriptor.InCatalog : {α : Type} → [StyleValue α] → Descriptor α → Prop
  | font : InCatalog Descriptor.font
  | marginLeft : InCatalog Descriptor.marginLeft
  | marginRight : InCatalog Descriptor.marginRight
  | marginTop : InCatalog Descriptor.marginTop
  | marginBottom : InCatalog Descriptor.marginBottom
  | width : InCatalog Descriptor.width
  | height : InCatalog Descriptor.height

/-- A descriptor of the catalog reads every value that its attribute admits. -/
theorem Descriptor.InCatalog.exists_typed {α : Type} [StyleValue α] {descriptor : Descriptor α}
    (hcatalog : descriptor.InCatalog) {value : Value} (hadmits : descriptor.target.Admits value) :
    ∃ typed : α, StyleValue.ofValue? value = some typed := by
  have haccepts := Attribute.accepts_iff.mpr hadmits
  cases hcatalog <;> exact Option.isSome_iff_exists.mp haccepts

/-- The value that wins stands in a rule that was read. -/
theorem admits_of_winning {sheets : List Sheet} (hparsed : ∀ sheet ∈ sheets, sheet.Parsed)
    {indexed : Bool} {target : Attribute} {path : Path} {value : Value}
    (hwinning : Resolver.winning ⟨sheets, indexed⟩ target path = some value) :
    target.Admits value := by
  obtain ⟨weight, ⟨sheet, rule, hsheet, hrule, hdeclared, -⟩, -⟩ :=
    (winner_eq_some_iff hparsed).mp hwinning
  have hwell := (hparsed sheet (List.mem_of_getElem? hsheet)).wellFormed hrule
  exact hwell.admits _ hdeclared

/-- **Rules that were read are well formed, and what wins is resolved.** In sheets read from texts
every rule is well formed at its place. Where a value wins for an attribute of the catalog, the
descriptor has a typed view of it, and this is what the attribute resolves to. -/
theorem well_formed_and_resolved (sheets : List Sheet) (hparsed : ∀ sheet ∈ sheets, sheet.Parsed) :
    (∀ sheet ∈ sheets, ∀ (place : Nat) (rule : Rule), sheet.rules[place]? = some rule →
      rule.WellFormed place) ∧
    ∀ (indexed : Bool) (path : Path) {α : Type} [StyleValue α] (descriptor : Descriptor α),
      descriptor.InCatalog →
      ∀ value, Resolver.winning ⟨sheets, indexed⟩ descriptor.target path = some value →
        ∃ typed : α, StyleValue.ofValue? value = some typed ∧
          Resolver.resolve ⟨sheets, indexed⟩ descriptor path = typed := by
  constructor
  · intro sheet hsheet place rule hrule
    exact (hparsed sheet hsheet).wellFormed hrule
  · intro indexed path α _ descriptor hcatalog value hwinning
    obtain ⟨typed, htyped⟩ := hcatalog.exists_typed (admits_of_winning hparsed hwinning)
    refine ⟨typed, htyped, ?_⟩
    rw [Resolver.resolve, hwinning, Descriptor.typed, Option.bind_some, htyped, Option.getD_some]

/-- A bare zero wins over a percentage, and is resolved as a length. -/
theorem well_formed_and_resolved_of_zero :
    ∃ sheet : Sheet, Sheet.parse "*{width:5%}p.x{width:0}" = .ok sheet ∧
      (∀ (place : Nat) (rule : Rule), sheet.rules[place]? = some rule → rule.WellFormed place) ∧
      ∃ typed : Size, StyleValue.ofValue? Value.zero = some typed ∧
        Resolver.resolve ⟨[sheet], true⟩ Descriptor.width [⟨"p", some "x", none⟩] = typed := by
  have hwritten : Sheet.written "*{width:5%}p.x{width:0}".toList = .ok
      [⟨[.single ⟨none, none, none⟩],
        [⟨"width", [⟨.number (Number.Single.ofRatio false 5 1) "%", ['5', '%']⟩], 21⟩]⟩,
        ⟨[.single ⟨some "p", some "x", none⟩],
          [⟨"width", [⟨.number (Number.Single.ofRatio false 0 1) "", ['0']⟩], 8⟩]⟩] := by
    decide +kernel
  have hparse := Sheet.parse_of_written true hwritten
  obtain ⟨hwell, hresolved⟩ := well_formed_and_resolved [_]
    (List.forall_mem_cons.mpr ⟨⟨_, true, hparse⟩, List.forall_mem_nil _⟩)
  refine ⟨_, hparse, hwell _ (List.mem_singleton_self _), ?_⟩
  apply hresolved true [⟨"p", some "x", none⟩] Descriptor.width .width
  decide +kernel

end WidgetStyle
