import Mathlib.Data.List.Forall2
import Mathlib.Logic.Relation
import WidgetStyle.Proofs.Computed
import WidgetStyle.Proofs.Equality

/-!
# Equal values are interchangeable

The cascade weighs rules and never looks at the values that they declare. So a relation that holds
between the declared values of two rows of stylesheets, place by place, holds between the values
that win (`winner_related`), and if it is kept by typed readings, between the resolved values. Taken
for the relation, equality gives what this module is after: whoever replaces declared values by
equal ones gets equal styles, whether in stylesheets or in their texts.
-/

namespace WidgetStyle

open Number (Single)

/-! ### Sheets with related values -/

/-- The declarations are of one attribute, and their values are related. -/
structure Declaration.Related (R : Value → Value → Prop) (before after : Declaration) : Prop where
  target_eq : after.target = before.target
  value : R before.value after.value

/-- The rules differ in their values only, which are related place by place. -/
structure Rule.Related (R : Value → Value → Prop) (before after : Rule) : Prop where
  selectors_eq : after.selectors = before.selectors
  order_eq : after.order = before.order
  declarations : List.Forall₂ (Declaration.Related R) before.declarations after.declarations

/-- The rules of the sheets differ in their values only, which are related place by place. -/
def Sheet.Related (R : Value → Value → Prop) (before after : Sheet) : Prop :=
  List.Forall₂ (Rule.Related R) before.rules.toList after.rules.toList

/-- The candidates have one weight, and their values are related. -/
structure Candidate.Related (R : Value → Value → Prop) (before after : Candidate) : Prop where
  weight_eq : after.weight = before.weight
  value : R before.value after.value

/-- A search that asks related elements alike stops at the same place. -/
theorem rel_find? {α β : Type} {R : α → β → Prop} {p : α → Bool} {q : β → Bool} {list : List α}
    {list' : List β} (hask : ∀ a b, R a b → p a = q b) (hlists : List.Forall₂ R list list') :
    Option.Rel R (list.find? p) (list'.find? q) := by
  induction hlists with
  | nil => exact .none
  | cons hfirst hrest ih =>
    rw [List.find?_cons, List.find?_cons, hask _ _ hfirst]
    split
    · exact .some hfirst
    · exact ih

section Cascade

variable {R : Value → Value → Prop}

theorem Rule.Related.declaration {before after : Rule} (hrules : before.Related R after)
    (target : Attribute) :
    Option.Rel R (before.declaration target) (after.declaration target) := by
  have hask (declared declared' : Declaration) (hdeclared : declared.Related R declared') :
      (declared.target == target) = (declared'.target == target) := by
    rw [hdeclared.target_eq]
  exact (rel_find? hask hrules.declarations).map fun _ _ hdeclared => hdeclared.value

theorem Rule.Related.candidate? {before after : Rule} (hrules : before.Related R after)
    (number : Nat) (target : Attribute) (path : Path) :
    Option.Rel (Candidate.Related R) (before.candidate? number target path)
      (after.candidate? number target path) := by
  have hmatching : after.matchingSpecificity path = before.matchingSpecificity path := by
    rw [matchingSpecificity, matchingSpecificity, hrules.selectors_eq]
  rw [Rule.candidate?, Rule.candidate?, hmatching, hrules.order_eq]
  apply (hrules.declaration target).bind
  intro value value' hvalue
  cases before.matchingSpecificity path with
  | none => exact .none
  | some specificity => exact .some ⟨rfl, hvalue⟩

/-- Which of two candidates is the heavier one does not depend on their values. -/
theorem Candidate.better_related {best best' : Option Candidate} {next next' : Candidate}
    (hbest : Option.Rel (Candidate.Related R) best best') (hnext : next.Related R next') :
    Option.Rel (Candidate.Related R) (better best next) (better best' next') := by
  cases hbest with
  | none => exact .some hnext
  | some hcurrent =>
    rw [better, better, hcurrent.weight_eq, hnext.weight_eq]
    split
    · exact .some hnext
    · exact .some hcurrent

section Sheets

variable {sheets sheets' : List Sheet} (hsheets : List.Forall₂ (Sheet.Related R) sheets sheets')

include hsheets

theorem candidatesFrom_related (target : Attribute) (path : Path) (number : Nat) :
    List.Forall₂ (Candidate.Related R) (candidatesFrom false target path number sheets)
      (candidatesFrom false target path number sheets') := by
  induction hsheets generalizing number with
  | nil => exact .nil
  | cons hsheet hrest ih =>
    apply List.rel_append
    · exact List.rel_filterMap (fun _ _ hrules => hrules.candidate? number target path) hsheet
    · exact ih (number + 1)

/-- **The cascade does not look at values**: what wins in the one row of sheets is related to what
wins in the other. -/
theorem winner_related (indexed indexed' : Bool) (target : Attribute) (path : Path) :
    Option.Rel R (winner sheets indexed target path) (winner sheets' indexed' target path) := by
  rw [winner_indexed, winner_indexed sheets', winner, winner]
  have hbest : Option.Rel (Candidate.Related R)
      ((candidatesFrom false target path 0 sheets).foldl Candidate.better none)
      ((candidatesFrom false target path 0 sheets').foldl Candidate.better none) := by
    refine List.rel_foldl ?_ .none (candidatesFrom_related hsheets target path 0)
    intro best best' hbest next next' hnext
    exact Candidate.better_related hbest hnext
  exact hbest.map fun _ _ hcandidates => hcandidates.value

end Sheets

/-- Readings that keep the relation of the values resolve to related values. -/
theorem Resolver.resolve_related {before after : Resolver}
    (hsheets : List.Forall₂ (Sheet.Related R) before.sheets after.sheets) {α : Type}
    [StyleValue α] {S : α → α → Prop}
    (hread : ∀ a b, R a b → Option.Rel S (StyleValue.ofValue? a) (StyleValue.ofValue? b))
    (descriptor : Descriptor α) (hinitial : S descriptor.initial descriptor.initial)
    (path : Path) : S (before.resolve descriptor path) (after.resolve descriptor path) := by
  have hwinning := winner_related hsheets before.indexed after.indexed descriptor.target path
  exact (hwinning.bind hread).getD hinitial

end Cascade

/-! ### Values that are replaced -/

/-- What stands there now is the same value or an equal one. -/
def Value.Kept : Value → Value → Prop :=
  Relation.ReflGen fun a b => a.equals b = true

def Dimension.Kept : Dimension → Dimension → Prop :=
  Relation.ReflGen fun d e => d.equals e = true

def Size.Kept : Size → Size → Prop :=
  Relation.ReflGen fun s t => s.equals t = true

theorem Value.kept_of_equals {a b : Value} (hequals : a.equals b = true) : a.Kept b :=
  .single hequals

/-- A reading that reads equal values alike reads a value alike that is kept. -/
theorem Value.Kept.ofValue? {α : Type} [StyleValue α] {S : α → α → Prop}
    (hread : ∀ a b : Value, a.equals b = true →
      Option.Rel S (StyleValue.ofValue? a) (StyleValue.ofValue? b))
    {a b : Value} (hkept : a.Kept b) :
    Option.Rel (Relation.ReflGen S) (StyleValue.ofValue? a) (StyleValue.ofValue? b) := by
  cases hkept with
  | refl => exact Option.rel_self_iff.mpr fun _ _ => .refl
  | single hequals => exact (hread a b hequals).imp fun _ _ => .single

theorem Value.Kept.accepts_eq {a b : Value} (hkept : a.Kept b) (target : Attribute) :
    target.accepts a = target.accepts b := by
  cases hkept with
  | refl => rfl
  | single hequals => exact Attribute.accepts_congr hequals target

/-- What is kept is equal, if it can be compared at all. -/
theorem Value.Kept.equals {a b : Value} (hkept : a.Kept b) (hcomparable : a.Comparable) :
    a.equals b = true := by
  cases hkept with
  | refl => exact equals_self_iff.mpr hcomparable
  | single hequals => exact hequals

/-! ### Sheets without not-a-number -/

/-- No declared value is not-a-number. -/
def Sheet.Comparable (sheet : Sheet) : Prop :=
  ∀ rule ∈ sheet.rules, ∀ declared ∈ rule.declarations, declared.value.Comparable

namespace Number

theorem Single.ofRatio_ne_nan (negative : Bool) (num den : Nat) :
    ofRatio negative num den ≠ .nan := by
  rw [ofRatio_eq_elim]
  dsimp only
  cases Format.single.round num den with
  | none => simp
  | some magnitude => simp

theorem Numeral.toSingle_ne_nan (numeral : Numeral) : numeral.toSingle ≠ .nan := by
  unfold toSingle
  dsimp only
  split
  · exact Single.ofRatio_ne_nan _ _ _
  · split
    · nofun
    · split
      · exact Single.ofRatio_ne_nan _ _ _
      · exact Single.ofRatio_ne_nan _ _ _

end Number

/-- No numeral stands for not-a-number, so no sheet that was read has one. -/
theorem Sheet.Parsed.comparable {sheet : Sheet} (hparsed : sheet.Parsed) : sheet.Comparable := by
  obtain ⟨source, record, hparse⟩ := hparsed
  intro rule hrule declared hdeclared
  obtain ⟨place, hplace⟩ := Array.mem_iff_getElem?.mp hrule
  rw [Value.comparable_iff]
  intro d hd
  obtain ⟨target, value⟩ := declared
  cases value with
  | dimension e =>
    obtain rfl : e = d := Option.some.inj hd
    obtain ⟨numeral, -, hvalue⟩ := exists_writes_of_declared hparse hplace hdeclared
    rw [Dimension.Comparable, hvalue]
    exact numeral.toSingle_ne_nan
  | zero =>
    obtain rfl : Dimension.zero = d := Option.some.inj hd
    exact Dimension.comparable_zero
  | keyword name => cases hd
  | auto => cases hd

/-- Values that are kept in a sheet without not-a-number are equal. -/
theorem Sheet.Related.equals {before after : Sheet} (hsheets : before.Related Value.Kept after)
    (hcomparable : before.Comparable) :
    before.Related (fun a b => a.equals b = true) after := by
  have hall : ∀ rule ∈ before.rules.toList, ∀ declared ∈ rule.declarations,
      declared.value.Comparable := by
    intro rule hrule
    exact hcomparable rule (Array.mem_toList_iff.mp hrule)
  refine ((List.forall₂_and_left _ _).mpr ⟨hall, hsheets⟩).imp ?_
  rintro rule rule' ⟨hrule, hrelated⟩
  refine ⟨hrelated.selectors_eq, hrelated.order_eq, ?_⟩
  refine ((List.forall₂_and_left _ _).mpr ⟨hrule, hrelated.declarations⟩).imp ?_
  rintro declared declared' ⟨hdeclared, hkept⟩
  exact ⟨hkept.target_eq, hkept.value.equals hdeclared⟩

theorem forall₂_equals {sheets sheets' : List Sheet}
    (hsheets : List.Forall₂ (Sheet.Related Value.Kept) sheets sheets')
    (hcomparable : ∀ sheet ∈ sheets, sheet.Comparable) :
    List.Forall₂ (Sheet.Related fun a b => a.equals b = true) sheets sheets' := by
  refine ((List.forall₂_and_left _ _).mpr ⟨hcomparable, hsheets⟩).imp ?_
  rintro sheet sheet' ⟨hsheet, hrelated⟩
  exact hrelated.equals hsheet

/-! ### Texts with values that are replaced -/

namespace Sheet

/-- The declarations have the same name, and their values mean nothing, or the second one means
what the first one means or an equal value. -/
structure WrittenDeclaration.Kept (before after : WrittenDeclaration) : Prop where
  name_eq : after.name = before.name
  value? : Option.Rel Value.Kept before.value? after.value?

/-- The rules differ in the values of their declarations only, and these are kept. -/
structure WrittenRule.Kept (before after : WrittenRule) : Prop where
  selectors_eq : after.selectors = before.selectors
  block : List.Forall₂ WrittenDeclaration.Kept before.block after.block

theorem WrittenDeclaration.toOption_judge_eq (written : WrittenDeclaration) :
    written.judge.toOption = (Attribute.ofName? written.name).bind fun target =>
      (written.value?.filter target.accepts).map (⟨target, ·⟩) := by
  unfold judge
  cases Attribute.ofName? written.name with
  | none => rfl
  | some target =>
    dsimp only [Option.bind_some]
    cases written.value?.filter target.accepts <;> rfl

/-- Either both declarations are accepted or none of them is. -/
theorem WrittenDeclaration.Kept.judge {before after : WrittenDeclaration}
    (hwritten : before.Kept after) :
    Option.Rel (Declaration.Related Value.Kept) before.judge.toOption after.judge.toOption := by
  rw [toOption_judge_eq, toOption_judge_eq, hwritten.name_eq]
  cases Attribute.ofName? before.name with
  | none => exact .none
  | some target =>
    refine (hwritten.value?.filter ?_).map fun _ _ hkept => ⟨rfl, hkept⟩
    intro a b hkept
    exact hkept.accepts_eq target

theorem forall₂_declare {R : Value → Value → Prop} {declarations declarations' : List Declaration}
    {next next' : Declaration}
    (hdeclarations : List.Forall₂ (Declaration.Related R) declarations declarations')
    (hnext : next.Related R next') :
    List.Forall₂ (Declaration.Related R) (declare declarations next)
      (declare declarations' next') := by
  refine List.rel_append (List.rel_filter ?_ hdeclarations) (.cons hnext .nil)
  intro declared declared' hdeclared
  simp only [hdeclared.target_eq, hnext.target_eq]

theorem WrittenRule.Kept.rule {before after : WrittenRule} (hwritten : before.Kept after)
    (number : Nat) : (before.rule number).Related Value.Kept (after.rule number) := by
  refine ⟨hwritten.selectors_eq, rfl, ?_⟩
  have hjudged : List.Forall₂ (Declaration.Related Value.Kept)
      (before.block.filterMap fun declaration => declaration.judge.toOption)
      (after.block.filterMap fun declaration => declaration.judge.toOption) :=
    List.rel_filterMap (fun _ _ hdeclaration => hdeclaration.judge) hwritten.block
  refine List.rel_foldl ?_ .nil hjudged
  intro declarations declarations' hdeclarations next next' hnext
  exact forall₂_declare hdeclarations hnext

theorem forall₂_rulesFrom {rules rules' : List WrittenRule}
    (hrules : List.Forall₂ WrittenRule.Kept rules rules') (number : Nat) :
    List.Forall₂ (Rule.Related Value.Kept) (rulesFrom number rules) (rulesFrom number rules') := by
  induction hrules generalizing number with
  | nil => exact .nil
  | cons hfirst hrest ih => exact .cons (hfirst.rule number) (ih (number + 1))

/-- Texts that differ in values that are kept are read as sheets that differ in just these. -/
theorem exists_related_of_written {source source' : String} {rules rules' : List WrittenRule}
    (hwritten : written source.toList = .ok rules) (hwritten' : written source'.toList = .ok rules')
    (hrules : List.Forall₂ WrittenRule.Kept rules rules') (record record' : Bool) :
    ∃ before after, parse source record = .ok before ∧ parse source' record' = .ok after ∧
      before.Related Value.Kept after := by
  refine ⟨_, _, parse_of_written record hwritten, parse_of_written record' hwritten', ?_⟩
  exact forall₂_rulesFrom hrules 0

end Sheet

/-! ### Resolved values -/

/-- What the resolvers give for a path is the same, or equal in its place. -/
structure Resolver.Keeps (before after : Resolver) (path : Path) : Prop where
  winning : ∀ target,
    Option.Rel Value.Kept (before.winning target path) (after.winning target path)
  font_eq : ∀ descriptor : Descriptor FontRole,
    before.resolve descriptor path = after.resolve descriptor path
  dimension : ∀ descriptor : Descriptor Dimension,
    (before.resolve descriptor path).Kept (after.resolve descriptor path)
  size : ∀ descriptor : Descriptor Size,
    (before.resolve descriptor path).Kept (after.resolve descriptor path)

theorem FontRole.rel_ofValue? {a b : Value} (hab : a.equals b = true) :
    Option.Rel Eq (StyleValue.ofValue? a : Option FontRole) (StyleValue.ofValue? b) := by
  rw [ofValue?_congr hab, Option.rel_self_iff]
  exact fun _ _ => rfl

section Resolved

variable {before after : Resolver}

theorem Resolver.keeps
    (hsheets : List.Forall₂ (Sheet.Related Value.Kept) before.sheets after.sheets) (path : Path) :
    before.Keeps after path where
  winning target := winner_related hsheets before.indexed after.indexed target path
  font_eq descriptor := by
    have hkept := Resolver.resolve_related hsheets
      (fun _ _ => Value.Kept.ofValue? fun _ _ => FontRole.rel_ofValue?) descriptor .refl path
    rwa [Relation.reflGen_eq_self] at hkept
  dimension descriptor :=
    Resolver.resolve_related hsheets
      (fun _ _ => Value.Kept.ofValue? fun _ _ => Dimension.ofValue?_congr) descriptor .refl path
  size descriptor :=
    Resolver.resolve_related hsheets
      (fun _ _ => Value.Kept.ofValue? fun _ _ => Size.ofValue?_congr) descriptor .refl path

/-- Where all values are equal, so are the styles. -/
theorem Resolver.style_equals
    (hsheets : List.Forall₂ (Sheet.Related fun a b => a.equals b = true) before.sheets after.sheets)
    (path : Path) : (before.style path).equals (after.style path) = true := by
  have hfont : before.resolve .font path = after.resolve .font path :=
    Resolver.resolve_related hsheets (fun _ _ => FontRole.rel_ofValue?) .font rfl path
  have hmargin (descriptor : Descriptor Dimension) (hinitial : descriptor.initial = .zero) :
      (before.resolve descriptor path).equals (after.resolve descriptor path) = true := by
    refine Resolver.resolve_related hsheets (fun _ _ => Dimension.ofValue?_congr) descriptor ?_ path
    rw [hinitial]
    exact Dimension.equals_self_iff.mpr Dimension.comparable_zero
  have hsize (descriptor : Descriptor Size) (hinitial : descriptor.initial = .auto) :
      (before.resolve descriptor path).equals (after.resolve descriptor path) = true := by
    refine Resolver.resolve_related hsheets (fun _ _ => Size.ofValue?_congr) descriptor ?_ path
    rw [hinitial]
    rfl
  simp only [style, Style.equals, Edges.equals, hfont, hmargin, hsize, Descriptor.marginTop,
    Descriptor.marginRight, Descriptor.marginBottom, Descriptor.marginLeft, Descriptor.width,
    Descriptor.height, BEq.rfl, Bool.and_self]

end Resolved

/-- **Equal values are interchangeable.** Where no number is not-a-number, equality of values is an
equivalence. A bare zero is equal to zeros of both signs in pixels. Equal values are read alike. If
declared values of stylesheets are replaced by equal ones, then whatever wins and whatever is
resolved is the same as before or equal to it. A stylesheet that was read from a text declares no
not-a-number, and without one the winning values and the computed styles are equal. The values may
be replaced in the text as well: an equal value is accepted where the first one was. -/
theorem equal_values_interchangeable :
    Equivalence (fun a b : {value : Value // value.Comparable} => a.val.equals b.val = true) ∧
    (∀ d : Dimension,
      Value.equals .zero (.dimension d) = true ↔ d.isZero = true ∧ d.unit = .px) ∧
    (∀ a b : Value, a.equals b = true → a.ReadAlike b) ∧
    (∀ before after : Resolver,
      List.Forall₂ (Sheet.Related Value.Kept) before.sheets after.sheets → ∀ path,
        before.Keeps after path ∧
        ((∀ sheet ∈ before.sheets, sheet.Comparable) →
          (∀ target, Option.Rel (fun a b => a.equals b = true) (before.winning target path)
            (after.winning target path)) ∧
          (before.style path).equals (after.style path) = true)) ∧
    (∀ sheet : Sheet, sheet.Parsed → sheet.Comparable) ∧
    ∀ (source source' : String) (rules rules' : List Sheet.WrittenRule),
      Sheet.written source.toList = .ok rules → Sheet.written source'.toList = .ok rules' →
      List.Forall₂ Sheet.WrittenRule.Kept rules rules' → ∀ record record', ∃ before after,
        Sheet.parse source record = .ok before ∧ Sheet.parse source' record' = .ok after ∧
        before.Related Value.Kept after := by
  refine ⟨Value.equivalence_equals, fun _ => Value.zero_equals_dimension_iff,
    fun _ _ => Value.readAlike_of_equals, ?_, fun _ => Sheet.Parsed.comparable, ?_⟩
  · intro before after hsheets path
    refine ⟨Resolver.keeps hsheets path, ?_⟩
    intro hcomparable
    have hequals := forall₂_equals hsheets hcomparable
    exact ⟨fun target => winner_related hequals _ _ target path,
      Resolver.style_equals hequals path⟩
  · intro source source' rules rules' hwritten hwritten' hrules record record'
    exact Sheet.exists_related_of_written hwritten hwritten' hrules record record'

/-- Zeros of both signs, with a unit and without, each in the place of another. -/
theorem equal_values_interchangeable_of_zeros :
    Value.ReadAlike .zero (.dimension ⟨.finite true (.zero .single), .px⟩) ∧
    ∃ before after, Sheet.parse "a{margin-left:0;width:-0px;font:link}" = .ok before ∧
      Sheet.parse "a{margin-left:-0px;width:0;font:link}" = .ok after ∧
      (Resolver.style ⟨[before], true⟩ [⟨"a", none, none⟩]).equals
        (Resolver.style ⟨[after], true⟩ [⟨"a", none, none⟩]) = true ∧
      Resolver.style ⟨[before], true⟩ [⟨"a", none, none⟩] ≠
        Resolver.style ⟨[after], true⟩ [⟨"a", none, none⟩] := by
  have hwritten : Sheet.written "a{margin-left:0;width:-0px;font:link}".toList = .ok
      [⟨[.single ⟨some "a", none, none⟩],
        [⟨"margin-left", [⟨.number .zero "", ['0']⟩], 35⟩,
          ⟨"width", [⟨.number (.finite true (.zero .single)) "px", ['-', '0', 'p', 'x']⟩], 21⟩,
          ⟨"font", [⟨.word "link", ['l', 'i', 'n', 'k']⟩], 10⟩]⟩] := by
    decide +kernel
  have hwritten' : Sheet.written "a{margin-left:-0px;width:0;font:link}".toList = .ok
      [⟨[.single ⟨some "a", none, none⟩],
        [⟨"margin-left", [⟨.number (.finite true (.zero .single)) "px", ['-', '0', 'p', 'x']⟩], 35⟩,
          ⟨"width", [⟨.number .zero "", ['0']⟩], 18⟩,
          ⟨"font", [⟨.word "link", ['l', 'i', 'n', 'k']⟩], 10⟩]⟩] := by
    decide +kernel
  obtain ⟨-, -, hread, hresolved, hparsed, htexts⟩ := equal_values_interchangeable
  refine ⟨hread _ _ rfl, ?_⟩
  have hleft : Value.equals .zero (.dimension ⟨.finite true (.zero .single), .px⟩) = true := rfl
  have hwidth : Value.equals (.dimension ⟨.finite true (.zero .single), .px⟩) .zero = true := rfl
  obtain ⟨before, after, hparse, hparse', hsheets⟩ :=
    htexts _ _ _ _ hwritten hwritten' (.cons ⟨rfl, .cons ⟨rfl, .some (Value.kept_of_equals hleft)⟩
      (.cons ⟨rfl, .some (Value.kept_of_equals hwidth)⟩ (.cons ⟨rfl, .some .refl⟩ .nil))⟩ .nil)
      true true
  refine ⟨before, after, hparse, hparse', ?_, ?_⟩
  · obtain ⟨-, hequals⟩ := hresolved ⟨[before], true⟩ ⟨[after], true⟩ (.cons hsheets .nil)
      [⟨"a", none, none⟩]
    have hcomparable : before.Comparable := hparsed before ⟨_, true, hparse⟩
    exact (hequals (List.forall_mem_singleton.mpr hcomparable)).2
  · obtain rfl := Except.ok.inj ((Sheet.parse_of_written true hwritten).symm.trans hparse)
    obtain rfl := Except.ok.inj ((Sheet.parse_of_written true hwritten').symm.trans hparse')
    decide +kernel

end WidgetStyle
