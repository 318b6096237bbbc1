import WidgetStyle.Proofs.Diagnostics
import WidgetStyle.Proofs.Exchange
import WidgetStyle.Proofs.WellFormed

/-!
# Where the dimensions of a style come from

A dimension of a style is the initial zero, or it won. Then it is declared in one of the
stylesheets, and the text of that stylesheet has it as a numeral with a unit behind it. So whether a
style can be exchanged is a matter of the numerals that were written: it can, unless one that won is
too large.
-/

namespace WidgetStyle

open Number (Single Numeral)

namespace Sheet

/-! ### Numerals of a text -/

/-- The text has a token that consists of the numeral and the unit. -/
def Writes (source : String) (numeral : Numeral) (unit : LengthUnit) : Prop :=
  ∃ list, tokens source.toList = .ok list ∧
    ⟨.number numeral.toSingle unit.suffix, numeral.text ++ unit.suffix.toList⟩ ∈ list

/-- A token of the value of a declaration stands in the text. -/
theorem mem_of_mem_value {list : List Token} {rules : List Grammar.Rule}
    (hsheet : Grammar.SheetOf list rules) (hproper : ∀ token ∈ list, token.Proper)
    {written : WrittenDeclaration} (hwritten : written ∈ rules.flatMap Grammar.Rule.block)
    {token : Token} (htoken : token ∈ written.value) : token ∈ list := by
  obtain ⟨front, gap, colon, stop, back, rfl, -⟩ := exists_standsIn hsheet hproper hwritten
  simp [htoken]

/-- A dimension that a declaration in a stylesheet declares is written in its text. -/
theorem exists_writes_of_declared {source : String} {record : Bool} {sheet : Sheet}
    (hparse : parse source record = .ok sheet) {place : Nat} {rule : Rule}
    (hrule : sheet.rules[place]? = some rule) {target : Attribute} {d : Dimension}
    (hdeclared : ⟨target, .dimension d⟩ ∈ rule.declarations) :
    ∃ numeral, Writes source numeral d.unit ∧ d.value = numeral.toSingle := by
  obtain ⟨rules, hwritten, rfl⟩ := exists_written_of_parse hparse
  simp only [ofRules, List.getElem?_toArray, getElem?_rulesFrom, Nat.zero_add,
    Option.map_eq_some_iff] at hrule
  obtain ⟨written, hplace, rfl⟩ := hrule
  obtain ⟨declaration, hblock, hdeclares⟩ := WrittenRule.exists_declares hdeclared
  obtain ⟨token, hfilter, hmeans⟩ := hdeclares.means
  obtain ⟨list, hcut, hsheet, -⟩ := exists_sheetOf_of_written hwritten
  have htoken : token ∈ list := by
    have hall : declaration ∈ (rules.map WrittenRule.parts).flatMap Grammar.Rule.block := by
      apply List.mem_flatMap.mpr
      exact ⟨written.parts, List.mem_map_of_mem (List.mem_of_getElem? hplace), hblock⟩
    apply mem_of_mem_value hsheet (proper_of_mem_tokens hcut) hall
    apply List.mem_of_mem_filter
    rw [hfilter]
    exact List.mem_singleton_self token
  obtain ⟨kind, text⟩ := token
  cases hmeans with
  | dimension amount unit =>
    obtain ⟨numeral, -, -, rfl, htext⟩ := exists_numeral_of_mem_tokens hcut htoken rfl
    exact ⟨numeral, ⟨list, hcut, htext ▸ htoken⟩, rfl⟩

end Sheet

/-! ### Dimensions of a style -/

namespace Resolver

variable {resolver : Resolver} {path : Path} {d : Dimension}

/-- The dimension is the initial zero, or it won for some attribute. -/
def ZeroOrWon (resolver : Resolver) (path : Path) (d : Dimension) : Prop :=
  d = .zero ∨ ∃ target, resolver.winning target path = some (.dimension d)

theorem zeroOrWon_of_margin {descriptor : Descriptor Dimension}
    (hinitial : descriptor.initial = .zero) :
    resolver.ZeroOrWon path (resolver.resolve descriptor path) := by
  rw [resolve, Descriptor.typed, hinitial]
  cases hwinning : resolver.winning descriptor.target path with
  | none => exact .inl rfl
  | some value =>
    cases value with
    | dimension d => exact .inr ⟨_, hwinning⟩
    | zero => exact .inl rfl
    | keyword name => exact .inl rfl
    | auto => exact .inl rfl

theorem zeroOrWon_of_size {descriptor : Descriptor Size} (hinitial : descriptor.initial = .auto)
    (hd : d ∈ (resolver.resolve descriptor path).dimensions) : resolver.ZeroOrWon path d := by
  rw [resolve, Descriptor.typed, hinitial] at hd
  cases hwinning : resolver.winning descriptor.target path with
  | none =>
    rw [hwinning] at hd
    cases hd
  | some value =>
    rw [hwinning] at hd
    cases value with
    | dimension e =>
      obtain rfl := List.mem_singleton.mp hd
      exact .inr ⟨_, hwinning⟩
    | zero => exact .inl (List.mem_singleton.mp hd)
    | keyword name => cases hd
    | auto => cases hd

theorem zeroOrWon_of_mem_dimensions (hd : d ∈ (resolver.style path).dimensions) :
    resolver.ZeroOrWon path d := by
  rcases List.mem_append.mp hd with hd | hheight
  · rcases List.mem_append.mp hd with hmargin | hwidth
    · have hall : ∀ e ∈ (resolver.style path).margin.dimensions, resolver.ZeroOrWon path e := by
        simp only [Edges.dimensions, List.forall_mem_cons]
        exact ⟨zeroOrWon_of_margin rfl, zeroOrWon_of_margin rfl, zeroOrWon_of_margin rfl,
          zeroOrWon_of_margin rfl, List.forall_mem_nil _⟩
      exact hall d hmargin
    · exact zeroOrWon_of_size rfl hwidth
  · exact zeroOrWon_of_size rfl hheight

end Resolver

/-! ### Exchanging computed styles -/

/-- The stylesheets that were read from texts, one from each. -/
def Sheet.ReadFrom (sources : List String) (sheets : List Sheet) : Prop :=
  List.Forall₂ (fun source sheet => ∃ record, parse source record = .ok sheet) sources sheets

theorem Sheet.ReadFrom.exists_source {sources : List String} {sheets : List Sheet}
    (hsheets : ReadFrom sources sheets) {sheet : Sheet} (hsheet : sheet ∈ sheets) :
    ∃ source ∈ sources, ∃ record, parse source record = .ok sheet := by
  induction hsheets with
  | nil => cases hsheet
  | @cons source first sources sheets hfirst hrest ih =>
    rcases List.mem_cons.mp hsheet with rfl | hsheet
    · exact ⟨source, List.mem_cons_self, hfirst⟩
    · obtain ⟨source', hsource, hparse⟩ := ih hsheet
      exact ⟨source', List.mem_cons_of_mem _ hsource, hparse⟩

/-- The dimension is written in one of the texts with a numeral that is too large. -/
def Dimension.Overflows (sources : List String) (d : Dimension) : Prop :=
  ∃ source ∈ sources, ∃ numeral : Numeral, Sheet.Writes source numeral d.unit ∧
    d.value = numeral.toSingle ∧ (Single.limit : ℚ) ≤ numeral.value

section Sheets

variable {sources : List String} {sheets : List Sheet} (hsheets : Sheet.ReadFrom sources sheets)
  {indexed : Bool} {path : Path}

include hsheets

/-- What won is written in one of the texts. -/
theorem exists_writes_of_winning {target : Attribute} {d : Dimension}
    (hwinning : Resolver.winning ⟨sheets, indexed⟩ target path = some (.dimension d)) :
    ∃ source ∈ sources, ∃ numeral, Sheet.Writes source numeral d.unit ∧
      d.value = numeral.toSingle := by
  have hparsed : ∀ sheet ∈ sheets, sheet.Parsed := by
    intro sheet hsheet
    obtain ⟨source, -, record, hparse⟩ := hsheets.exists_source hsheet
    exact ⟨source, record, hparse⟩
  obtain ⟨weight, ⟨sheet, rule, hsheet, hrule, hdeclared, -⟩, -⟩ :=
    (winner_eq_some_iff hparsed).mp hwinning
  obtain ⟨source, hsource, record, hparse⟩ :=
    hsheets.exists_source (List.mem_of_getElem? hsheet)
  exact ⟨source, hsource, Sheet.exists_writes_of_declared hparse hrule hdeclared⟩

/-- The dimensions of a style that are not finite are those that overflow. -/
theorem overflows_iff {d : Dimension}
    (hd : d ∈ (Resolver.style ⟨sheets, indexed⟩ path).dimensions) :
    d.Overflows sources ↔ d.isFinite = false := by
  constructor
  · rintro ⟨source, hsource, numeral, hwrites, hvalue, hlimit⟩
    rw [Dimension.isFinite, hvalue, ← Bool.not_eq_true, numeral.isFinite_toSingle_iff]
    exact not_lt.mpr hlimit
  · intro hinfinite
    rcases Resolver.zeroOrWon_of_mem_dimensions hd with rfl | ⟨target, hwinning⟩
    · cases hinfinite
    · obtain ⟨source, hsource, numeral, hwrites, hvalue⟩ :=
        exists_writes_of_winning hsheets hwinning
      refine ⟨source, hsource, numeral, hwrites, hvalue, ?_⟩
      rw [Dimension.isFinite, hvalue, ← Bool.not_eq_true,
        numeral.isFinite_toSingle_iff] at hinfinite
      exact not_lt.mp hinfinite

/-- **A computed style is read back as it was**, unless one of its dimensions is written with a
numeral that is too large. In this case nothing is read back. -/
theorem exchange?_style_iff {style : Style}
    (hstyle : Resolver.style ⟨sheets, indexed⟩ path = style) :
    (style.exchange? = some style ↔ ∀ d ∈ style.dimensions, ¬ d.Overflows sources) ∧
    (style.exchange? = none ↔ ∃ d ∈ style.dimensions, d.Overflows sources) := by
  have hfinite : style.dimensions.all Dimension.isFinite = true ↔
      ∀ d ∈ style.dimensions, ¬ d.Overflows sources := by
    rw [List.all_eq_true]
    apply forall₂_congr
    intro d hd
    rw [← hstyle] at hd
    rw [overflows_iff hsheets hd, Bool.not_eq_false]
  have hsome : (∃ d ∈ style.dimensions, d.Overflows sources) ↔
      ¬ ∀ d ∈ style.dimensions, ¬ d.Overflows sources := by
    simp only [not_forall, not_not, exists_prop]
  rw [hsome, ← hfinite, style.exchange?_eq]
  by_cases hall : style.dimensions.all Dimension.isFinite = true
  · simp [hall]
  · simp [hall]

end Sheets

/-- A negative zero and a decimal between two numbers are read back. -/
theorem exchange?_style_iff_of_decimals :
    ∃ sheet style, Sheet.ReadFrom ["a{margin-left:-0px;width:16777217.1%}"] [sheet] ∧
      Resolver.style ⟨[sheet], true⟩ [⟨"a", none, none⟩] = style ∧
      style.margin.left = ⟨Single.ofRatio true 0 1, .px⟩ ∧
      style.width = .length ⟨Single.ofRatio false 16777218 1, .percent⟩ ∧
      style.exchange? = some style := by
  have hwritten : Sheet.written "a{margin-left:-0px;width:16777217.1%}".toList = .ok
      [⟨[.single ⟨some "a", none, none⟩],
        [⟨"margin-left", [⟨.number (Single.ofRatio true 0 1) "px", ['-', '0', 'p', 'x']⟩], 35⟩,
          ⟨"width", [⟨.number (Single.ofRatio false 16777218 1) "%",
            ['1', '6', '7', '7', '7', '2', '1', '7', '.', '1', '%']⟩], 18⟩]⟩] := by
    decide +kernel
  have hparse := Sheet.parse_of_written true hwritten
  have hsheets : Sheet.ReadFrom [_] [_] := .cons ⟨true, hparse⟩ .nil
  obtain ⟨hread, -⟩ := exchange?_style_iff hsheets
    (rfl : Resolver.style ⟨_, true⟩ [⟨"a", none, none⟩] = _)
  refine ⟨_, _, hsheets, rfl, ?_, ?_, hread.mpr ?_⟩
  · decide +kernel
  · decide +kernel
  · intro d hd
    rw [overflows_iff hsheets hd, Bool.not_eq_false]
    revert d
    rw [← List.all_eq_true]
    decide +kernel

/-- A numeral of forty digits is accepted, and the style with it is not read back. -/
theorem not_exchange?_of_forty_digits :
    ∃ sheet style,
      Sheet.parse "a { margin-left: 9999999999999999999999999999999999999999px }" true =
        .ok sheet ∧
      Resolver.style ⟨[sheet], true⟩ [⟨"a", none, none⟩] = style ∧ style.exchange? = none := by
  have hwritten : Sheet.written
      "a { margin-left: 9999999999999999999999999999999999999999px }".toList = .ok
      [⟨[.single ⟨some "a", none, none⟩],
        [⟨"margin-left", [⟨.blank, [' ']⟩, ⟨.number (.infinite false) "px",
          List.replicate 40 '9' ++ ['p', 'x']⟩, ⟨.blank, [' ']⟩], 57⟩]⟩] := by
    decide +kernel
  refine ⟨_, _, Sheet.parse_of_written true hwritten, rfl, ?_⟩
  rw [Style.exchange?_eq, if_neg]
  decide +kernel

end WidgetStyle
