import WidgetStyle.Proofs.Computed

/-!
# Numerals that are too small

A number without a unit stands for a value where it is zero, and it is asked after it has been
rounded. A quotient is rounded to zero exactly up to half of the least positive number, since the
tie at this place goes to the even side, which is zero. So besides the numerals that have only
zeros as digits, all that are this small are taken as zero (`zero_of_unitless`), and every other one
is complained about.
-/

namespace WidgetStyle

namespace Number

/-! ### Rounding to zero -/

theorem nearest_eq_zero_iff {num den : Nat} (hden : 0 < den) :
    nearest num den = 0 ↔ 2 * num ≤ den := by
  rcases Nat.lt_or_ge num den with hlt | hge
  · rw [nearest, Nat.div_eq_of_lt hlt, Nat.mod_eq_of_lt hlt]
    split
    · omega
    · split
      · omega
      · rw [if_pos rfl]
        omega
  · have hwhole : 0 < num / den := Nat.div_pos hge hden
    refine iff_of_false ?_ (by omega)
    unfold nearest
    split
    · omega
    · split <;> (try split) <;> omega

/-- A quotient is rounded to zero exactly up to half of the quantum. -/
theorem Format.roundUnits_eq_zero_iff {f : Format} (hprecision : 0 < f.precision) {num den : Nat}
    (hden : 0 < den) : f.roundUnits num den = 0 ↔ 2 * (num * 2 ^ f.scale) ≤ den := by
  have hstep : 0 < 2 ^ f.surplus (num * 2 ^ f.scale / den) := Nat.two_pow_pos _
  rw [roundUnits, Nat.mul_eq_zero, or_iff_left hstep.ne',
    nearest_eq_zero_iff (Nat.mul_pos hden hstep)]
  by_cases hsurplus : f.surplus (num * 2 ^ f.scale / den) = 0
  · rw [hsurplus, Nat.pow_zero, Nat.mul_one]
  · -- the quotient has more bits than the precision, so it is far from zero
    have habove := two_pow_surplus_le hprecision hsurplus
    have hstep' : 2 ^ f.surplus (num * 2 ^ f.scale / den) ≤ num * 2 ^ f.scale / den := by
      have hbits : 2 ^ (f.surplus (num * 2 ^ f.scale / den) + 1) ≤
          2 ^ (f.precision + f.surplus (num * 2 ^ f.scale / den)) :=
        Nat.pow_le_pow_right (by decide) (by omega)
      rw [Nat.pow_succ'] at hbits
      omega
    have hfloor := Nat.div_mul_le_self (num * 2 ^ f.scale) den
    have hmul := Nat.mul_le_mul_right den hstep'
    have hone : den ≤ 2 ^ f.surplus (num * 2 ^ f.scale / den) * den :=
      Nat.le_mul_of_pos_left den hstep
    rw [Nat.mul_comm den]
    constructor
    · intro hle
      omega
    · intro hle
      omega

namespace Single

theorem isZero_ofRatio_iff (negative : Bool) {num den : Nat} (hden : 0 < den) :
    (ofRatio negative num den).isZero = true ↔ num * 2 ^ 150 ≤ den := by
  have hzero : (ofRatio negative num den).isZero = true ↔ Format.single.roundUnits num den = 0 := by
    rw [ofRatio_eq_elim]
    dsimp only
    unfold Format.round
    split
    · simp [isZero]
    · next hceiling =>
      refine iff_of_false Bool.false_ne_true ?_
      intro hunits
      rw [hunits] at hceiling
      exact hceiling (Nat.two_pow_pos _)
  rw [hzero, Format.roundUnits_eq_zero_iff (by decide) hden, Nat.mul_left_comm]
  rfl

end Single

/-! ### Numerals -/

theorem Digit.value_eq_zero_iff (digits : List Digit) :
    value digits = 0 ↔ ∀ d ∈ digits, d = zero := by
  induction digits with
  | nil => exact iff_of_true rfl (List.forall_mem_nil _)
  | cons d digits ih =>
    have hpow : 0 < 10 ^ digits.length := Nat.pow_pos (by decide)
    rw [value_cons, Nat.add_eq_zero_iff, Nat.mul_eq_zero, or_iff_left hpow.ne', ih,
      List.forall_mem_cons]
    exact and_congr_left' ⟨fun hd => Fin.ext hd, fun hd => congrArg Fin.val hd⟩

namespace Numeral

/-- A numeral stands for zero exactly if all of its digits are zeros. -/
theorem value_eq_zero_iff (numeral : Numeral) :
    numeral.value = 0 ↔ ∀ d ∈ numeral.digits, d = Digit.zero := by
  have hpower : (10 : ℚ) ^ numeral.power ≠ 0 := zpow_ne_zero _ (by norm_num)
  rw [value, mul_eq_zero, or_iff_left hpower, Nat.cast_eq_zero, Digit.value_eq_zero_iff]

/-- **A numeral is zero as a number exactly up to half of the least positive number.** -/
theorem isZero_toSingle_iff (numeral : Numeral) :
    numeral.toSingle.isZero = true ↔ numeral.value ≤ 1 / 2 ^ 150 := by
  unfold toSingle
  dsimp only
  split
  · next hsmall =>
    -- far to the left, or zero
    have hless : numeral.value ≤ 1 / 2 ^ 150 := by
      rcases hsmall with hzero | hpoint
      · rw [value, hzero, Nat.cast_zero, zero_mul]
        positivity
      · calc numeral.value ≤ 10 ^ numeral.point := numeral.value_lt.le
          _ ≤ 10 ^ (-151 : Int) := zpow_le_zpow_right₀ (by norm_num) (by omega)
          _ ≤ 1 / 2 ^ 150 := by norm_num
    rw [Single.isZero_ofRatio_iff _ Nat.one_pos]
    exact iff_of_true (by decide) hless
  · next hlarge =>
    split
    · next hpoint =>
      -- far to the right
      have hmore : (1 / 2 ^ 150 : ℚ) < numeral.value := by
        calc (1 / 2 ^ 150 : ℚ) < 10 ^ (150 : Int) := by norm_num
          _ ≤ 10 ^ (numeral.point - 1) := zpow_le_zpow_right₀ (by norm_num) (by omega)
          _ ≤ numeral.value := le_value fun hzero => hlarge (Or.inl hzero)
      exact iff_of_false Bool.false_ne_true (not_le.mpr hmore)
    · have hbits : (0 : ℚ) < 2 ^ 150 := by positivity
      split
      · next hneg =>
        have hpos : 0 < 10 ^ numeral.power.natAbs := Nat.pow_pos (by decide)
        have hpower : numeral.power = -(numeral.power.natAbs : Int) := by omega
        rw [Single.isZero_ofRatio_iff _ hpos, value, le_div_iff₀ hbits]
        generalize numeral.power.natAbs = k at *
        rw [hpower, zpow_neg, zpow_natCast, mul_right_comm, ← div_eq_mul_inv,
          div_le_one (by exact_mod_cast hpos)]
        exact_mod_cast Iff.rfl
      · next hnonneg =>
        have hpower : numeral.power = (numeral.power.natAbs : Int) := by omega
        rw [Single.isZero_ofRatio_iff _ Nat.one_pos, value, le_div_iff₀ hbits]
        generalize numeral.power.natAbs = k at *
        rw [hpower, zpow_natCast]
        exact_mod_cast Iff.rfl

end Numeral

end Number

namespace Sheet

open Grammar
open Number (Numeral)

/-! ### Values without a unit -/

/-- The declaration is one of a margin, a width or a height, and its value is a single number
without a unit. -/
structure WrittenDeclaration.IsUnitless (written : WrittenDeclaration) (target : Attribute)
    (token : Token) : Prop where
  name_eq : target.name = written.name
  target_ne : target ≠ .font
  filter_eq : (written.value.filter fun token => token.kind != .blank) = [token]
  exists_kind : ∃ amount, token.kind = .number amount ""

/-- The slice of a value with one token that is not blank is the text of this token. -/
theorem SliceOf.eq_text {value : List Token} {slice : List Char} (hslice : SliceOf value slice)
    {token : Token} (hfilter : (value.filter fun token => token.kind != .blank) = [token]) :
    slice = token.text := by
  obtain ⟨before, middle, after, rfl, hblanks, hfirst, hlast, rfl⟩ := hslice
  have hbefore : (before.filter fun token => token.kind != .blank) = [] := by
    rw [List.filter_eq_nil_iff]
    intro token htoken
    simp [hblanks token (List.mem_append_left _ htoken)]
  have hafter : (after.filter fun token => token.kind != .blank) = [] := by
    rw [List.filter_eq_nil_iff]
    intro token htoken
    simp [hblanks token (List.mem_append_right _ htoken)]
  rw [List.filter_append, List.filter_append, hbefore, hafter, List.nil_append,
    List.append_nil] at hfilter
  cases middle with
  | nil => cases hfilter
  | cons first rest =>
    rw [List.filter_cons_of_pos (by simpa using hfirst first rfl)] at hfilter
    obtain ⟨rfl, hrest⟩ := List.cons.inj hfilter
    -- were there a token behind it, then the last one would not be blank
    obtain rfl : rest = [] := by
      by_contra hsome
      have hmem : rest.getLast hsome ∈ rest.filter fun token => token.kind != .blank := by
        rw [List.mem_filter]
        refine ⟨List.getLast_mem hsome, ?_⟩
        have hend : rest.getLast hsome ∈ (first :: rest).getLast? := by
          simp [List.getLast?_cons, List.getLast?_eq_some_getLast hsome]
        simpa using hlast (rest.getLast hsome) hend
      rw [hrest] at hmem
      cases hmem
    simp

namespace WrittenDeclaration

variable {written : WrittenDeclaration} {target : Attribute} {token : Token}

theorem IsUnitless.declares (hunitless : written.IsUnitless target token)
    {amount : Number.Single} (hkind : token.kind = .number amount "")
    (hzero : amount.isZero = true) : written.Declares ⟨target, .zero⟩ := by
  refine ⟨hunitless.name_eq, ⟨token, hunitless.filter_eq, ?_⟩, .zero hunitless.target_ne⟩
  rw [hkind]
  exact .zero hzero

theorem IsUnitless.isZero_of_valid (hunitless : written.IsUnitless target token)
    {amount : Number.Single} (hkind : token.kind = .number amount "") (hvalid : written.Valid) :
    amount.isZero = true := by
  obtain ⟨⟨target', value⟩, -, ⟨token', hfilter, hmeans⟩, -⟩ := hvalid
  obtain rfl : token = token' := by simpa using hunitless.filter_eq.symm.trans hfilter
  rw [hkind] at hmeans
  generalize hsuffix : "" = suffix at hmeans
  cases hmeans with
  | zero hzero => exact hzero
  | dimension amount unit =>
    cases unit with
    | px => exact absurd hsuffix (by decide)
    | percent => exact absurd hsuffix (by decide)

/-- A declaration that is not valid is complained about with the text of its number. -/
theorem IsUnitless.complaint_eq (hunitless : written.IsUnitless target token)
    {complaint : Complaint} (hcomplains : written.Complains complaint) :
    complaint = .outsideDomain target (String.ofList token.text) := by
  cases hcomplains with
  | unknownAttribute hname => exact absurd hunitless.name_eq (hname target)
  | @outsideDomain target' slice hname hvalid hslice =>
    have hsame : some target' = some target := by
      rw [← Attribute.ofName?_eq_some_iff.mpr hname,
        ← Attribute.ofName?_eq_some_iff.mpr hunitless.name_eq]
    rw [Option.some.inj hsame, ← hslice.eq_text hunitless.filter_eq, String.ofList_toList]

end WrittenDeclaration

/-- The place of a declaration in a stylesheet is its own. -/
theorem eq_of_left_eq {list : List Token} {rules : List Grammar.Rule}
    (hsheet : SheetOf list rules) (hproper : ∀ token ∈ list, token.Proper)
    {written other : WrittenDeclaration} (hwritten : written ∈ rules.flatMap Grammar.Rule.block)
    (hother : other ∈ rules.flatMap Grammar.Rule.block) (hleft : written.left = other.left) :
    written = other := by
  have hdescends := (descends_of_sheetOf hsheet hproper).pairwise
  have hapart : (rules.flatMap Grammar.Rule.block).Pairwise fun a b => a.left ≠ b.left :=
    hdescends.imp fun hlt => Nat.ne_of_gt hlt
  have hsymm : Std.Symm fun a b : WrittenDeclaration => a.left ≠ b.left := ⟨fun _ _ => Ne.symm⟩
  by_contra hne
  exact hapart.forall hwritten hother hne hleft

theorem exists_of_mem_diagnostics {source : List Char} {record : Bool}
    {found : List WrittenRule} {diagnostic : Diagnostic}
    (hdiagnostic : diagnostic ∈ if record then diagnose source found else []) :
    ∃ written ∈ found.flatMap WrittenRule.block,
      written.diagnostic? source = some diagnostic := by
  cases record with
  | true => exact List.mem_filterMap.mp hdiagnostic
  | false => cases hdiagnostic

/-- No diagnostic stands at a declaration that is valid. -/
theorem offset_ne_of_valid {source : List Char} {list : List Token} {found : List WrittenRule}
    (hcut : tokens source = .ok list) (hsheet : SheetOf list (found.map WrittenRule.parts))
    {written : WrittenDeclaration} (hmem : written ∈ found.flatMap WrittenRule.block)
    (hvalid : written.Valid) {record : Bool} {diagnostic : Diagnostic}
    (hdiagnostic : diagnostic ∈ if record then diagnose source found else [])
    {front : List Token} (hfront : written.StandsIn front list) :
    diagnostic.position.offset ≠ byteLengthOf front := by
  have hproper := proper_of_mem_tokens hcut
  obtain ⟨other, hother, hsome⟩ := exists_of_mem_diagnostics hdiagnostic
  rw [← flatMap_block_parts] at hmem hother
  obtain ⟨front', hfront'⟩ := exists_standsIn hsheet hproper hother
  have hplace := (WrittenDeclaration.diagnosedAs_of_diagnostic? hcut hfront' hsome).2
  have hbytes := hfront.byteLengthOf_eq
  rw [byteLengthOf_tokens hcut] at hbytes
  intro hoffset
  -- the diagnostic is of the declaration that stands there, which has none
  obtain rfl : written = other := eq_of_left_eq hsheet hproper hmem hother (by omega)
  rw [WrittenDeclaration.diagnostic?_eq_none_iff.mpr hvalid] at hsome
  cases hsome

/-- A declaration that is not valid has a diagnostic. -/
theorem exists_diagnostic_of_not_valid {source : List Char} {list : List Token}
    {found : List WrittenRule} (hcut : tokens source = .ok list)
    (hsheet : SheetOf list (found.map WrittenRule.parts)) {written : WrittenDeclaration}
    (hmem : written ∈ found.flatMap WrittenRule.block) (hvalid : ¬ written.Valid) :
    ∃ diagnostic ∈ diagnose source found, written.DiagnosedAs source list diagnostic := by
  have hall := hmem
  rw [← flatMap_block_parts] at hall
  obtain ⟨front, hfront⟩ := exists_standsIn hsheet (proper_of_mem_tokens hcut) hall
  obtain ⟨diagnostic, hsome⟩ : ∃ diagnostic, written.diagnostic? source = some diagnostic := by
    apply Option.ne_none_iff_exists'.mp
    exact fun hnone => hvalid (WrittenDeclaration.diagnostic?_eq_none_iff.mp hnone)
  refine ⟨diagnostic, List.mem_filterMap.mpr ⟨written, hmem, hsome⟩, ?_⟩
  exact (WrittenDeclaration.diagnosedAs_of_diagnostic? hcut hfront hsome).1

/-- **A number without a unit declares zero exactly if it is not above half of the least positive
number**, whether its digits are all zeros or not. Then no diagnostic stands at the declaration.
Else the declaration is skipped, and complained about with the number as it is written. -/
theorem zero_of_unitless (source : String) (record : Bool) {sheet : Sheet}
    (hparse : parse source record = .ok sheet) :
    ∃ list rules, tokens source.toList = .ok list ∧ SheetOf list rules ∧
      (∀ other, SheetOf list other → other = rules) ∧
      List.Forall₂ (fun written rule => Leaves written.block rule.declarations) rules
        sheet.rules.toList ∧
      ∀ written ∈ rules.flatMap Grammar.Rule.block, ∀ target token,
        written.IsUnitless target token →
        ∃ numeral : Numeral, numeral.IsDecimal ∧ token.text = numeral.text ∧
          (numeral.value = 0 ↔ ∀ d ∈ numeral.digits, d = Number.Digit.zero) ∧
          (numeral.value ≤ 1 / 2 ^ 150 → written.Declares ⟨target, .zero⟩ ∧
            ∀ diagnostic ∈ sheet.diagnostics, ∀ front, written.StandsIn front list →
              diagnostic.position.offset ≠ byteLengthOf front) ∧
          (1 / 2 ^ 150 < numeral.value → ¬ written.Valid ∧
            (record = true → ∃ diagnostic ∈ sheet.diagnostics,
              written.DiagnosedAs source.toList list diagnostic ∧
              diagnostic.complaint = .outsideDomain target (String.ofList token.text))) := by
  obtain ⟨found, hwritten, rfl⟩ := exists_written_of_parse hparse
  obtain ⟨list, hcut, hsheet, hunique⟩ := exists_sheetOf_of_written hwritten
  have hproper := proper_of_mem_tokens hcut
  refine ⟨list, _, hcut, hsheet, hunique, forall₂_leaves 0 found, ?_⟩
  intro written hmem target token hunitless
  obtain ⟨amount, hkind⟩ := hunitless.exists_kind
  have htoken : token ∈ list := by
    apply mem_of_mem_value hsheet hproper hmem
    apply List.mem_of_mem_filter
    rw [hunitless.filter_eq]
    exact List.mem_singleton_self token
  obtain ⟨numeral, hdecimal, -, rfl, htext⟩ := exists_numeral_of_mem_tokens hcut htoken hkind
  have hmem' : written ∈ found.flatMap WrittenRule.block := by rwa [← flatMap_block_parts]
  refine ⟨numeral, hdecimal, ?_, numeral.value_eq_zero_iff, ?_, ?_⟩
  · rw [htext]
    exact List.append_nil _
  · intro hsmall
    have hdeclares := hunitless.declares hkind (numeral.isZero_toSingle_iff.mpr hsmall)
    refine ⟨hdeclares, ?_⟩
    intro diagnostic hdiagnostic front hfront
    exact offset_ne_of_valid hcut hsheet hmem' ⟨_, hdeclares⟩ hdiagnostic hfront
  · intro hlarge
    have hvalid : ¬ written.Valid := by
      intro hvalid
      have hzero := hunitless.isZero_of_valid hkind hvalid
      exact absurd (numeral.isZero_toSingle_iff.mp hzero) (not_le.mpr hlarge)
    refine ⟨hvalid, ?_⟩
    rintro rfl
    obtain ⟨diagnostic, hdiagnostic, hdiagnosed⟩ :=
      exists_diagnostic_of_not_valid hcut hsheet hmem' hvalid
    exact ⟨diagnostic, hdiagnostic, hdiagnosed, hunitless.complaint_eq hdiagnosed.1⟩

/-- A zero with a sign and without a digit before the point, and a half. -/
theorem zero_of_unitless_of_negative_zero :
    ∃ (sheet : Sheet) (first second : WrittenDeclaration) (zero half : Token),
      parse "a{width:-.0;height:.5}" = .ok sheet ∧
      first.IsUnitless .width zero ∧ first.Declares ⟨.width, .zero⟩ ∧
      second.IsUnitless .height half ∧ ¬ second.Valid ∧
      sheet.diagnostics.map Diagnostic.complaint = [.outsideDomain .height ".5"] := by
  have hwritten : written "a{width:-.0;height:.5}".toList = .ok
      [⟨[.single ⟨some "a", none, none⟩],
        [⟨"width", [⟨.number (Number.Single.ofRatio true 0 1) "", ['-', '.', '0']⟩], 20⟩,
          ⟨"height", [⟨.number (Number.Single.ofRatio false 1 2) "", ['.', '5']⟩], 10⟩]⟩] := by
    decide +kernel
  have hparse := parse_of_written true hwritten
  obtain ⟨list, rules, hcut, -, hunique, -, hall⟩ := zero_of_unitless _ true hparse
  obtain ⟨list', hcut', hsheet, -⟩ := exists_sheetOf_of_written hwritten
  obtain rfl : list = list' := Except.ok.inj (hcut.symm.trans hcut')
  obtain rfl := hunique _ hsheet
  have hfirst : WrittenDeclaration.IsUnitless
      ⟨"width", [⟨.number (Number.Single.ofRatio true 0 1) "", ['-', '.', '0']⟩], 20⟩ .width
      ⟨.number (Number.Single.ofRatio true 0 1) "", ['-', '.', '0']⟩ :=
    ⟨rfl, by decide, rfl, _, rfl⟩
  have hsecond : WrittenDeclaration.IsUnitless
      ⟨"height", [⟨.number (Number.Single.ofRatio false 1 2) "", ['.', '5']⟩], 10⟩ .height
      ⟨.number (Number.Single.ofRatio false 1 2) "", ['.', '5']⟩ :=
    ⟨rfl, by decide, rfl, _, rfl⟩
  obtain ⟨numeral, -, -, -, hzero, hmore⟩ :=
    hall _ (by simp [WrittenRule.parts]) _ _ hfirst
  obtain ⟨numeral', -, -, -, hzero', hmore'⟩ :=
    hall _ (by simp [WrittenRule.parts]) _ _ hsecond
  refine ⟨_, _, _, _, _, hparse, hfirst, ?_, hsecond, ?_, ?_⟩
  · rcases le_or_gt numeral.value (1 / 2 ^ 150) with hsmall | hlarge
    · exact (hzero hsmall).1
    · exact absurd (by decide +kernel) (hmore hlarge).1
  · rcases le_or_gt numeral'.value (1 / 2 ^ 150) with hsmall | hlarge
    · have hvalid : WrittenDeclaration.Valid _ := ⟨_, (hzero' hsmall).1⟩
      exact absurd hvalid (by decide +kernel)
    · exact (hmore' hlarge).1
  · decide +kernel

/-- A number that is not zero is taken as zero, and nothing is complained about. -/
theorem parse_of_forty_five_zeros :
    ∃ (sheet : Sheet) (declaration : WrittenDeclaration) (token : Token) (numeral : Numeral),
      parse "a{width:0.0000000000000000000000000000000000000000000001}" = .ok sheet ∧
      written "a{width:0.0000000000000000000000000000000000000000000001}".toList =
        .ok [⟨[.single ⟨some "a", none, none⟩], [declaration]⟩] ∧
      declaration.IsUnitless .width token ∧ token.text = numeral.text ∧ numeral.value ≠ 0 ∧
      sheet.rules.toList.map Rule.declarations = [[⟨.width, .zero⟩]] ∧ sheet.diagnostics = [] := by
  have hwritten : written
      "a{width:0.0000000000000000000000000000000000000000000001}".toList = .ok
      [⟨[.single ⟨some "a", none, none⟩],
        [⟨"width", [⟨.number (Number.Single.ofRatio false 0 1) "",
          '0' :: '.' :: List.replicate 45 '0' ++ ['1']⟩], 55⟩]⟩] := by
    decide +kernel
  have hdigits : ¬ ∀ d ∈ Numeral.digits ⟨false, [0], List.replicate 45 0 ++ [1], none⟩,
      d = Number.Digit.zero := by
    decide +kernel
  refine ⟨_, _, _, ⟨false, [0], List.replicate 45 0 ++ [1], none⟩, parse_of_written true hwritten,
    hwritten, ⟨rfl, by decide, rfl, _, rfl⟩, ?_, ?_, ?_, ?_⟩
  · decide +kernel
  · rwa [Ne, Numeral.value_eq_zero_iff]
  · decide +kernel
  · decide +kernel

end Sheet

end WidgetStyle
