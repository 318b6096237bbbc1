import WidgetStyle.Sheet

/-!
# Values in the domain of an attribute

What a token of a value means, which values an attribute admits, and when a written declaration
declares something: three relations that say what the catalog takes without saying how it is found
out. A declaration is accepted exactly where they allow it (`judge_eq_ok_iff`), and what an
attribute admits can be read by its type (`accepts_iff`).
-/

namespace WidgetStyle

/-- A font admits the keywords of its roles, every other attribute a dimension or a bare zero, and
width and height also `auto`. -/
inductive Attribute.Admits : Attribute → Value → Prop
  | role (role : FontRole) : Admits .font (.keyword role.name)
  | dimension {target : Attribute} (htarget : target ≠ .font) (d : Dimension) :
      Admits target (.dimension d)
  | zero {target : Attribute} (htarget : target ≠ .font) : Admits target .zero
  | auto {target : Attribute} (htarget : target = .width ∨ target = .height) :
      Admits target .auto

/-- What is looked up by its name is found under its name only. -/
theorem find?_name_eq_some_iff {α : Type} {label : α → String} {list : List α} {a : α}
    (hfound : list.find? (fun b => label b == label a) = some a) {name : String} :
    list.find? (fun b => label b == name) = some a ↔ label a = name := by
  constructor
  · intro hname
    simpa using List.find?_some hname
  · rintro rfl
    exact hfound

theorem FontRole.ofName?_eq_some_iff {name : String} {role : FontRole} :
    ofName? name = some role ↔ role.name = name :=
  find?_name_eq_some_iff (by cases role <;> decide)

theorem Attribute.ofName?_eq_some_iff {name : String} {target : Attribute} :
    ofName? name = some target ↔ target.name = name :=
  find?_name_eq_some_iff (by cases target <;> decide)

theorem LengthUnit.ofSuffix?_eq_some_iff {suffix : String} {unit : LengthUnit} :
    ofSuffix? suffix = some unit ↔ suffix = unit.suffix := by
  unfold ofSuffix?
  constructor
  · intro hfound
    split at hfound <;> cases hfound <;> rfl
  · rintro rfl
    cases unit <;> rfl

theorem FontRole.ofValue?_eq_some_iff {value : Value} {role : FontRole} :
    StyleValue.ofValue? value = some role ↔ value = .keyword role.name := by
  cases value with
  | keyword name =>
    change ofName? name = some role ↔ _
    rw [ofName?_eq_some_iff, Value.keyword.injEq, eq_comm]
  | dimension d => simp [StyleValue.ofValue?, Value.keyword?]
  | auto => simp [StyleValue.ofValue?, Value.keyword?]
  | zero => simp [StyleValue.ofValue?, Value.keyword?]

/-- An attribute accepts what it admits. -/
theorem Attribute.accepts_iff {target : Attribute} {value : Value} :
    target.accepts value = true ↔ target.Admits value := by
  constructor
  · intro haccepts
    by_cases hfont : target = .font
    · subst hfont
      obtain ⟨role, hrole⟩ := Option.isSome_iff_exists.mp haccepts
      rw [FontRole.ofValue?_eq_some_iff.mp hrole]
      exact .role role
    · cases value with
      | dimension d => exact .dimension hfont d
      | zero => exact .zero hfont
      | keyword name =>
        cases target <;> simp [accepts, StyleValue.ofValue?, Value.dimension?] at haccepts hfont
      | auto =>
        apply Admits.auto
        cases target <;> simp [accepts, StyleValue.ofValue?, Value.dimension?] at haccepts hfont ⊢
  · intro hadmits
    cases hadmits with
    | role role => exact Option.isSome_iff_exists.mpr ⟨role, FontRole.ofValue?_eq_some_iff.mpr rfl⟩
    | dimension htarget d =>
      cases target with
      | font => exact absurd rfl htarget
      | _ => rfl
    | zero htarget =>
      cases target with
      | font => exact absurd rfl htarget
      | _ => rfl
    | auto htarget => rcases htarget with rfl | rfl <;> rfl

namespace Sheet

/-- What a token means as a value: a word is a keyword, but for `auto`; a number needs one of the
units, but for zero. -/
inductive TokenKind.Means : TokenKind → Value → Prop
  | auto : Means (.word "auto") .auto
  | keyword {name : String} (hname : name ≠ "auto") : Means (.word name) (.keyword name)
  | zero {amount : Number.Single} (hamount : amount.isZero = true) : Means (.number amount "") .zero
  | dimension (amount : Number.Single) (unit : LengthUnit) :
      Means (.number amount unit.suffix) (.dimension ⟨amount, unit⟩)

theorem TokenKind.value?_eq_some_iff {kind : TokenKind} {value : Value} :
    kind.value? = some value ↔ kind.Means value := by
  constructor
  · intro hvalue
    unfold value? at hvalue
    split at hvalue
    · next name =>
      by_cases hname : name = "auto"
      · subst hname
        cases hvalue
        exact .auto
      · rw [if_neg hname] at hvalue
        cases hvalue
        exact .keyword hname
    · next amount suffix =>
      by_cases hsuffix : suffix = ""
      · subst hsuffix
        by_cases hamount : amount.isZero = true
        · simp only [if_true, if_pos hamount] at hvalue
          cases hvalue
          exact .zero hamount
        · simp [hamount] at hvalue
      · rw [if_neg hsuffix] at hvalue
        obtain ⟨unit, hunit, rfl⟩ := Option.map_eq_some_iff.mp hvalue
        rw [LengthUnit.ofSuffix?_eq_some_iff.mp hunit]
        exact .dimension amount unit
    · cases hvalue
  · intro hmeans
    cases hmeans with
    | auto => rfl
    | keyword hname => simp [value?, hname]
    | zero hamount => simp [value?, hamount]
    | dimension amount unit => cases unit <;> rfl

namespace WrittenDeclaration

/-- The written declaration declares a value for an attribute: the attribute has the name, and the
value has exactly one token that is not blank, which means a value that the attribute admits. -/
structure Declares (written : WrittenDeclaration) (declared : Declaration) : Prop where
  name_eq : declared.target.name = written.name
  means : ∃ token, (written.value.filter fun token => token.kind != .blank) = [token] ∧
    token.kind.Means declared.value
  admits : declared.target.Admits declared.value

theorem value?_eq_some_iff {written : WrittenDeclaration} {value : Value} :
    written.value? = some value ↔
      ∃ token, (written.value.filter fun token => token.kind != .blank) = [token] ∧
        token.kind.Means value := by
  unfold value?
  constructor
  · intro hvalue
    split at hvalue
    · next token hfilter => exact ⟨token, hfilter, TokenKind.value?_eq_some_iff.mp hvalue⟩
    · cases hvalue
  · rintro ⟨token, hfilter, hmeans⟩
    rw [hfilter]
    exact TokenKind.value?_eq_some_iff.mpr hmeans

/-- A declaration is accepted as what it declares. -/
theorem judge_eq_ok_iff {written : WrittenDeclaration} {declared : Declaration} :
    written.judge = .ok declared ↔ written.Declares declared := by
  unfold judge
  constructor
  · intro hjudge
    split at hjudge
    · cases hjudge
    · next target htarget =>
      split at hjudge
      · next value hvalue =>
        cases hjudge
        obtain ⟨hmeans, haccepts⟩ := Option.filter_eq_some_iff.mp hvalue
        exact ⟨Attribute.ofName?_eq_some_iff.mp htarget, value?_eq_some_iff.mp hmeans,
          Attribute.accepts_iff.mp haccepts⟩
      · cases hjudge
  · rintro ⟨hname, hmeans, hadmits⟩
    rw [Attribute.ofName?_eq_some_iff.mpr hname, value?_eq_some_iff.mpr hmeans]
    simp only [Option.filter_some, Attribute.accepts_iff.mpr hadmits, if_true]

end WrittenDeclaration

end Sheet

end WidgetStyle
