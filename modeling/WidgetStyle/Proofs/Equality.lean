import Mathlib.Data.Option.Basic
import WidgetStyle.Style

/-!
# Equal values

Declared values are compared constructor by constructor, and a bare zero is equal to `0px` and to
`-0px`. What the comparison comes to is simpler: two values are equal exactly if they have the same
keyword view and equal dimension views (`Value.equals_iff`). So equality of values has the laws that
equality of numbers has, and since a type of attribute values reads nothing but the two views, equal
values are read alike (`Value.readAlike_of_equals`).
-/

/-! ### Optional values that are related -/

namespace Option.Rel

variable {α β γ δ : Type} {R : α → β → Prop} {S : γ → δ → Prop} {a : Option α} {b : Option β}

theorem isSome_eq (hrel : Rel R a b) : a.isSome = b.isSome := by
  cases hrel <;> rfl

theorem swap (hrel : Rel R a b) : Rel (Function.swap R) b a := by
  cases hrel with
  | some hab => exact .some hab
  | none => exact .none

theorem comp {T : β → γ → Prop} {c : Option γ} (hrel : Rel R a b) (hrel' : Rel T b c) :
    Rel (fun a c => ∃ b, R a b ∧ T b c) a c := by
  cases hrel with
  | some hab =>
    cases hrel' with
    | some hbc => exact .some ⟨_, hab, hbc⟩
  | none =>
    cases hrel'
    exact .none

theorem map {f : α → γ} {g : β → δ} (hrel : Rel R a b) (hmap : ∀ a b, R a b → S (f a) (g b)) :
    Rel S (a.map f) (b.map g) := by
  cases hrel with
  | some hab => exact .some (hmap _ _ hab)
  | none => exact .none

theorem bind {f : α → Option γ} {g : β → Option δ} (hrel : Rel R a b)
    (hbind : ∀ a b, R a b → Rel S (f a) (g b)) : Rel S (a.bind f) (b.bind g) := by
  cases hrel with
  | some hab => exact hbind _ _ hab
  | none => exact .none

theorem filter {p : α → Bool} {q : β → Bool} (hrel : Rel R a b) (hask : ∀ a b, R a b → p a = q b) :
    Rel R (a.filter p) (b.filter q) := by
  cases hrel with
  | some hab =>
    rw [Option.filter_some, Option.filter_some, hask _ _ hab]
    split
    · exact .some hab
    · exact .none
  | none => exact .none

theorem getD {d : α} {e : β} (hrel : Rel R a b) (hdefault : R d e) : R (a.getD d) (b.getD e) := by
  cases hrel with
  | some hab => exact hab
  | none => exact hdefault

theorem imp {S : α → β → Prop} (hrel : Rel R a b) (himp : ∀ a b, R a b → S a b) : Rel S a b := by
  cases hrel with
  | some hab => exact .some (himp _ _ hab)
  | none => exact .none

end Option.Rel

theorem Option.rel_self_iff {α : Type} {R : α → α → Prop} {a : Option α} :
    Option.Rel R a a ↔ ∀ x ∈ a, R x x := by
  cases a <;> simp

namespace WidgetStyle

open Number (Single)

/-! ### Numbers -/

namespace Number.Single

theorem equals_self_iff {s : Single} : s.equals s = true ↔ s ≠ .nan := by
  cases s <;> simp [equals]

theorem equals_finite_iff {negative negative' : Bool} {a b : Magnitude .single} :
    (finite negative a).equals (finite negative' b) = true ↔
      a.units = b.units ∧ (negative = negative' ∨ a.units = 0) := by
  simp [equals]

/-- The numbers that are equal to zero are the two zeros. -/
theorem zero_equals_iff {s : Single} : zero.equals s = true ↔ s.isZero = true := by
  cases s with
  | finite negative a =>
    rw [zero, equals_finite_iff, isZero, beq_iff_eq]
    constructor
    · rintro ⟨hunits, -⟩
      exact hunits.symm
    · intro hunits
      exact ⟨hunits.symm, .inr rfl⟩
  | nan => simp [zero, equals, isZero]
  | infinite negative => simp [zero, equals, isZero]

theorem equals_symm {s t : Single} (hst : s.equals t = true) : t.equals s = true := by
  cases s with
  | nan => cases hst
  | infinite negative =>
    cases t with
    | infinite negative' =>
      obtain rfl : negative = negative' := by simpa [equals] using hst
      exact hst
    | _ => cases hst
  | finite negative a =>
    cases t with
    | finite negative' b =>
      obtain ⟨hunits, hsign⟩ := equals_finite_iff.mp hst
      exact equals_finite_iff.mpr ⟨hunits.symm, hsign.imp Eq.symm (hunits ▸ ·)⟩
    | _ => cases hst

theorem equals_trans {s t u : Single} (hst : s.equals t = true) (htu : t.equals u = true) :
    s.equals u = true := by
  cases t with
  | nan => cases htu
  | infinite negative =>
    cases s with
    | infinite negative' =>
      obtain rfl : negative' = negative := by simpa [equals] using hst
      exact htu
    | _ => cases hst
  | finite negative b =>
    cases s with
    | finite negative' a =>
      cases u with
      | finite negative'' c =>
        obtain ⟨hunits, hsign⟩ := equals_finite_iff.mp hst
        obtain ⟨hunits', hsign'⟩ := equals_finite_iff.mp htu
        refine equals_finite_iff.mpr ⟨hunits.trans hunits', ?_⟩
        -- a sign that differs on the way is that of a zero
        rcases hsign with rfl | hzero
        · exact hsign'.imp_right (hunits ▸ ·)
        · exact .inr hzero
      | _ => cases htu
    | _ => cases hst

end Number.Single

/-! ### Dimensions -/

namespace Dimension

/-- The number is another than not-a-number. -/
def Comparable (d : Dimension) : Prop :=
  d.value ≠ .nan

theorem equals_iff {d e : Dimension} :
    d.equals e = true ↔ d.value.equals e.value = true ∧ d.unit = e.unit := by
  simp [equals]

theorem equals_self_iff {d : Dimension} : d.equals d = true ↔ d.Comparable := by
  rw [equals_iff, Single.equals_self_iff, Comparable, and_iff_left rfl]

theorem comparable_zero : zero.Comparable := by
  simp [Comparable, zero, Single.zero]

theorem equals_symm {d e : Dimension} (hde : d.equals e = true) : e.equals d = true := by
  obtain ⟨hvalue, hunit⟩ := equals_iff.mp hde
  exact equals_iff.mpr ⟨Single.equals_symm hvalue, hunit.symm⟩

theorem equals_trans {d e f : Dimension} (hde : d.equals e = true) (hef : e.equals f = true) :
    d.equals f = true := by
  obtain ⟨hvalue, hunit⟩ := equals_iff.mp hde
  obtain ⟨hvalue', hunit'⟩ := equals_iff.mp hef
  exact equals_iff.mpr ⟨Single.equals_trans hvalue hvalue', hunit.trans hunit'⟩

end Dimension

/-! ### Declared values -/

namespace Value

/-- The number, if there is one, is another than not-a-number. -/
def Comparable : Value → Prop
  | dimension d => d.Comparable
  | keyword _ | auto | zero => True

theorem comparable_iff {value : Value} :
    value.Comparable ↔ ∀ d ∈ value.dimension?, d.Comparable := by
  cases value with
  | dimension d => simp [Comparable, dimension?]
  | zero => simp [Comparable, dimension?, Dimension.comparable_zero]
  | keyword name => simp [Comparable, dimension?]
  | auto => simp [Comparable, dimension?]

/-- **Values are equal exactly if their views are**: they have the same keyword, if any, and equal
dimensions, if any. -/
theorem equals_iff {a b : Value} :
    a.equals b = true ↔ a.keyword? = b.keyword? ∧
      Option.Rel (fun d e => d.equals e = true) a.dimension? b.dimension? := by
  have hzero : Dimension.zero.equals .zero = true :=
    Dimension.equals_self_iff.mpr Dimension.comparable_zero
  cases a <;> cases b <;> simp [equals, keyword?, dimension?, hzero]

theorem equals_self_iff {value : Value} : value.equals value = true ↔ value.Comparable := by
  simp only [equals_iff, true_and, Option.rel_self_iff, Dimension.equals_self_iff, comparable_iff]

/-- A bare zero is equal to a zero of either sign in pixels, and to no other dimension. -/
theorem zero_equals_dimension_iff {d : Dimension} :
    zero.equals (.dimension d) = true ↔ d.isZero = true ∧ d.unit = .px := by
  rw [equals, Dimension.equals_iff, Dimension.isZero, ← Single.zero_equals_iff]
  exact and_congr_right' eq_comm

theorem equals_symm {a b : Value} (hab : a.equals b = true) : b.equals a = true := by
  obtain ⟨hkeyword, hdimension⟩ := equals_iff.mp hab
  exact equals_iff.mpr
    ⟨hkeyword.symm, hdimension.swap.imp fun _ _ hde => Dimension.equals_symm hde⟩

theorem equals_trans {a b c : Value} (hab : a.equals b = true) (hbc : b.equals c = true) :
    a.equals c = true := by
  obtain ⟨hkeyword, hdimension⟩ := equals_iff.mp hab
  obtain ⟨hkeyword', hdimension'⟩ := equals_iff.mp hbc
  refine equals_iff.mpr ⟨hkeyword.trans hkeyword', (hdimension.comp hdimension').imp ?_⟩
  rintro d f ⟨e, hde, hef⟩
  exact Dimension.equals_trans hde hef

/-- Where no number is not-a-number, equality is an equivalence. -/
theorem equivalence_equals :
    Equivalence fun a b : {value : Value // value.Comparable} => a.val.equals b.val = true where
  refl value := equals_self_iff.mpr value.property
  symm := equals_symm
  trans := equals_trans

end Value

/-! ### Typed readings -/

/-- A font is read from the keyword alone. -/
theorem FontRole.ofValue?_congr {a b : Value} (hab : a.equals b = true) :
    (StyleValue.ofValue? a : Option FontRole) = StyleValue.ofValue? b :=
  congrArg (fun keyword : Option String => keyword.bind FontRole.ofName?)
    (Value.equals_iff.mp hab).1

theorem Dimension.ofValue?_congr {a b : Value} (hab : a.equals b = true) :
    Option.Rel (fun d e : Dimension => d.equals e = true) (StyleValue.ofValue? a)
      (StyleValue.ofValue? b) :=
  (Value.equals_iff.mp hab).2

/-- A size is read from both views: a value that has none is `auto`. -/
theorem Size.ofValue?_eq (value : Value) :
    StyleValue.ofValue? value =
      if value.keyword?.isSome ∨ value.dimension?.isSome then value.dimension?.map Size.length
      else some .auto := by
  cases value <;> rfl

theorem Size.ofValue?_congr {a b : Value} (hab : a.equals b = true) :
    Option.Rel (fun s t : Size => s.equals t = true) (StyleValue.ofValue? a)
      (StyleValue.ofValue? b) := by
  obtain ⟨hkeyword, hdimension⟩ := Value.equals_iff.mp hab
  rw [ofValue?_eq, ofValue?_eq, hkeyword, hdimension.isSome_eq]
  split
  · apply hdimension.map
    intro d e hde
    exact hde
  · exact .some rfl

/-- Equal values lie in the domains of the same attributes. -/
theorem Attribute.accepts_congr {a b : Value} (hab : a.equals b = true) (target : Attribute) :
    target.accepts a = target.accepts b := by
  cases target with
  | font => exact congrArg Option.isSome (FontRole.ofValue?_congr hab)
  | width | height => exact (Size.ofValue?_congr hab).isSome_eq
  | _ => exact (Dimension.ofValue?_congr hab).isSome_eq

/-- The same attributes accept the values, and each type of attribute values reads both or none of
them: both as one font, as equal dimensions, as equal sizes. -/
structure Value.ReadAlike (a b : Value) : Prop where
  accepts_eq : ∀ target : Attribute, target.accepts a = target.accepts b
  font_eq : (StyleValue.ofValue? a : Option FontRole) = StyleValue.ofValue? b
  dimension : Option.Rel (fun d e : Dimension => d.equals e = true) (StyleValue.ofValue? a)
    (StyleValue.ofValue? b)
  size : Option.Rel (fun s t : Size => s.equals t = true) (StyleValue.ofValue? a)
    (StyleValue.ofValue? b)

theorem Value.readAlike_of_equals {a b : Value} (hab : a.equals b = true) : a.ReadAlike b where
  accepts_eq := Attribute.accepts_congr hab
  font_eq := FontRole.ofValue?_congr hab
  dimension := Dimension.ofValue?_congr hab
  size := Size.ofValue?_congr hab

end WidgetStyle
