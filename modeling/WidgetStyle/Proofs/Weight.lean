import Mathlib.Data.List.MinMax
import Mathlib.Data.Prod.Lex
import WidgetStyle.Style

/-!
# Specificities and weights as a linear order

Specificities and weights are compared field by field. Their ranks put the fields into
lexicographic products of natural numbers, where the comparison becomes the order of a linear
order, and no rank is shared by two weights. The two running maxima of the cascade, the one over
the chains of a rule and the one over the rules of all sheets, are then both the first element of
greatest rank of a list.
-/

namespace WidgetStyle

/-! ### Ranks -/

/-- Ids, classes and element names, in this order. -/
def Specificity.rank (s : Specificity) : ℕ ×ₗ ℕ ×ₗ ℕ :=
  toLex (s.ids.toNat, toLex (s.classes.toNat, s.elements.toNat))

/-- The specificity, then the place of the sheet, then the place of the rule in it. -/
def Weight.rank (w : Weight) : (ℕ ×ₗ ℕ ×ₗ ℕ) ×ₗ ℕ ×ₗ ℕ :=
  toLex (w.specificity.rank, toLex (w.sheet, w.order))

theorem Specificity.rank_injective : Function.Injective Specificity.rank := by
  intro a b hrank
  obtain ⟨hids, hrest⟩ := Prod.mk.inj (toLex.injective hrank)
  obtain ⟨hclasses, helements⟩ := Prod.mk.inj (toLex.injective hrest)
  cases a
  cases b
  simp_all [UInt32.toNat_inj]

theorem Specificity.lt_iff_rank_lt {a b : Specificity} : a < b ↔ a.rank < b.rank := by
  simp only [rank, Prod.Lex.toLex_lt_toLex, ← UInt32.lt_iff_toNat_lt, UInt32.toNat_inj]
  rfl

theorem Weight.rank_injective : Function.Injective Weight.rank := by
  intro a b hrank
  obtain ⟨hspecificity, hrest⟩ := Prod.mk.inj (toLex.injective hrank)
  obtain ⟨hsheet, horder⟩ := Prod.mk.inj (toLex.injective hrest)
  cases a
  cases b
  simp_all [Specificity.rank_injective.eq_iff]

theorem Weight.lt_iff_rank_lt {a b : Weight} : a < b ↔ a.rank < b.rank := by
  simp only [rank, Prod.Lex.toLex_lt_toLex, ← Specificity.lt_iff_rank_lt,
    Specificity.rank_injective.eq_iff]
  rfl

theorem Weight.lt_iff {a b : Weight} :
    a < b ↔ a.specificity < b.specificity ∨ a.specificity = b.specificity ∧
      (a.sheet < b.sheet ∨ a.sheet = b.sheet ∧ a.order < b.order) :=
  Iff.rfl

/-! ### Running maxima -/

theorem Candidate.foldl_better (candidates : List Candidate) (best : Option Candidate) :
    candidates.foldl better best =
      candidates.foldl (List.argAux fun next current => current.weight.rank < next.weight.rank)
        best := by
  induction candidates generalizing best with
  | nil => rfl
  | cons next candidates ih =>
    rw [List.foldl_cons, List.foldl_cons, ih]
    congr 1
    cases best with
    | none => rfl
    | some current => simp only [better, List.argAux, Weight.lt_iff_rank_lt]

/-- The cascade keeps the first of the heaviest candidates. -/
theorem Candidate.foldl_better_eq_argmax (candidates : List Candidate) :
    candidates.foldl better none = candidates.argmax fun candidate => candidate.weight.rank :=
  foldl_better candidates none

/-- A change of the candidates that keeps their order does not change which one is kept. -/
theorem Candidate.foldl_better_map {f : Candidate → Candidate} {P : Candidate → Prop}
    (hmono : ∀ a b, P a → P b → ((f a).weight < (f b).weight ↔ a.weight < b.weight))
    {candidates : List Candidate} (hall : ∀ candidate ∈ candidates, P candidate)
    {best : Option Candidate} (hbest : ∀ candidate ∈ best, P candidate) :
    (candidates.map f).foldl better (best.map f) = (candidates.foldl better best).map f := by
  induction candidates generalizing best with
  | nil => rfl
  | cons next candidates ih =>
    obtain ⟨hnext, hrest⟩ := List.forall_mem_cons.mp hall
    have hstep : better (best.map f) (f next) = (better best next).map f := by
      cases best with
      | none => rfl
      | some current =>
        have hlt := hmono current next (hbest current rfl) hnext
        by_cases hheavier : current.weight < next.weight
        · simp [better, hlt, hheavier]
        · simp [better, hlt, hheavier]
    have hkept : ∀ candidate ∈ better best next, P candidate := by
      intro candidate hcandidate
      cases best with
      | none =>
        cases hcandidate
        exact hnext
      | some current =>
        simp only [better] at hcandidate
        split at hcandidate
        · cases hcandidate
          exact hnext
        · cases hcandidate
          exact hbest _ rfl
    rw [List.map_cons, List.foldl_cons, List.foldl_cons, hstep, ih hrest hkept]

theorem Specificity.foldl_max (list : List Specificity) (best : Specificity) :
    some (list.foldl max best) =
      list.foldl (List.argAux fun next current => current.rank < next.rank) (some best) := by
  induction list generalizing best with
  | nil => rfl
  | cons next list ih =>
    rw [List.foldl_cons, List.foldl_cons, ih]
    congr 1
    simp only [List.argAux, ← lt_iff_rank_lt]
    by_cases hlt : best < next
    · simp [max, hlt]
    · simp [max, hlt]

theorem Specificity.max?_eq_argmax (list : List Specificity) : list.max? = list.argmax rank := by
  cases list with
  | nil => rfl
  | cons first list => exact foldl_max list first

end WidgetStyle
