import Mathlib.Data.List.Find
import WidgetStyle.Proofs.Identifiers

/-!
# What the value of a formula depends on

The flags in the leaves of a formula are collected in one way (`Formula.flags`), asked for one by
one in another (`Formula.dependsOn`), and looked up in a third when the formula is evaluated. All
three go over the same leaves: what is collected is what is asked for with the answer yes, each flag
once (`mem_flags_iff`, `nodup_flags`), and an evaluation looks at no other flag, so that two lookups
that agree on the collected flags cannot be told apart (`holds_congr`). A switch looks at its cases
in their order and at nothing but their formulas, so the same is true of it (`select_congr`), and
the value it selects can only change together with one of its flags.
-/

namespace WidgetStyle

namespace Formula

/-! ### Formulas -/

section
variable {α : Type} [DecidableEq α]

mutual

theorem mem_occurrences_iff {flag : α} :
    (formula : Formula α) → (flag ∈ formula.occurrences ↔ formula.dependsOn flag = true)
  | leaf read negated => by
    simp only [occurrences, dependsOn, List.mem_singleton, beq_iff_eq]
    exact eq_comm
  | run operator terms => mem_occurrencesAll_iff terms
  | not inner => mem_occurrences_iff inner

theorem mem_occurrencesAll_iff {flag : α} :
    (terms : List (Formula α)) → (flag ∈ occurrencesAll terms ↔ anyDependsOn flag terms = true)
  | [] => by simp [occurrencesAll, anyDependsOn]
  | term :: terms => by
    rw [occurrencesAll, anyDependsOn, List.mem_append, Bool.or_eq_true, mem_occurrences_iff term,
      mem_occurrencesAll_iff terms]

end

theorem nodup_flags (formula : Formula α) : formula.flags.Nodup :=
  nodup_eraseDups formula.occurrences

theorem mem_flags_iff {formula : Formula α} {flag : α} :
    flag ∈ formula.flags ↔ formula.dependsOn flag = true :=
  List.mem_eraseDups.trans (mem_occurrences_iff formula)

end

section
variable {α : Type} {lookup lookup' : α → Bool}

mutual

/-- Lookups that agree on the leaves of a formula give it one value. -/
theorem holds_congr : (formula : Formula α) →
    (∀ flag ∈ formula.occurrences, lookup flag = lookup' flag) →
      formula.holds lookup = formula.holds lookup'
  | leaf flag negated, hagree => by
    rw [holds, holds, hagree flag (List.mem_singleton.mpr rfl)]
  | run operator terms, hagree => by
    rw [holds, holds, truths_congr terms hagree]
  | not inner, hagree => by
    rw [holds, holds, holds_congr inner hagree]

theorem truths_congr : (terms : List (Formula α)) →
    (∀ flag ∈ occurrencesAll terms, lookup flag = lookup' flag) →
      truths lookup terms = truths lookup' terms
  | [], _ => rfl
  | term :: terms, hagree => by
    have hfirst : ∀ flag ∈ term.occurrences, lookup flag = lookup' flag := by
      intro flag hflag
      exact hagree flag (List.mem_append_left _ hflag)
    have hrest : ∀ flag ∈ occurrencesAll terms, lookup flag = lookup' flag := by
      intro flag hflag
      exact hagree flag (List.mem_append_right _ hflag)
    rw [truths, truths, holds_congr term hfirst, truths_congr terms hrest]

end

end

end Formula

namespace Switch

/-! ### Switches -/

variable {α : Type}

/-- The value is that of the first case whose formula holds, or the fallback where none holds. -/
def Gives (switch : Switch α) (lookup : Flag → Bool) (value : α) : Prop :=
  (∃ before formula after, switch.cases = before ++ (formula, value) :: after ∧
    formula.holds lookup = true ∧ ∀ earlier ∈ before, earlier.1.holds lookup = false) ∨
  (∀ condition ∈ switch.cases, condition.1.holds lookup = false) ∧ value = switch.fallback

theorem gives_select (switch : Switch α) (lookup : Flag → Bool) :
    switch.Gives lookup (switch.select lookup) := by
  unfold select
  generalize hfound : List.find? _ switch.cases = found
  rcases found with _ | ⟨formula, value⟩
  · right
    rw [List.find?_eq_none] at hfound
    refine ⟨?_, rfl⟩
    intro condition hcondition
    exact Bool.eq_false_iff.mpr (hfound condition hcondition)
  · left
    obtain ⟨hholds, before, after, hcases, hbefore⟩ := List.find?_eq_some_iff_append.mp hfound
    refine ⟨before, formula, after, hcases, hholds, ?_⟩
    intro earlier hearlier
    simpa using hbefore earlier hearlier

theorem nodup_flags (switch : Switch α) : switch.flags.Nodup :=
  nodup_eraseDups _

/-- The flags of a switch are what the formulas of its cases read. -/
theorem mem_flags_iff {switch : Switch α} {flag : Flag} :
    flag ∈ switch.flags ↔ ∃ condition ∈ switch.cases, condition.1.dependsOn flag = true := by
  simp only [flags, List.mem_eraseDups, List.mem_flatMap, Formula.mem_occurrences_iff]

/-- Lookups that agree on the flags of a switch select one value. -/
theorem select_congr {switch : Switch α} {lookup lookup' : Flag → Bool}
    (hagree : ∀ flag ∈ switch.flags, lookup flag = lookup' flag) :
    switch.select lookup = switch.select lookup' := by
  have hcases : ∀ condition ∈ switch.cases,
      condition.1.holds lookup = condition.1.holds lookup' := by
    intro condition hcondition
    apply Formula.holds_congr
    intro flag hflag
    apply hagree
    exact mem_flags_iff.mpr ⟨condition, hcondition, (Formula.mem_occurrences_iff _).mp hflag⟩
  apply congrArg fun found : Option (Formula Flag × α) =>
    (found.map Prod.snd).getD switch.fallback
  exact List.find?_congr hcases

end Switch

/-- Formulas and switches list each flag that they read once, and no flag that is not listed has a
part in the value of a formula or in what a switch selects. -/
theorem value_of_flags :
    (∀ formula : Formula Flag,
      formula.flags.Nodup ∧
      (∀ flag, flag ∈ formula.flags ↔ formula.dependsOn flag = true) ∧
      ∀ lookup lookup' : Flag → Bool, (∀ flag ∈ formula.flags, lookup flag = lookup' flag) →
        formula.holds lookup = formula.holds lookup') ∧
    ∀ {α : Type} (switch : Switch α),
      switch.flags.Nodup ∧
      (∀ flag, flag ∈ switch.flags ↔
        ∃ condition ∈ switch.cases, condition.1.dependsOn flag = true) ∧
      (∀ lookup, switch.Gives lookup (switch.select lookup)) ∧
      ∀ lookup lookup' : Flag → Bool, (∀ flag ∈ switch.flags, lookup flag = lookup' flag) →
        switch.select lookup = switch.select lookup' := by
  constructor
  · intro formula
    refine ⟨formula.nodup_flags, fun flag => Formula.mem_flags_iff, ?_⟩
    intro lookup lookup' hagree
    apply formula.holds_congr
    intro flag hflag
    exact hagree flag (List.mem_eraseDups.mpr hflag)
  · intro α switch
    exact ⟨switch.nodup_flags, fun flag => Switch.mem_flags_iff, switch.gives_select,
      fun lookup lookup' hagree => Switch.select_congr hagree⟩

end WidgetStyle
