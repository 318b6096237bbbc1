import WidgetStyle.Proofs.Cascade

/-!
# The cascade in one pass

The cascade weighs rules by specificity, then by sheet, then by their place in the sheet, and runs
through them in just this order of sheets and places. So a rule that comes later in the run has the
greater weight unless it is less specific, and the numbers of sheets and rules are not needed to
tell which one is kept. What is left of the cascade is one pass over the rules of all sheets, in
which a later offer overrules an earlier one unless it is less specific (`winner_eq_overrule`).
-/

namespace WidgetStyle

/-- What a rule has to say to a node about an attribute: the value that it declares, and how
specifically it selects the node. -/
structure Offer where
  specificity : Specificity
  value : Value
deriving DecidableEq, Repr

/-- The later offer overrules the best one so far unless it is less specific. -/
def Offer.overrule (best : Option Offer) (next : Offer) : Option Offer :=
  match best with
  | none => some next
  | some current => if next.specificity < current.specificity then some current else some next

def Rule.offer? (rule : Rule) (target : Attribute) (path : Path) : Option Offer :=
  (rule.declaration target).bind fun value =>
    (rule.matchingSpecificity path).map fun specificity => ⟨specificity, value⟩

/-- The candidate without the place of its rule. -/
def Candidate.offer (candidate : Candidate) : Offer :=
  ⟨candidate.weight.specificity, candidate.value⟩

theorem Rule.map_offer_candidate? (rule : Rule) (number : Nat) (target : Attribute) (path : Path) :
    (rule.candidate? number target path).map Candidate.offer = rule.offer? target path := by
  rw [candidate?, offer?]
  cases rule.declaration target with
  | none => rfl
  | some value => cases rule.matchingSpecificity path <;> rfl

/-! ### Places -/

/-- The rule of the one weight comes before that of the other: it stands in an earlier sheet, or
at an earlier place of the same one. -/
def Weight.Before (weight other : Weight) : Prop :=
  weight.sheet < other.sheet ∨ weight.sheet = other.sheet ∧ weight.order < other.order

/-- A later rule weighs more unless it is less specific. -/
theorem Weight.Before.lt_iff {weight other : Weight} (hbefore : weight.Before other) :
    weight < other ↔ ¬other.specificity < weight.specificity := by
  rw [Weight.lt_iff, Specificity.lt_iff_rank_lt, Specificity.lt_iff_rank_lt, not_lt,
    ← Specificity.rank_injective.eq_iff, le_iff_lt_or_eq]
  have hbefore' : weight.sheet < other.sheet ∨
      weight.sheet = other.sheet ∧ weight.order < other.order := hbefore
  simp only [hbefore', and_true]

theorem Candidate.offer_better {best : Option Candidate} {next : Candidate}
    (hbefore : ∀ candidate ∈ best, candidate.weight.Before next.weight) :
    (better best next).map offer = Offer.overrule (best.map offer) next.offer := by
  cases best with
  | none => rfl
  | some current =>
    have hlt := (hbefore current rfl).lt_iff
    by_cases hless : next.weight.specificity < current.weight.specificity
    · rw [better, if_neg (by simpa [hlt] using hless)]
      exact (if_pos hless).symm
    · rw [better, if_pos (hlt.mpr hless)]
      exact (if_neg hless).symm

theorem Candidate.better_cases (best : Option Candidate) (next : Candidate) :
    better best next = some next ∨ better best next = best := by
  cases best with
  | none => exact .inl rfl
  | some current =>
    rw [better]
    split
    · exact .inl rfl
    · exact .inr rfl

/-- One pass over candidates in the order of their places keeps what one pass over their offers
keeps. -/
theorem Candidate.offer_foldl_better {candidates : List Candidate}
    (hplaces : candidates.Pairwise fun a b => a.weight.Before b.weight) {best : Option Candidate}
    (hbest : ∀ current ∈ best, ∀ next ∈ candidates, current.weight.Before next.weight) :
    (candidates.foldl better best).map offer =
      (candidates.map offer).foldl Offer.overrule (best.map offer) := by
  induction candidates generalizing best with
  | nil => rfl
  | cons next candidates ih =>
    obtain ⟨hnext, hrest⟩ := List.pairwise_cons.mp hplaces
    have hkept : ∀ current ∈ better best next, ∀ later ∈ candidates,
        current.weight.Before later.weight := by
      intro current hcurrent later hlater
      rcases better_cases best next with hbetter | hbetter
      · rw [hbetter] at hcurrent
        cases hcurrent
        exact hnext later hlater
      · rw [hbetter] at hcurrent
        exact hbest current hcurrent later (List.mem_cons_of_mem _ hlater)
    rw [List.foldl_cons, ih hrest hkept, List.map_cons, List.foldl_cons,
      offer_better fun current hcurrent => hbest current hcurrent next List.mem_cons_self]

/-! ### Sheets -/

/-- The rules of the sheet are numbered by their places. -/
def Sheet.Numbered (sheet : Sheet) : Prop :=
  ∀ (place : Nat) (rule : Rule), sheet.rules[place]? = some rule → rule.order = place

theorem Sheet.Parsed.numbered {sheet : Sheet} (hparsed : sheet.Parsed) : sheet.Numbered :=
  fun _ _ => hparsed.order_eq

theorem Sheet.Numbered.pairwise_order {sheet : Sheet} (hnumbered : sheet.Numbered) :
    sheet.rules.toList.Pairwise fun a b => a.order < b.order := by
  refine List.pairwise_iff_getElem.mpr ?_
  intro i j hi hj hlt
  rw [hnumbered i _ (by simp [Array.getElem?_eq_getElem (by simpa using hi)]),
    hnumbered j _ (by simp [Array.getElem?_eq_getElem (by simpa using hj)])]
  exact hlt

theorem Rule.weight_of_candidate? {rule : Rule} {sheet : Nat} {target : Attribute} {path : Path}
    {candidate : Candidate} (hcandidate : rule.candidate? sheet target path = some candidate) :
    candidate.weight.sheet = sheet ∧ candidate.weight.order = rule.order := by
  obtain ⟨value, -, hweight⟩ := Option.bind_eq_some_iff.mp hcandidate
  obtain ⟨specificity, -, rfl⟩ := Option.map_eq_some_iff.mp hweight
  exact ⟨rfl, rfl⟩

/-- The cascade runs through numbered sheets in the order of the places. -/
theorem pairwise_candidatesFrom (target : Attribute) (path : Path) (number : Nat)
    {sheets : List Sheet} (hnumbered : ∀ sheet ∈ sheets, sheet.Numbered) :
    (candidatesFrom false target path number sheets).Pairwise fun a b =>
      a.weight.Before b.weight := by
  induction sheets generalizing number with
  | nil => exact List.Pairwise.nil
  | cons sheet sheets ih =>
    obtain ⟨hsheet, hsheets⟩ := List.forall_mem_cons.mp hnumbered
    refine List.pairwise_append.mpr ⟨?_, ih (number + 1) hsheets, ?_⟩
    · -- within the sheet, by the places of the rules
      refine List.pairwise_filterMap.mpr (hsheet.pairwise_order.imp ?_)
      intro rule other horder candidate hcandidate later hlater
      obtain ⟨hplace, horder'⟩ := Rule.weight_of_candidate? hcandidate
      obtain ⟨hplace', horder''⟩ := Rule.weight_of_candidate? hlater
      exact .inr ⟨hplace.trans hplace'.symm, by omega⟩
    · intro candidate hcandidate later hlater
      obtain ⟨rule, -, hrule⟩ := List.mem_filterMap.mp hcandidate
      obtain ⟨place, -, rule', -, -, hrule'⟩ := mem_candidatesFrom.mp hlater
      obtain ⟨hplace, -⟩ := Rule.weight_of_candidate? hrule
      obtain ⟨hplace', -⟩ := Rule.weight_of_candidate? hrule'
      exact .inl (by omega)

theorem map_offer_candidatesFrom (target : Attribute) (path : Path) (number : Nat)
    (sheets : List Sheet) :
    (candidatesFrom false target path number sheets).map Candidate.offer =
      (sheets.flatMap fun sheet => sheet.rules.toList).filterMap fun rule =>
        rule.offer? target path := by
  induction sheets generalizing number with
  | nil => rfl
  | cons sheet sheets ih =>
    simp only [candidatesFrom, Sheet.visited, Bool.false_eq_true, if_false, List.map_append,
      List.map_filterMap, Rule.map_offer_candidate?, ih, List.flatMap_cons, List.filterMap_append]

/-- **The cascade in one pass.** In numbered sheets the value wins that is kept by one pass over the
rules of all sheets, in which a later offer overrules an earlier one unless it is less specific. -/
theorem winner_eq_overrule {sheets : List Sheet} (hnumbered : ∀ sheet ∈ sheets, sheet.Numbered)
    (indexed : Bool) (target : Attribute) (path : Path) :
    winner sheets indexed target path =
      (((sheets.flatMap fun sheet => sheet.rules.toList).filterMap fun rule =>
        rule.offer? target path).foldl Offer.overrule none).map Offer.value := by
  have hbest : ∀ current ∈ (none : Option Candidate),
      ∀ next ∈ candidatesFrom false target path 0 sheets, current.weight.Before next.weight := by
    simp
  have hpass := Candidate.offer_foldl_better (pairwise_candidatesFrom target path 0 hnumbered) hbest
  rw [Option.map_none, map_offer_candidatesFrom] at hpass
  rw [winner_indexed, winner, ← hpass, Option.map_map]
  rfl

end WidgetStyle
