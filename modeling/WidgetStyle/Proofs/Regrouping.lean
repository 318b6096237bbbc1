import Mathlib.Data.List.Forall2
import WidgetStyle.Proofs.Interning
import WidgetStyle.Proofs.Truth

/-!
# Terms in another order and in other groups

The value of a run is that of its terms, joined one after the other by an operation that does not
ask for their order or for where parentheses stand (`Operator.combine_append`). So the terms of a
run may be put in another order, and a run that is a term of a run with the same operator may be
replaced by its own terms, anywhere in a formula (`Formula.Rearranges`), without a change of the
value (`Rearranges.holds_eq`). In a text this is done by moving terms and by leaving out parentheses
(`Formula.Regroups`); two such texts are read as two such formulas (`Regroups.exists_formulas`).
-/

namespace WidgetStyle

/-! ### Joining values -/

namespace Operator

/-- The value of two terms. -/
def join : Operator → Bool → Bool → Bool
  | all => and
  | any => or
  | odd => xor

theorem combine_cons (operator : Operator) (value : Bool) (values : List Bool) :
    operator.combine (value :: values) = operator.join value (operator.combine values) := by
  cases operator with
  | all => simp [combine, join]
  | any => simp [combine, join]
  | odd =>
    have hparity := Nat.mod_two_eq_zero_or_one (values.count true)
    cases value with
    | false => simp [combine, join]
    | true => rcases hparity with heven | hodd <;> simp [combine, join, Nat.add_mod, *]

/-- The value of two runs in a row. -/
theorem combine_append (operator : Operator) (front back : List Bool) :
    operator.combine (front ++ back) =
      operator.join (operator.combine front) (operator.combine back) := by
  induction front with
  | nil => cases operator <;> simp [combine, join]
  | cons value front ih =>
    rw [List.cons_append, combine_cons, combine_cons, ih]
    cases operator <;> simp [join, Bool.and_assoc, Bool.or_assoc]

theorem combine_perm (operator : Operator) {values values' : List Bool}
    (hperm : values.Perm values') : operator.combine values = operator.combine values' := by
  cases operator with
  | all => exact hperm.all_eq
  | any => exact hperm.any_eq
  | odd => simp only [combine, hperm.count_eq]

/-- The value of a run may take the place of its values. -/
theorem combine_splice (operator : Operator) (before inner after : List Bool) :
    operator.combine (before ++ operator.combine inner :: after) =
      operator.combine (before ++ inner ++ after) := by
  rw [List.append_assoc, combine_append, combine_cons, ← combine_append, ← combine_append]

end Operator

namespace Formula

/-! ### Formulas -/

section
variable {α : Type} {formula formula' : Formula α}

/-- The one formula becomes the other one when terms of runs are put in another order, and runs are
replaced by their terms in runs of the same operator, or the other way round, any number of times
and anywhere. -/
inductive Rearranges : Formula α → Formula α → Prop
  | refl (formula : Formula α) : Rearranges formula formula
  | symm {formula formula' : Formula α} (h : Rearranges formula formula') :
      Rearranges formula' formula
  | trans {formula middle formula' : Formula α} (h : Rearranges formula middle)
      (h' : Rearranges middle formula') : Rearranges formula formula'
  | permute (operator : Operator) {terms terms' : List (Formula α)} (hperm : terms.Perm terms') :
      Rearranges (.run operator terms) (.run operator terms')
  | splice (operator : Operator) (before inner after : List (Formula α)) :
      Rearranges (.run operator (before ++ .run operator inner :: after))
        (.run operator (before ++ inner ++ after))
  | inRun (operator : Operator) (before after : List (Formula α)) {term term' : Formula α}
      (hterm : Rearranges term term') :
      Rearranges (.run operator (before ++ term :: after))
        (.run operator (before ++ term' :: after))
  | inNot {inner inner' : Formula α} (hinner : Rearranges inner inner') :
      Rearranges (.not inner) (.not inner')

theorem truths_eq_map (lookup : α → Bool) (terms : List (Formula α)) :
    truths lookup terms = terms.map (holds lookup) := by
  induction terms with
  | nil => rfl
  | cons term terms ih => rw [truths, ih, List.map_cons]

theorem occurrencesAll_eq_flatMap (terms : List (Formula α)) :
    occurrencesAll terms = terms.flatMap occurrences := by
  induction terms with
  | nil => rfl
  | cons term terms ih => rw [occurrencesAll, ih, List.flatMap_cons]

theorem holds_run (lookup : α → Bool) (operator : Operator) (terms : List (Formula α)) :
    (run operator terms).holds lookup = operator.combine (terms.map (holds lookup)) := by
  rw [holds, truths_eq_map]

theorem Rearranges.holds_eq (h : formula.Rearranges formula') (lookup : α → Bool) :
    formula.holds lookup = formula'.holds lookup := by
  induction h with
  | refl formula => rfl
  | symm _ ih => exact ih.symm
  | trans _ _ ih ih' => exact ih.trans ih'
  | permute operator hperm =>
    rw [holds_run, holds_run]
    exact operator.combine_perm (hperm.map _)
  | splice operator before inner after =>
    simp only [holds_run, List.map_append, List.map_cons]
    exact operator.combine_splice _ _ _
  | inRun operator before after _ ih =>
    simp only [holds_run, List.map_append, List.map_cons, ih]
  | inNot _ ih => rw [holds, holds, ih]

/-- No flag comes in and none is lost. -/
theorem Rearranges.mem_occurrences_iff (h : formula.Rearranges formula') {flag : α} :
    flag ∈ formula.occurrences ↔ flag ∈ formula'.occurrences := by
  induction h with
  | refl formula => rfl
  | symm _ ih => exact ih.symm
  | trans _ _ ih ih' => exact ih.trans ih'
  | permute operator hperm =>
    simp only [occurrences, occurrencesAll_eq_flatMap, List.mem_flatMap, hperm.mem_iff]
  | splice operator before inner after =>
    simp [occurrences, occurrencesAll_eq_flatMap]
  | inRun operator before after _ ih =>
    simp only [occurrences, occurrencesAll_eq_flatMap, List.flatMap_append, List.flatMap_cons,
      List.mem_append, ih]
  | inNot _ ih => exact ih

end

/-! ### Rows of tokens -/

/-- Terms with an operator between them. -/
def joined (operator : Operator) : List (List TokenKind) → List TokenKind
  | [] => []
  | first :: rest => first ++ rest.flatMap (.operator operator :: ·)

/-- An expression in parentheses. -/
def grouped (kinds : List TokenKind) : List TokenKind :=
  .openGroup :: kinds ++ [.closeGroup]

def IsTerm (kinds : List TokenKind) : Prop :=
  ∃ room term, TermOf room kinds term

/-- The one expression becomes the other one when the terms of runs are put in another order, and
the parentheses around runs are left out in runs of the same operator, or put in, any number of
times and anywhere. A single term in parentheses counts as a run of any operator. -/
inductive Regroups : List TokenKind → List TokenKind → Prop
  | symm {kinds kinds' : List TokenKind} (h : Regroups kinds kinds') : Regroups kinds' kinds
  | trans {kinds middle kinds' : List TokenKind} (h : Regroups kinds middle)
      (h' : Regroups middle kinds') : Regroups kinds kinds'
  | permute (operator : Operator) {rows rows' : List (List TokenKind)} (hsome : rows ≠ [])
      (hterms : ∀ row ∈ rows, IsTerm row) (hperm : rows.Perm rows') :
      Regroups (joined operator rows) (joined operator rows')
  | ungroup (operator : Operator) {before inner after : List (List TokenKind)} (hsome : inner ≠ [])
      (hterms : ∀ row ∈ before ++ inner ++ after, IsTerm row) :
      Regroups (joined operator (before ++ grouped (joined operator inner) :: after))
        (joined operator (before ++ inner ++ after))
  | inside (operator : Operator) {before after : List (List TokenKind)}
      {kinds kinds' : List TokenKind} (hterms : ∀ row ∈ before ++ after, IsTerm row)
      (hinside : Regroups kinds kinds') :
      Regroups (joined operator (before ++ grouped kinds :: after))
        (joined operator (before ++ grouped kinds' :: after))

/-- The formula of terms with an operator between them: a single term is no run. -/
def ofTerms (operator : Operator) : List (Formula String) → Formula String
  | [term] => term
  | terms => .run operator terms

theorem ofTerms_of_ne (operator : Operator) {terms : List (Formula String)}
    (hsingle : ∀ term, terms ≠ [term]) : ofTerms operator terms = .run operator terms := by
  unfold ofTerms
  split
  · next term => exact absurd rfl (hsingle term)
  · rfl

/-- A term between others makes a run, unless it stands alone. -/
theorem ofTerms_append_cons (operator : Operator) (before after : List (Formula String)) :
    (before = [] ∧ after = []) ∨
      ∀ term,
        ofTerms operator (before ++ term :: after) = .run operator (before ++ term :: after) := by
  by_cases halone : before = [] ∧ after = []
  · exact .inl halone
  · refine .inr fun term => ofTerms_of_ne operator fun other hother => halone ?_
    have hlength := congrArg List.length hother
    simp only [List.length_append, List.length_cons, List.length_nil] at hlength
    exact ⟨List.eq_nil_of_length_eq_zero (by omega), List.eq_nil_of_length_eq_zero (by omega)⟩

/-- Terms have formulas, all of them with the same room for parentheses. -/
theorem exists_termOf {rows : List (List TokenKind)} (hterms : ∀ row ∈ rows, IsTerm row) :
    ∃ (room : Nat) (named : List TokenKind → Formula String),
      ∀ row ∈ rows, TermOf room row (named row) := by
  have hroom : ∃ room, ∀ row ∈ rows, ∃ term, TermOf room row term := by
    induction rows with
    | nil => exact ⟨0, List.forall_mem_nil _⟩
    | cons row rows ih =>
      obtain ⟨⟨room, term, hterm⟩, hrest⟩ := List.forall_mem_cons.mp hterms
      obtain ⟨room', hrest⟩ := ih hrest
      refine ⟨max room room', List.forall_mem_cons.mpr ⟨⟨term, ?_⟩, ?_⟩⟩
      · exact hterm.mono (Nat.le_max_left _ _)
      · intro other hother
        obtain ⟨term, hterm⟩ := hrest other hother
        exact ⟨term, hterm.mono (Nat.le_max_right _ _)⟩
  obtain ⟨room, hterms⟩ := hroom
  have : Nonempty (Formula String) := ⟨.leaf "" false⟩
  choose! named hnamed using hterms
  exact ⟨room, named, hnamed⟩

theorem forall₂_map_termOf {room : Nat} {named : List TokenKind → Formula String}
    {rows : List (List TokenKind)} (hterms : ∀ row ∈ rows, TermOf room row (named row)) :
    List.Forall₂ (TermOf room) rows (rows.map named) :=
  List.forall₂_map_right_iff.mpr (List.forall₂_same.mpr hterms)

theorem tailOf_of_forall₂ {room : Nat} (operator : Operator) {rows : List (List TokenKind)}
    {terms : List (Formula String)} (hterms : List.Forall₂ (TermOf room) rows terms) :
    TailOf room operator (rows.flatMap (.operator operator :: ·)) terms := by
  induction hterms with
  | nil => exact .nil room operator
  | cons hterm _ ih =>
    rw [List.flatMap_cons]
    exact .cons hterm ih

theorem exprOf_joined {room : Nat} (operator : Operator) {rows : List (List TokenKind)}
    {terms : List (Formula String)} (hsome : rows ≠ [])
    (hterms : List.Forall₂ (TermOf room) rows terms) :
    ExprOf room (joined operator rows) (ofTerms operator terms) := by
  rcases hterms with _ | ⟨hfirst, hrest⟩
  · exact absurd rfl hsome
  · rcases hrest with _ | ⟨hsecond, hrest⟩
    · simp only [joined, List.flatMap_nil, List.append_nil, ofTerms]
      exact .single hfirst
    · exact .run operator hfirst (tailOf_of_forall₂ operator (.cons hsecond hrest))
        (List.cons_ne_nil _ _)

/-- A group between terms. -/
theorem exprOf_joined_grouped {room : Nat} (operator : Operator)
    {named : List TokenKind → Formula String} {before after : List (List TokenKind)}
    {kinds : List TokenKind} {formula : Formula String}
    (hterms : ∀ row ∈ before ++ after, TermOf room row (named row))
    (hinside : ExprOf room kinds formula) :
    ExprOf (room + 1) (joined operator (before ++ grouped kinds :: after))
      (ofTerms operator (before.map named ++ formula :: after.map named)) := by
  have hmore : ∀ row ∈ before ++ after, TermOf (room + 1) row (named row) :=
    fun row hrow => (hterms row hrow).mono (Nat.le_succ room)
  obtain ⟨hbefore, hafter⟩ := List.forall_mem_append.mp hmore
  refine exprOf_joined operator (List.append_ne_nil_of_right_ne_nil _ (List.cons_ne_nil _ _)) ?_
  exact List.rel_append (forall₂_map_termOf hbefore)
    (.cons (.group hinside) (forall₂_map_termOf hafter))

theorem rearranges_ofTerms_perm (operator : Operator) {terms terms' : List (Formula String)}
    (hperm : terms.Perm terms') :
    (ofTerms operator terms).Rearranges (ofTerms operator terms') := by
  by_cases hsingle : ∃ term, terms = [term]
  · obtain ⟨term, rfl⟩ := hsingle
    obtain rfl := List.singleton_perm.mp hperm
    exact .refl _
  · have hsingle' : ∀ term, terms' ≠ [term] := by
      rintro term rfl
      exact hsingle ⟨term, List.perm_singleton.mp hperm⟩
    rw [ofTerms_of_ne operator fun term hterm => hsingle ⟨term, hterm⟩,
      ofTerms_of_ne operator hsingle']
    exact .permute operator hperm

theorem rearranges_ofTerms_splice (operator : Operator) {inner : List (Formula String)}
    (hsome : inner ≠ []) (before after : List (Formula String)) :
    (ofTerms operator (before ++ ofTerms operator inner :: after)).Rearranges
      (ofTerms operator (before ++ inner ++ after)) := by
  by_cases hsingle : ∃ term, inner = [term]
  · obtain ⟨term, rfl⟩ := hsingle
    rw [List.append_assoc]
    exact .refl _
  · have hrun := ofTerms_of_ne operator fun term hterm => hsingle ⟨term, hterm⟩
    rcases ofTerms_append_cons operator before after with ⟨rfl, rfl⟩ | houter
    · rw [List.append_nil]
      exact .refl _
    · have hlonger : ∀ term, before ++ inner ++ after ≠ [term] := by
        intro term hterm
        have hlength := congrArg List.length hterm
        simp only [List.length_append, List.length_singleton] at hlength
        have hinner := List.length_pos_iff.mpr hsome
        exact hsingle (List.length_eq_one_iff.mp (by omega))
      rw [houter, hrun, ofTerms_of_ne operator hlonger]
      exact .splice operator before inner after

theorem rearranges_ofTerms_inside (operator : Operator) {term term' : Formula String}
    (hterm : term.Rearranges term') (before after : List (Formula String)) :
    (ofTerms operator (before ++ term :: after)).Rearranges
      (ofTerms operator (before ++ term' :: after)) := by
  rcases ofTerms_append_cons operator before after with ⟨rfl, rfl⟩ | houter
  · exact hterm
  · rw [houter, houter]
    exact .inRun operator before after hterm

/-- Expressions that are regrouped have formulas that are rearranged. -/
theorem Regroups.exists_formulas {kinds kinds' : List TokenKind} (h : Regroups kinds kinds') :
    ∃ room formula formula', ExprOf room kinds formula ∧ ExprOf room kinds' formula' ∧
      formula.Rearranges formula' := by
  induction h with
  | symm _ ih =>
    obtain ⟨room, formula, formula', hexpr, hexpr', hrearranges⟩ := ih
    exact ⟨room, formula', formula, hexpr', hexpr, hrearranges.symm⟩
  | trans _ _ ih ih' =>
    obtain ⟨room, formula, middle, hexpr, hmiddle, hrearranges⟩ := ih
    obtain ⟨room', middle', formula', hmiddle', hexpr', hrearranges'⟩ := ih'
    obtain rfl := hmiddle.unique hmiddle'
    exact ⟨max room room', formula, formula', hexpr.mono (Nat.le_max_left _ _),
      hexpr'.mono (Nat.le_max_right _ _), hrearranges.trans hrearranges'⟩
  | @permute operator rows rows' hsome hterms hperm =>
    obtain ⟨room, named, hnamed⟩ := exists_termOf hterms
    have hnamed' : ∀ row ∈ rows', TermOf room row (named row) :=
      fun row hrow => hnamed row (hperm.mem_iff.mpr hrow)
    have hsome' : rows' ≠ [] := fun hnil => hsome (List.perm_nil.mp (hnil ▸ hperm))
    exact ⟨room, _, _, exprOf_joined operator hsome (forall₂_map_termOf hnamed),
      exprOf_joined operator hsome' (forall₂_map_termOf hnamed'),
      rearranges_ofTerms_perm operator (hperm.map named)⟩
  | @ungroup operator before inner after hsome hterms =>
    obtain ⟨room, named, hnamed⟩ := exists_termOf hterms
    have hinner : ∀ row ∈ inner, TermOf room row (named row) :=
      fun row hrow => hnamed row (by simp [hrow])
    have houter : ∀ row ∈ before ++ after, TermOf room row (named row) := by
      intro row hrow
      refine hnamed row ?_
      rcases List.mem_append.mp hrow with hbefore | hafter
      · simp [hbefore]
      · simp [hafter]
    have hspliced := exprOf_joined operator
      (List.append_ne_nil_of_left_ne_nil (List.append_ne_nil_of_right_ne_nil before hsome) after)
      (forall₂_map_termOf hnamed)
    have hinside := exprOf_joined operator hsome (forall₂_map_termOf hinner)
    refine ⟨room + 1, _, _, exprOf_joined_grouped operator houter hinside,
      hspliced.mono (Nat.le_succ room), ?_⟩
    rw [List.map_append, List.map_append]
    exact rearranges_ofTerms_splice operator (by simpa using hsome) _ _
  | @inside operator before after kinds kinds' hterms _ ih =>
    obtain ⟨room, named, hnamed⟩ := exists_termOf hterms
    obtain ⟨room', formula, formula', hexpr, hexpr', hrearranges⟩ := ih
    have hmore : ∀ row ∈ before ++ after, TermOf (max room room') row (named row) :=
      fun row hrow => (hnamed row hrow).mono (Nat.le_max_left _ _)
    exact ⟨max room room' + 1, _, _,
      exprOf_joined_grouped operator hmore (hexpr.mono (Nat.le_max_right _ _)),
      exprOf_joined_grouped operator hmore (hexpr'.mono (Nat.le_max_right _ _)),
      rearranges_ofTerms_inside operator hrearranges _ _⟩

end Formula

/-! ### What is read -/

open Formula (Rearranges Regroups Spelled)

/-- Handles in the place of names change nothing about how two formulas are related. -/
theorem Formula.Rearranges.holds_map_eq {named named' : Formula String}
    (h : named.Rearranges named') (handle : String → Flag) (lookup : Flag → Bool) :
    (named.map handle).holds lookup = (named'.map handle).holds lookup := by
  have hmap : ∀ formula : Formula String,
      (formula.map handle).holds lookup = formula.holds fun name => lookup (handle name) :=
    fun formula => Formula.holds_map formula fun _ _ => rfl
  rw [hmap, hmap, h.holds_eq]

/-- A text that is regrouped is read where there is room for its parentheses, with the handles that
its names have since the first text was read. -/
theorem Registry.exists_parse_of_regroups {text text' : String}
    {kinds kinds' : List Formula.TokenKind} (hspelled : Spelled text.toList kinds)
    (hspelled' : Spelled text'.toList kinds') (hregroups : Regroups kinds kinds')
    {registry parsed : Registry} {negate : Bool} {limit : Nat} {formula : Formula Flag}
    (hparse : registry.parse text negate limit = .ok (formula, parsed)) :
    ∃ room, ∀ limit' ≥ room, ∀ later : List Registry.Call,
      ∃ formula', (parsed.run later).2.parse text' negate limit' =
          .ok (formula', (parsed.run later).2) ∧
        ∀ lookup, formula'.holds lookup = formula.holds lookup := by
  obtain ⟨named, handle, hread, rfl, -, hhandle⟩ := exists_handle_of_parse hparse
  obtain ⟨room, first, named', hfirst, hexpr', hrearranges⟩ := hregroups.exists_formulas
  obtain ⟨kinds'', hspelled'', hexpr⟩ := Formula.parse_eq_ok_iff.mp hread
  obtain rfl := hspelled.unique hspelled''
  obtain rfl := hfirst.unique hexpr
  refine ⟨room, ?_⟩
  intro limit' hroom later
  have hread' : Formula.parse text' limit' = .ok named' :=
    Formula.parse_eq_ok_iff.mpr ⟨kinds', hspelled', hexpr'.mono hroom⟩
  have hhandle' : ∀ name ∈ named'.occurrences,
      (parsed.run later).2.lookup name = some (handle name) := by
    intro name hname
    exact (parsed.extends_run later).lookup name _
      (hhandle name (hrearranges.mem_occurrences_iff.mpr hname))
  refine ⟨_, parse_of_lookup hread' hhandle' negate, ?_⟩
  intro lookup
  have hvalue := hrearranges.holds_map_eq handle lookup
  cases negate with
  | false => exact hvalue.symm
  | true => exact congrArg not hvalue.symm

/-- **The order of terms and the parentheses around runs of the same operator do not matter.**
Formulas that are rearranged have the same value for every lookup. Where a text has been read, one
that is the same but for the order of terms and for such parentheses is read as well, if there is
room for its parentheses, behind any later calls. It brings no new names, and its formula has the
same value for every lookup. -/
theorem value_of_rearranged :
    (∀ {α : Type} {formula formula' : Formula α}, formula.Rearranges formula' →
      ∀ lookup, formula.holds lookup = formula'.holds lookup) ∧
    ∀ {text text' : String} {kinds kinds' : List Formula.TokenKind},
      Spelled text.toList kinds → Spelled text'.toList kinds' → Regroups kinds kinds' →
      ∀ {registry parsed : Registry} {negate : Bool} {limit : Nat} {formula : Formula Flag},
        registry.parse text negate limit = .ok (formula, parsed) →
        ∃ room, ∀ limit' ≥ room, ∀ later : List Registry.Call,
          ∃ formula', (parsed.run later).2.parse text' negate limit' =
              .ok (formula', (parsed.run later).2) ∧
            ∀ lookup, formula'.holds lookup = formula.holds lookup := by
  constructor
  · intro α formula formula' hrearranges lookup
    exact hrearranges.holds_eq lookup
  · intro text text' kinds kinds' hspelled hspelled' hregroups
    exact Registry.exists_parse_of_regroups hspelled hspelled' hregroups

/-- A group is opened up in an odd run, and its last term is put in front. -/
theorem value_of_rearranged_of_odd_run :
    ∃ kinds kinds' formula parsed room formula',
      Spelled "a ^ (b ^ !c)".toList kinds ∧ Spelled "!c ^ a ^ b".toList kinds' ∧
      Regroups kinds kinds' ∧
      (Registry.ofNames ["b"]).parse "a ^ (b ^ !c)" true 1 = .ok (formula, parsed) ∧
      (parsed.run [.intern "e"]).2.parse "!c ^ a ^ b" true room =
        .ok (formula', (parsed.run [.intern "e"]).2) ∧
      ∀ lookup, formula'.holds lookup = formula.holds lookup := by
  have hcut : Formula.tokensFrom 0 "a ^ (b ^ !c)".toList = .ok
      [⟨.name "a", 0⟩, ⟨.operator .odd, 2⟩, ⟨.openGroup, 4⟩, ⟨.name "b", 5⟩, ⟨.operator .odd, 7⟩,
        ⟨.negation, 9⟩, ⟨.name "c", 10⟩, ⟨.closeGroup, 11⟩] := by
    decide +kernel
  have hcut' : Formula.tokensFrom 0 "!c ^ a ^ b".toList = .ok
      [⟨.negation, 0⟩, ⟨.name "c", 1⟩, ⟨.operator .odd, 3⟩, ⟨.name "a", 5⟩, ⟨.operator .odd, 7⟩,
        ⟨.name "b", 9⟩] := by
    decide +kernel
  have hspelled := Formula.spelled_of_tokensFrom hcut
  have hspelled' := Formula.spelled_of_tokensFrom hcut'
  have hterms : ∀ row ∈ [[Formula.TokenKind.name "a"], [.name "b"], [.negation, .name "c"]],
      Formula.IsTerm row := by
    simp only [List.forall_mem_cons]
    exact ⟨⟨0, _, .name 0 "a"⟩, ⟨0, _, .name 0 "b"⟩, ⟨0, _, .negated 0 "c"⟩, List.forall_mem_nil _⟩
  have hopened := @Regroups.ungroup .odd [[.name "a"]] [[.name "b"], [.negation, .name "c"]] []
    (List.cons_ne_nil _ _) hterms
  have hmoved := @Regroups.permute .odd _ [[.negation, .name "c"], [.name "a"], [.name "b"]]
    (List.cons_ne_nil _ _) hterms (by decide)
  have hregroups := hopened.trans hmoved
  have hread : Formula.parse "a ^ (b ^ !c)" 1 = .ok (.run .odd [.leaf "a" false,
      .run .odd [.leaf "b" false, .leaf "c" true]]) := by
    decide +kernel
  have hparse := (Registry.ofNames ["b"]).parse_of_formula true hread
  obtain ⟨room, hroom⟩ := value_of_rearranged.2 hspelled hspelled' hregroups hparse
  obtain ⟨formula', hparse', hvalue⟩ := hroom room (Nat.le_refl room) [.intern "e"]
  exact ⟨_, _, _, _, room, formula', hspelled, hspelled', hregroups, hparse, hparse', hvalue⟩

end WidgetStyle
