import Mathlib.Data.List.Basic
import WidgetStyle.Formula.Reading
import WidgetStyle.Proofs.FormulaGrammar
import WidgetStyle.Proofs.FormulaTokens

/-!
# Reading gives the formula of a derivation

The tokens that have been read at some moment are those of the runs that wait, each with the
parenthesis that was opened in it, and those of the run that grows (`Progress.Consumes`). A token
that is read keeps this (`consumes_read`), so a row that is read to its end has a derivation. The
other way round, the tokens of a term are read as a term wherever one may stand and there is room
for its parentheses (`TermOf.readAll`). So a row is read exactly if it has a derivation, and it has
one formula at most.
-/

namespace WidgetStyle.Formula

/-! ### What is read has a derivation -/

/-- The tokens of a run that could end here. -/
inductive RunOf (room : Nat) : List TokenKind → Growing → Prop
  | single {kinds : List TokenKind} {term : Formula String} (hterm : TermOf room kinds term) :
      RunOf room kinds ⟨none, [term]⟩
  | several {first rest : List TokenKind} {term : Formula String} {terms : List (Formula String)}
      (operator : Operator) (hfirst : TermOf room first term)
      (hrest : TailOf room operator rest terms) (hsome : terms ≠ []) :
      RunOf room (first ++ rest) ⟨some operator, term :: terms⟩

/-- The tokens of a run as far as it has been read, by what has to come next. -/
inductive GrowthOf (room : Nat) : List TokenKind → Growing → Expected → Prop
  | start : GrowthOf room [] .start .term
  | run {kinds : List TokenKind} {run : Growing} (hrun : RunOf room kinds run) :
      GrowthOf room kinds run .operator
  | operator {kinds : List TokenKind} {run : Growing} {operator : Operator}
      (hrun : RunOf room kinds run) (hsame : ∀ first ∈ run.operator, first = operator) :
      GrowthOf room (kinds ++ [.operator operator]) ⟨some operator, run.terms⟩ .term
  | negation {kinds : List TokenKind} {run : Growing} (hbefore : GrowthOf room kinds run .term) :
      GrowthOf room (kinds ++ [.negation]) run .negatedName

theorem RunOf.exprOf {room : Nat} {kinds : List TokenKind} {run : Growing}
    (hrun : RunOf room kinds run) : ExprOf room kinds run.formula := by
  rcases hrun with ⟨hterm⟩ | ⟨operator, hfirst, hrest, hsome⟩
  · exact .single hterm
  · exact .run operator hfirst hrest hsome

theorem TailOf.singleton {room : Nat} {kinds : List TokenKind} {term : Formula String}
    (operator : Operator) (hterm : TermOf room kinds term) :
    TailOf room operator (.operator operator :: kinds) [term] := by
  have htail := TailOf.cons hterm (.nil room operator)
  rwa [List.append_nil] at htail

/-- A run grows by a term where one has to come next. -/
theorem GrowthOf.push {room : Nat} {before kinds : List TokenKind} {run : Growing}
    {term : Formula String} (hbefore : GrowthOf room before run .term)
    (hterm : TermOf room kinds term) : RunOf room (before ++ kinds) (run.push term) := by
  cases hbefore with
  | start => exact .single hterm
  | @operator before run operator hrun hsame =>
    rw [List.append_assoc]
    rcases hrun with ⟨hfirst⟩ | ⟨first, hfirst, hrest, hsome⟩
    · exact .several operator hfirst (.singleton operator hterm) (by simp)
    · obtain rfl := hsame first rfl
      rw [List.append_assoc]
      exact .several first hfirst (hrest.append_singleton hterm) (by simp)

/-- The tokens of the runs that wait, and the room for parentheses inside of them. -/
inductive WaitingOf (limit : Nat) : List TokenKind → List Waiting → Nat → Prop
  | nil : WaitingOf limit [] [] limit
  | cons {before kinds : List TokenKind} {waiting : List Waiting} {room : Nat} {run : Growing}
      (opening : Nat) (hbefore : WaitingOf limit before waiting (room + 1))
      (hrun : GrowthOf (room + 1) kinds run .term) :
      WaitingOf limit (before ++ kinds ++ [.openGroup]) (⟨run, opening⟩ :: waiting) room

theorem WaitingOf.length_add {limit room : Nat} {kinds : List TokenKind} {waiting : List Waiting}
    (hwaiting : WaitingOf limit kinds waiting room) : waiting.length + room = limit := by
  induction hwaiting with
  | nil => exact Nat.zero_add limit
  | cons opening hbefore hrun ih =>
    rw [List.length_cons]
    omega

/-- The tokens that have been read. -/
def Progress.Consumes (progress : Progress) (limit : Nat) (kinds : List TokenKind) : Prop :=
  ∃ outer inner room, kinds = outer ++ inner ∧ WaitingOf limit outer progress.waiting room ∧
    GrowthOf room inner progress.run progress.expected

theorem consumes_start (limit : Nat) : Progress.start.Consumes limit [] :=
  ⟨[], [], limit, rfl, .nil, .start⟩

section
variable {limit : Nat} {progress next : Progress} {kinds : List TokenKind} {token : Token}

theorem consumes_readTerm (hconsumes : progress.Consumes limit kinds)
    (hexpected : progress.expected = .term) (hread : progress.readTerm limit token = .ok next) :
    next.Consumes limit (kinds ++ [token.kind]) := by
  obtain ⟨outer, inner, room, rfl, hwaiting, hgrowth⟩ := hconsumes
  rw [hexpected] at hgrowth
  unfold Progress.readTerm at hread
  split at hread
  · next name hkind =>
    cases hread
    rw [hkind, List.append_assoc]
    exact ⟨outer, _, room, rfl, hwaiting, .run (hgrowth.push (.name room name))⟩
  · next hkind =>
    cases hread
    rw [hkind, List.append_assoc]
    exact ⟨outer, _, room, rfl, hwaiting, .negation hgrowth⟩
  · next hkind =>
    split at hread
    · next hlimit =>
      cases hread
      have hroom := hwaiting.length_add
      obtain ⟨room, rfl⟩ : ∃ inside, room = inside + 1 :=
        Nat.exists_eq_succ_of_ne_zero (by omega)
      rw [hkind]
      exact ⟨_, [], room, (List.append_nil _).symm, .cons token.offset hwaiting hgrowth, .start⟩
    · cases hread
  · cases hread
  · cases hread

theorem consumes_readNegatedName (hconsumes : progress.Consumes limit kinds)
    (hexpected : progress.expected = .negatedName)
    (hread : progress.readNegatedName token = .ok next) :
    next.Consumes limit (kinds ++ [token.kind]) := by
  obtain ⟨waiting, run, expected⟩ := progress
  obtain ⟨outer, inner, room, rfl, hwaiting, hgrowth⟩ := hconsumes
  obtain rfl : expected = .negatedName := hexpected
  rcases hgrowth with _ | _ | _ | ⟨hbefore⟩
  unfold Progress.readNegatedName at hread
  split at hread
  · next name hkind =>
    cases hread
    rw [hkind, List.append_assoc, List.append_assoc]
    exact ⟨outer, _, room, rfl, hwaiting, .run (hbefore.push (.negated room name))⟩
  · cases hread
  · cases hread

theorem consumes_readOperator (hconsumes : progress.Consumes limit kinds)
    (hexpected : progress.expected = .operator) (hread : progress.readOperator token = .ok next) :
    next.Consumes limit (kinds ++ [token.kind]) := by
  obtain ⟨waiting, run, expected⟩ := progress
  obtain ⟨outer, inner, room, rfl, hwaiting, hgrowth⟩ := hconsumes
  obtain rfl : expected = .operator := hexpected
  rcases hgrowth with _ | ⟨hrun⟩ | _ | _
  unfold Progress.readOperator at hread
  split at hread
  · next operator hkind =>
    split at hread
    · cases hread
    · next hsame =>
      cases hread
      rw [hkind, List.append_assoc]
      refine ⟨outer, _, room, rfl, hwaiting, .operator hrun ?_⟩
      simpa [Option.filter_eq_none_iff] using hsame
  · next hkind =>
    cases hwaiting with
    | nil => cases hread
    | @cons before kinds _ _ outside opening hbefore houtside =>
      -- the run in parentheses is a term of the run outside
      cases hread
      have hgrown := houtside.push (.group hrun.exprOf)
      rw [hkind]
      refine ⟨before, _, room + 1, ?_, hbefore, .run hgrown⟩
      simp only [List.append_assoc, List.cons_append, List.nil_append]
  all_goals
    split at hread
    · cases hread
    · cases hread

/-- **A token that is read is one more of those that have been read.** -/
theorem consumes_read (hconsumes : progress.Consumes limit kinds)
    (hread : progress.read limit token = .ok next) :
    next.Consumes limit (kinds ++ [token.kind]) := by
  unfold Progress.read at hread
  split at hread
  · next hexpected => exact consumes_readTerm hconsumes hexpected hread
  · next hexpected => exact consumes_readNegatedName hconsumes hexpected hread
  · next hexpected => exact consumes_readOperator hconsumes hexpected hread

theorem consumes_readAll {tokens : List Token} (hconsumes : progress.Consumes limit kinds)
    (hread : progress.readAll limit tokens = .ok next) :
    next.Consumes limit (kinds ++ tokens.map Token.kind) := by
  induction tokens generalizing progress kinds with
  | nil =>
    cases hread
    rwa [List.map_nil, List.append_nil]
  | cons token tokens ih =>
    rw [Progress.readAll] at hread
    split at hread
    · cases hread
    · next hstep =>
      have hrest := ih (consumes_read hconsumes hstep) hread
      rwa [List.append_assoc] at hrest

end

theorem exprOf_of_finish {limit offset : Nat} {progress : Progress} {kinds : List TokenKind}
    {formula : Formula String} (hconsumes : progress.Consumes limit kinds)
    (hfinish : progress.finish offset = .ok formula) : ExprOf limit kinds formula := by
  obtain ⟨waiting, run, expected⟩ := progress
  obtain ⟨outer, inner, room, rfl, hwaiting, hgrowth⟩ := hconsumes
  unfold Progress.finish at hfinish
  split at hfinish
  · cases hfinish
  · cases hfinish
  · next hexpected =>
    obtain rfl : expected = .operator := hexpected
    split at hfinish
    · next hnone =>
      obtain rfl : waiting = [] := hnone
      cases hfinish
      cases hwaiting
      rcases hgrowth with _ | ⟨hrun⟩ | _ | _
      exact hrun.exprOf
    · cases hfinish

/-! ### What has a derivation is read -/

theorem Progress.readAll_cons {limit : Nat} {progress next : Progress} {token : Token}
    (hread : progress.read limit token = .ok next) (tokens : List Token) :
    progress.readAll limit (token :: tokens) = next.readAll limit tokens := by
  rw [readAll, hread]

/-- Where the run has no other operator, an operator is read behind a term. -/
theorem Progress.read_operator {limit : Nat} {waiting : List Waiting} {run : Growing}
    {operator : Operator} (hsame : ∀ first ∈ run.operator, first = operator) (offset : Nat) :
    Progress.read limit ⟨waiting, run, .operator⟩ ⟨.operator operator, offset⟩ =
      .ok ⟨waiting, ⟨some operator, run.terms⟩, .term⟩ := by
  have hnone : run.operator.filter (· ≠ operator) = none := by
    rw [Option.filter_eq_none_iff]
    simpa using hsame
  simp only [read, readOperator, hnone]

mutual

/-- A term is read where one may stand, if the runs that wait leave room for its parentheses. -/
theorem TermOf.readAll {limit room : Nat} {kinds : List TokenKind} {term : Formula String}
    {waiting : List Waiting} (hroom : waiting.length + room ≤ limit) (run : Growing)
    {tokens : List Token} (more : List Token) (hkinds : tokens.map Token.kind = kinds) :
    TermOf room kinds term →
      Progress.readAll limit ⟨waiting, run, .term⟩ (tokens ++ more) =
        Progress.readAll limit ⟨waiting, run.push term, .operator⟩ more
  | .name _ name => by
    obtain ⟨⟨_, offset⟩, rfl, rfl⟩ := List.map_eq_singleton_iff.mp hkinds
    rfl
  | .negated _ name => by
    obtain ⟨⟨_, offset⟩, tokens, rfl, rfl, hrest⟩ := List.map_eq_cons_iff.mp hkinds
    obtain ⟨⟨_, offset'⟩, rfl, rfl⟩ := List.map_eq_singleton_iff.mp hrest
    rfl
  | @TermOf.group room _ _ hinside => by
    obtain ⟨⟨_, opening⟩, tokens, rfl, rfl, hrest⟩ := List.map_eq_cons_iff.mp hkinds
    obtain ⟨inside, last, rfl, hinside', hlast⟩ := List.map_eq_append_iff.mp hrest
    obtain ⟨⟨_, closing⟩, rfl, rfl⟩ := List.map_eq_singleton_iff.mp hlast
    have hopen : Progress.read limit ⟨waiting, run, .term⟩ ⟨.openGroup, opening⟩ =
        .ok ⟨⟨run, opening⟩ :: waiting, .start, .term⟩ := by
      have hlimit : waiting.length < limit := by omega
      simp only [Progress.read, Progress.readTerm, if_pos hlimit]
    have hroom' : (⟨run, opening⟩ :: waiting : List Waiting).length + room ≤ limit := by
      rw [List.length_cons]
      omega
    obtain ⟨grown, rfl, hread⟩ := hinside.readAll hroom' (⟨.closeGroup, closing⟩ :: more) hinside'
    rw [List.cons_append, List.append_assoc, Progress.readAll_cons hopen, List.singleton_append,
      hread]
    rfl

/-- A run is read as far as it goes where one may start. -/
theorem ExprOf.readAll {limit room : Nat} {kinds : List TokenKind} {formula : Formula String}
    {waiting : List Waiting} (hroom : waiting.length + room ≤ limit) {tokens : List Token}
    (more : List Token) (hkinds : tokens.map Token.kind = kinds) :
    ExprOf room kinds formula →
      ∃ run, run.formula = formula ∧
        Progress.readAll limit ⟨waiting, .start, .term⟩ (tokens ++ more) =
          Progress.readAll limit ⟨waiting, run, .operator⟩ more
  | .single hterm => ⟨⟨none, [formula]⟩, rfl, hterm.readAll hroom .start more hkinds⟩
  | @ExprOf.run _ _ _ term _ operator hfirst hrest hsome => by
    obtain ⟨front, back, rfl, hfront, hback⟩ := List.map_eq_append_iff.mp hkinds
    have hread := hfirst.readAll hroom .start (back ++ more) hfront
    have hread' := hrest.readAll hroom (Growing.start.push term)
      (by simp [Growing.start, Growing.push]) more hback
    rw [if_neg hsome] at hread'
    refine ⟨_, ?_, by rw [List.append_assoc, hread, hread']⟩
    rfl

/-- More terms are read behind a run that has no other operator. -/
theorem TailOf.readAll {limit room : Nat} {operator : Operator} {kinds : List TokenKind}
    {terms : List (Formula String)} {waiting : List Waiting}
    (hroom : waiting.length + room ≤ limit) (run : Growing)
    (hsame : ∀ first ∈ run.operator, first = operator) {tokens : List Token} (more : List Token)
    (hkinds : tokens.map Token.kind = kinds) :
    TailOf room operator kinds terms →
      Progress.readAll limit ⟨waiting, run, .operator⟩ (tokens ++ more) =
        Progress.readAll limit ⟨waiting, ⟨if terms = [] then run.operator else some operator,
          run.terms ++ terms⟩, .operator⟩ more
  | .nil _ _ => by
    obtain rfl := List.map_eq_nil_iff.mp hkinds
    rw [if_pos rfl, List.append_nil]
    rfl
  | @TailOf.cons _ _ _ _ term _ hfirst hrest => by
    obtain ⟨⟨_, offset⟩, tokens, rfl, rfl, hbehind⟩ := List.map_eq_cons_iff.mp hkinds
    obtain ⟨front, back, rfl, hfront, hback⟩ := List.map_eq_append_iff.mp hbehind
    have hread := hfirst.readAll hroom ⟨some operator, run.terms⟩ (back ++ more) hfront
    have hread' := hrest.readAll hroom (Growing.push ⟨some operator, run.terms⟩ term)
      (by simp [Growing.push]) more hback
    rw [List.cons_append, List.append_assoc, Progress.readAll_cons (Progress.read_operator hsame _),
      hread, hread', if_neg (List.cons_ne_nil _ _)]
    simp [Growing.push]

end

/-! ### Rows and texts -/

/-- **A row of tokens is read exactly if it has a derivation**, and then as its formula. -/
theorem ofTokens_eq_ok_iff {limit finish : Nat} {tokens : List Token} {formula : Formula String} :
    ofTokens limit finish tokens = .ok formula ↔ ExprOf limit (tokens.map Token.kind) formula := by
  constructor
  · intro hread
    unfold ofTokens at hread
    split at hread
    · cases hread
    · split at hread
      · cases hread
      · next hprogress =>
        exact exprOf_of_finish (consumes_readAll (consumes_start limit) hprogress) hread
  · intro hexpr
    have hroom : ([] : List Waiting).length + limit ≤ limit := (Nat.zero_add limit).le
    obtain ⟨run, rfl, hread⟩ := hexpr.readAll hroom [] rfl
    rw [List.append_nil] at hread
    have hdone : Progress.start.readAll limit tokens = .ok ⟨[], run, .operator⟩ := hread
    have hsome : ¬ tokens.isEmpty = true := by
      intro hnil
      rw [List.isEmpty_iff.mp hnil] at hdone
      cases hdone
    rw [ofTokens, if_neg hsome, hdone]
    rfl

/-- A row of tokens has one formula, however much room there is. -/
theorem ExprOf.unique {room room' : Nat} {kinds : List TokenKind} {formula other : Formula String}
    (hexpr : ExprOf room kinds formula) (hother : ExprOf room' kinds other) : formula = other := by
  have hkinds : (kinds.map fun kind => Token.mk kind 0).map Token.kind = kinds := by
    simp [Function.comp_def]
  have hexpr' := hexpr.mono (Nat.le_max_left room room')
  have hother' := hother.mono (Nat.le_max_right room room')
  rw [← hkinds] at hexpr' hother'
  have hread : ofTokens _ 0 _ = _ := ofTokens_eq_ok_iff.mpr hexpr'
  rw [ofTokens_eq_ok_iff.mpr hother'] at hread
  exact (Except.ok.inj hread).symm

theorem parse_eq_ok_iff {text : String} {limit : Nat} {formula : Formula String} :
    parse text limit = .ok formula ↔
      ∃ kinds, Spelled text.toList kinds ∧ ExprOf limit kinds formula := by
  unfold parse
  constructor
  · intro hparse
    split at hparse
    · cases hparse
    · next hcut => exact ⟨_, spelled_of_tokensFrom hcut, ofTokens_eq_ok_iff.mp hparse⟩
  · rintro ⟨kinds, hspelled, hexpr⟩
    obtain ⟨tokens, hcut, rfl⟩ := hspelled.exists_tokensFrom 0
    rw [hcut]
    exact ofTokens_eq_ok_iff.mpr hexpr

end WidgetStyle.Formula
