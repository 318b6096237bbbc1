import WidgetStyle.Formula.Reading
import WidgetStyle.Proofs.FormulaTokens
import WidgetStyle.Proofs.Parentheses

/-!
# What the reader of formulas has open

In front of any place that the reader of formulas comes to, every parenthesis is paired but those
that the runs that wait were opened with, in their order: each token that is read keeps this
(`Token.WrittenAs.pending`), so it holds up to the end of the text or up to the first fault. A fault
that calls a parenthesis unmatched is then right about the text in front of it
(`accounts_tokensFrom`).
-/

namespace WidgetStyle.Formula

open Text (byteLength byteLength_append isBlank)

/-! ### One token -/

/-- The offsets of the parentheses that the runs that wait were opened with, the last one first. -/
def Progress.openings (progress : Progress) : List Nat :=
  progress.waiting.map Waiting.opening

/-- A token that is read opens a run, closes the last one that was opened, or does neither. -/
theorem Progress.openings_of_read {limit : Nat} {progress next : Progress} {token : Token}
    (hread : progress.read limit token = .ok next) :
    (token.kind = .openGroup ∧ next.openings = token.offset :: progress.openings) ∨
    (token.kind = .closeGroup ∧ ∃ opening, progress.openings = opening :: next.openings) ∨
    (token.kind ≠ .openGroup ∧ token.kind ≠ .closeGroup ∧ next.openings = progress.openings) := by
  obtain ⟨waiting, run, expected⟩ := progress
  cases expected with
  | term =>
    change readTerm limit _ token = .ok next at hread
    unfold readTerm at hread
    split at hread
    · next hkind =>
      cases hread
      exact .inr (.inr ⟨by simp [hkind], by simp [hkind], rfl⟩)
    · next hkind =>
      cases hread
      exact .inr (.inr ⟨by simp [hkind], by simp [hkind], rfl⟩)
    · next hkind =>
      split at hread
      · cases hread
        exact .inl ⟨hkind, rfl⟩
      · cases hread
    · cases hread
    · cases hread
  | negatedName =>
    change readNegatedName _ token = .ok next at hread
    unfold readNegatedName at hread
    split at hread
    · next hkind =>
      cases hread
      exact .inr (.inr ⟨by simp [hkind], by simp [hkind], rfl⟩)
    · cases hread
    · cases hread
  | operator =>
    change readOperator _ token = .ok next at hread
    unfold readOperator at hread
    split at hread
    · next hkind =>
      split at hread
      · cases hread
      · cases hread
        exact .inr (.inr ⟨by simp [hkind], by simp [hkind], rfl⟩)
    · next hkind =>
      cases waiting with
      | nil => cases hread
      | cons outer waiting =>
        cases hread
        exact .inr (.inl ⟨hkind, outer.opening, rfl⟩)
    all_goals
      split at hread
      · cases hread
      · cases hread

/-- What starts a term. -/
def TokenKind.StartsTerm : TokenKind → Prop
  | .name _ | .negation | .openGroup => True
  | .operator _ | .closeGroup => False

/-- Where no term is found, the fault depends on whether the run has an operator. -/
theorem Fault.elim_ne {operator : Option Operator} {fault other : Fault} (hfault : fault ≠ other)
    (hafter : ∀ operator, missingTermAfter operator ≠ other) :
    operator.elim fault missingTermAfter ≠ other := by
  cases operator with
  | none => exact hfault
  | some operator => exact hafter operator

/-- All other faults call no parenthesis unmatched. -/
theorem Fault.blameless {fault : Fault} (hopening : fault ≠ .unmatchedOpen)
    (hclosing : fault ≠ .unmatchedClose) {P Q : Prop} :
    (fault = .unmatchedOpen → P) ∧ (fault = .unmatchedClose → Q) :=
  ⟨fun hfault => absurd hfault hopening, fun hfault => absurd hfault hclosing⟩

/-- An opening parenthesis is called unmatched at a token that starts a term in the place of an
operator, and it is the last one that is open. A closing one is called unmatched where none is
open. -/
theorem Progress.blame_of_read {limit : Nat} {progress : Progress} {token : Token} {e : FaultAt}
    (hread : progress.read limit token = .error e) :
    (e.fault = .unmatchedOpen →
      token.kind.StartsTerm ∧ progress.openings.head? = some e.offset) ∧
    (e.fault = .unmatchedClose →
      token.kind = .closeGroup ∧ token.offset = e.offset ∧ progress.openings = []) := by
  obtain ⟨waiting, ⟨operator, terms⟩, expected⟩ := progress
  cases expected with
  | term =>
    change readTerm limit _ token = .error e at hread
    unfold readTerm at hread
    split at hread
    · cases hread
    · cases hread
    · split at hread
      · cases hread
      · cases hread
        exact Fault.blameless (by simp) (by simp)
    all_goals
      cases hread
      exact Fault.blameless (Fault.elim_ne (by simp) (by simp)) (Fault.elim_ne (by simp) (by simp))
  | negatedName =>
    change readNegatedName _ token = .error e at hread
    unfold readNegatedName at hread
    split at hread
    · cases hread
    · cases hread
      exact Fault.blameless (by simp) (by simp)
    · cases hread
      exact Fault.blameless (by simp) (by simp)
  | operator =>
    change readOperator _ token = .error e at hread
    unfold readOperator at hread
    split at hread
    · split at hread
      · cases hread
        exact Fault.blameless (by simp) (by simp)
      · cases hread
    · next hkind =>
      cases waiting with
      | nil =>
        cases hread
        refine ⟨?_, fun _ => ⟨hkind, rfl, rfl⟩⟩
        rintro ⟨⟩
      | cons outer waiting => cases hread
    all_goals
      next hkind =>
        cases waiting with
        | nil =>
          cases hread
          exact Fault.blameless (by simp) (by simp)
        | cons inner waiting =>
          cases hread
          refine ⟨fun _ => ⟨?_, rfl⟩, ?_⟩
          · rw [hkind]
            trivial
          · rintro ⟨⟩

/-! ### The text that has been read -/

/-- The token is written as a text, and stands at an offset. -/
inductive Token.WrittenAs (token : Token) : List Char → Prop
  | mark {c : Char} (hmark : mark? c = some token.kind) : WrittenAs token [c]
  | name {word : List Char} (hsome : word ≠ []) (hword : ∀ c ∈ word, isNameChar c = true)
      (hkind : token.kind = .name (String.ofList word)) : WrittenAs token word

/-- Neither a blank nor a character of a name is a parenthesis. -/
theorem ne_parenthesis {c : Char} (hother : isBlank c = true ∨ isNameChar c = true) :
    c ≠ '(' ∧ c ≠ ')' := by
  have hno : ∀ kind, mark? c = some kind → False := by
    intro kind hmark
    obtain ⟨hblank, hname⟩ := of_mark? hmark
    simp [hblank, hname] at hother
  constructor
  · rintro rfl
    exact hno .openGroup rfl
  · rintro rfl
    exact hno .closeGroup rfl

section
variable {token : Token} {word : List Char}

/-- A mark is written as its character. -/
theorem Token.WrittenAs.eq_of_mark? (hwritten : token.WrittenAs word) {c : Char}
    (hmark : mark? c = some token.kind) : word = [c] := by
  cases hwritten with
  | mark hmark' => rw [Formula.eq_of_mark? hmark' hmark]
  | name hsome hword hkind =>
    have hname := name?_of_mark? hmark
    rw [hkind] at hname
    cases hname

theorem Token.WrittenAs.balanced (hwritten : token.WrittenAs word)
    (hopens : token.kind ≠ .openGroup) (hcloses : token.kind ≠ .closeGroup) : Balanced word := by
  apply Balanced.of_others
  cases hwritten with
  | @mark c hmark =>
    intro c' hc'
    obtain rfl : c' = c := by simpa using hc'
    constructor
    · rintro rfl
      exact hopens (Option.some.inj hmark).symm
    · rintro rfl
      exact hcloses (Option.some.inj hmark).symm
  | name hsome hword hname =>
    intro c hc
    exact ne_parenthesis (.inr (hword c hc))

/-- A token that starts a term starts with a character of a name, a negation or a parenthesis. -/
theorem Token.WrittenAs.head_of_startsTerm (hwritten : token.WrittenAs word)
    (hstarts : token.kind.StartsTerm) (back : List Char) :
    ∀ c ∈ (word ++ back).head?, isNameChar c = true ∨ c = '!' ∨ c = '(' := by
  cases hwritten with
  | @mark c hmark =>
    intro c' hc'
    obtain rfl : c = c' := by simpa using hc'
    generalize token.kind = kind at hmark hstarts
    cases kind with
    | name name => exact absurd (name?_of_mark? hmark) (Option.some_ne_none name)
    | operator operator => exact hstarts.elim
    | negation => exact .inr (.inl (Formula.eq_of_mark? hmark rfl))
    | openGroup => exact .inr (.inr (Formula.eq_of_mark? hmark rfl))
    | closeGroup => exact hstarts.elim
  | name hsome hword hname =>
    obtain ⟨c, word, rfl⟩ := List.exists_cons_of_ne_nil hsome
    intro c' hc'
    obtain rfl : c = c' := by simpa using hc'
    exact .inl (hword c List.mem_cons_self)

end

/-- What a fault says about the parentheses of a text, if it calls one unmatched. -/
structure Blames (text : List Char) (e : FaultAt) : Prop where
  /-- Behind the opening parenthesis stands a text with paired ones, and then the end or a term. -/
  opening : e.fault = .unmatchedOpen → ∃ front inside stop,
    text = front ++ '(' :: (inside ++ stop) ∧ byteLength front = e.offset ∧ Balanced inside ∧
      ∀ c ∈ stop.head?, isNameChar c = true ∨ c = '!' ∨ c = '('
  /-- In front of the closing parenthesis all are paired. -/
  closing : e.fault = .unmatchedClose → ∃ front back,
    text = front ++ ')' :: back ∧ byteLength front = e.offset ∧ Balanced front

theorem Blames.of_ne {text : List Char} {e : FaultAt} (hopening : e.fault ≠ .unmatchedOpen)
    (hclosing : e.fault ≠ .unmatchedClose) : Blames text e := by
  obtain ⟨hopen, hclose⟩ := Fault.blameless hopening hclosing
  exact ⟨hopen, hclose⟩

section
variable {limit : Nat} {progress next : Progress} {token : Token} {front word : List Char}

/-- A token that is read keeps the parentheses that are open. -/
theorem Token.WrittenAs.pending (hwritten : token.WrittenAs word)
    (hoffset : token.offset = byteLength front) (hpending : Pending front progress.openings)
    (hread : progress.read limit token = .ok next) : Pending (front ++ word) next.openings := by
  rcases Progress.openings_of_read hread with ⟨hkind, hopened⟩ | ⟨hkind, opening, hclosed⟩ |
    ⟨hopens, hcloses, hsame⟩
  · obtain rfl : word = ['('] := hwritten.eq_of_mark? (congrArg some hkind.symm)
    rw [hopened, hoffset]
    exact .cons hpending .nil
  · obtain rfl : word = [')'] := hwritten.eq_of_mark? (congrArg some hkind.symm)
    rw [hclosed] at hpending
    exact hpending.close
  · rw [hsame]
    exact hpending.append (hwritten.balanced hopens hcloses)

theorem Token.WrittenAs.blames {e : FaultAt} (hwritten : token.WrittenAs word)
    (hoffset : token.offset = byteLength front) (hpending : Pending front progress.openings)
    (hread : progress.read limit token = .error e) (back : List Char) :
    Blames (front ++ (word ++ back)) e := by
  obtain ⟨hopening, hclosing⟩ := Progress.blame_of_read hread
  constructor
  · intro hfault
    obtain ⟨hstarts, hhead⟩ := hopening hfault
    obtain ⟨before, inside, htext, hbefore, hinside⟩ :=
      hpending.exists_opening hhead (word ++ back)
    exact ⟨before, inside, _, htext, hbefore, hinside, hwritten.head_of_startsTerm hstarts back⟩
  · intro hfault
    obtain ⟨hkind, hplace, hnone⟩ := hclosing hfault
    obtain rfl : word = [')'] := hwritten.eq_of_mark? (congrArg some hkind.symm)
    rw [hnone] at hpending
    cases hpending with
    | nil hbalanced => exact ⟨front, back, rfl, hoffset.symm.trans hplace, hbalanced⟩

/-- Tokens are read up to the end of a text, and the open parentheses of the text are then those of
the runs that wait, or there is a fault and it is right about the parentheses. -/
structure Progress.Accounts (limit : Nat) (progress : Progress) (tokens : List Token)
    (text : List Char) : Prop where
  pending : ∀ next, progress.readAll limit tokens = .ok next → Pending text next.openings
  blames : ∀ e, progress.readAll limit tokens = .error e → Blames text e

theorem Token.WrittenAs.accounts {tokens : List Token} {back : List Char}
    (hwritten : token.WrittenAs word) (hoffset : token.offset = byteLength front)
    (hpending : Pending front progress.openings)
    (hrest : ∀ next : Progress, Pending (front ++ word) next.openings →
      next.Accounts limit tokens (front ++ word ++ back)) :
    progress.Accounts limit (token :: tokens) (front ++ (word ++ back)) := by
  rw [← List.append_assoc]
  cases hread : progress.read limit token with
  | ok next =>
    obtain ⟨hpending', hblames⟩ := hrest next (hwritten.pending hoffset hpending hread)
    constructor
    · intro last hlast
      rw [Progress.readAll, hread] at hlast
      exact hpending' last hlast
    · intro e he
      rw [Progress.readAll, hread] at he
      exact hblames e he
  | error fault =>
    constructor
    · intro last hlast
      rw [Progress.readAll, hread] at hlast
      cases hlast
    · intro e he
      rw [Progress.readAll, hread] at he
      cases he
      rw [List.append_assoc]
      exact hwritten.blames hoffset hpending hread back

end

/-- **What the reader has open is what the text has open**, at every place to which it comes. -/
theorem accounts_tokensFrom {limit offset : Nat} {cs : List Char} {tokens : List Token}
    (hcut : tokensFrom offset cs = .ok tokens) {progress : Progress} {front : List Char}
    (hoffset : byteLength front = offset) (hpending : Pending front progress.openings) :
    progress.Accounts limit tokens (front ++ cs) := by
  fun_induction tokensFrom offset cs generalizing tokens progress front with
  | case1 offset =>
    cases hcut
    constructor
    · intro next hread
      cases hread
      rwa [List.append_nil]
    · rintro e ⟨⟩
  | case2 offset c cs hblank ih =>
    obtain ⟨hopening, hclosing⟩ := ne_parenthesis (.inl hblank)
    have hpending' := hpending.append (.other hopening hclosing .nil)
    have hoffset' : byteLength (front ++ [c]) = offset + c.utf8Size := by
      rw [byteLength_append, hoffset]
      rfl
    have hrest := ih hcut hoffset' hpending'
    rwa [List.append_assoc] at hrest
  | case3 => cases hcut
  | case4 offset c cs hblank kind hmark more hmore ih =>
    cases hcut
    have hoffset' : byteLength (front ++ [c]) = offset + c.utf8Size := by
      rw [byteLength_append, hoffset]
      rfl
    have hwritten : Token.WrittenAs ⟨kind, offset⟩ [c] := .mark hmark
    exact hwritten.accounts hoffset.symm hpending fun next hnext => ih hmore hoffset' hnext
  | case5 => cases hcut
  | case6 offset c cs hblank hmark hname hshorter more hmore ih =>
    cases hcut
    have hword : ∀ next ∈ c :: cs.takeWhile isNameChar, isNameChar next = true := by
      intro next hnext
      rcases List.mem_cons.mp hnext with rfl | hnext
      · exact hname
      · exact List.mem_takeWhile_imp hnext
    have hoffset' : byteLength (front ++ c :: cs.takeWhile isNameChar) =
        offset + byteLength (c :: cs.takeWhile isNameChar) := by
      rw [byteLength_append, hoffset]
    have hwritten : Token.WrittenAs ⟨.name (String.ofList (c :: cs.takeWhile isNameChar)), offset⟩
        (c :: cs.takeWhile isNameChar) := .name (List.cons_ne_nil c _) hword rfl
    have haccounts : progress.Accounts limit _
        (front ++ (c :: cs.takeWhile isNameChar ++ cs.dropWhile isNameChar)) :=
      hwritten.accounts hoffset.symm hpending fun next hnext => ih hmore hoffset' hnext
    rwa [List.cons_append, List.takeWhile_append_dropWhile] at haccounts
  | case7 => cases hcut

end WidgetStyle.Formula
