import WidgetStyle.Flag.Registry
import WidgetStyle.Proofs.Openings

/-!
# Parentheses without a partner

A closing parenthesis that is called unmatched has no partner. An opening one that is called
unmatched has none in what has been read. That is the whole text only where the text has ended; the
reader also stops at a term in the place of an operator, and the partner may stand behind it
(`unmatched_of_parse`).
-/

namespace WidgetStyle

namespace Formula

/-! ### Texts that are refused -/

/-- The text starts otherwise than the messages for unmatched parentheses. -/
def StartsOtherwise (message : String) : Prop :=
  3 ≤ message.toList.length ∧ message.toList.take 3 ≠ "Unm".toList

instance (message : String) : Decidable (StartsOtherwise message) :=
  inferInstanceAs (Decidable (_ ∧ _))

theorem StartsOtherwise.append {front : String} (hfront : StartsOtherwise front) (back : String) :
    StartsOtherwise (front ++ back) := by
  obtain ⟨hlength, htake⟩ := hfront
  constructor
  · rw [String.toList_append, List.length_append]
    omega
  · rwa [String.toList_append, List.take_append_of_le_length hlength]

theorem Fault.startsOtherwise_message {fault : Fault} (hopen : fault ≠ .unmatchedOpen)
    (hclose : fault ≠ .unmatchedClose) : StartsOtherwise fault.message := by
  cases fault with
  | unmatchedOpen => exact absurd rfl hopen
  | unmatchedClose => exact absurd rfl hclose
  | unexpectedCharacter c =>
    have hfront : StartsOtherwise "Unexpected character '" := by decide +kernel
    exact (hfront.append _).append _
  | missingTermAfter operator =>
    have hfront : StartsOtherwise "Expected identifier after '" := by decide +kernel
    exact (hfront.append _).append _
  | mixedOperators first second =>
    have hfront : StartsOtherwise "Cannot mix '" := by decide +kernel
    exact (((hfront.append _).append _).append _).append _
  | tooDeep limit =>
    have hfront : StartsOtherwise "Expression nested deeper than " := by decide +kernel
    exact (hfront.append _).append _
  | _ => decide +kernel

theorem Fault.eq_of_message {fault : Fault} :
    (fault.message = "Unmatched '('" → fault = .unmatchedOpen) ∧
    (fault.message = "Unmatched ')'" → fault = .unmatchedClose) := by
  by_cases hopen : fault = .unmatchedOpen
  · subst hopen
    exact ⟨fun _ => rfl, fun hmessage => absurd hmessage (by decide)⟩
  · by_cases hclose : fault = .unmatchedClose
    · subst hclose
      exact ⟨fun hmessage => absurd hmessage (by decide), fun _ => rfl⟩
    · have hstarts := startsOtherwise_message hopen hclose
      constructor
      · intro hmessage
        rw [hmessage] at hstarts
        exact absurd hstarts (by decide +kernel)
      · intro hmessage
        rw [hmessage] at hstarts
        exact absurd hstarts (by decide +kernel)

/-- Only unknown characters are found while a text is cut into tokens. -/
theorem exists_unexpectedCharacter {offset : Nat} {cs : List Char} {e : FaultAt}
    (hcut : tokensFrom offset cs = .error e) : ∃ c, e.fault = .unexpectedCharacter c := by
  fun_induction tokensFrom offset cs with
  | case1 => cases hcut
  | case2 offset c cs hblank ih => exact ih hcut
  | case3 offset c cs hblank kind hmark e' hmore ih =>
    cases hcut
    exact ih hmore
  | case4 => cases hcut
  | case5 offset c cs hblank hmark hname hshorter e' hmore ih =>
    cases hcut
    exact ih hmore
  | case6 => cases hcut
  | case7 offset c cs hblank hmark hname =>
    cases hcut
    exact ⟨c, rfl⟩

theorem blames_of_parse {text : String} {limit : Nat} {e : FaultAt}
    (hparse : parse text limit = .error e) : Blames text.toList e := by
  unfold parse at hparse
  split at hparse
  · next fault hcut =>
    cases hparse
    obtain ⟨c, hfault⟩ := exists_unexpectedCharacter hcut
    exact .of_ne (by simp [hfault]) (by simp [hfault])
  · next tokens hcut =>
    obtain ⟨hpending, hblames⟩ : Progress.start.Accounts limit tokens ([] ++ text.toList) :=
      accounts_tokensFrom hcut rfl (.nil .nil)
    unfold ofTokens at hparse
    split at hparse
    · cases hparse
      exact .of_ne (by simp) (by simp)
    · split at hparse
      · next hread =>
        cases hparse
        exact hblames _ hread
      · next progress hread =>
        have hopen := hpending progress hread
        obtain ⟨waiting, ⟨operator, terms⟩, expected⟩ := progress
        cases expected with
        | term =>
          cases hparse
          exact .of_ne (Fault.elim_ne (by simp) (by simp)) (Fault.elim_ne (by simp) (by simp))
        | negatedName =>
          cases hparse
          exact .of_ne (by simp) (by simp)
        | operator =>
          cases waiting with
          | nil => cases hparse
          | cons inner waiting =>
            cases hparse
            constructor
            · intro _
              obtain ⟨front, inside, htext, hfront, hinside⟩ := hopen.exists_opening rfl []
              refine ⟨front, inside, [], ?_, hfront, hinside, ?_⟩
              · rw [← htext, List.append_nil, List.nil_append]
              · rintro c ⟨⟩
            · rintro ⟨⟩

end Formula

namespace Registry

open Formula

theorem parse_eq_error_iff {registry : Registry} {text : String} {negate : Bool} {limit : Nat}
    {e : FaultAt} :
    registry.parse text negate limit = .error e ↔ Formula.parse text limit = .error e := by
  unfold parse
  cases Formula.parse text limit with
  | error e' => simp
  | ok named => simp

/-- **A parenthesis that is called unmatched**: a closing one has no partner. Behind an opening one
all parentheses are paired up to the end of the text, and then it has no partner either, or up to
the start of a term in the place of an operator. Then it has one exactly if the next parenthesis
that is not paired behind there is a closing one. -/
theorem unmatched_of_parse {registry : Registry} {text : String} {negate : Bool} {limit : Nat}
    {e : FaultAt} (hparse : registry.parse text negate limit = .error e) :
    (e.fault.message = "Unmatched '('" → ∃ front inside stop,
      text.toList = front ++ '(' :: (inside ++ stop) ∧ Text.byteLength front = e.offset ∧
      Balanced inside ∧ (stop = [] ∨ ∃ c ∈ stop.head?, isNameChar c = true ∨ c = '!' ∨ c = '(') ∧
      ((∃ closing, Partners text.toList e.offset closing) ↔
        ∃ more back, stop = more ++ ')' :: back ∧ Balanced more)) ∧
    (e.fault.message = "Unmatched ')'" → ∃ front back,
      text.toList = front ++ ')' :: back ∧ Text.byteLength front = e.offset ∧
      ∀ opening, ¬ Partners text.toList opening e.offset) := by
  have hblames := blames_of_parse (parse_eq_error_iff.mp hparse)
  constructor
  · intro hmessage
    obtain ⟨front, inside, stop, htext, hfront, hinside, hstop⟩ :=
      hblames.opening (Fault.eq_of_message.1 hmessage)
    refine ⟨front, inside, stop, htext, hfront, hinside, ?_, ?_⟩
    · cases stop with
      | nil => exact .inl rfl
      | cons c stop => exact .inr ⟨c, rfl, hstop c rfl⟩
    · rw [htext, ← hfront]
      exact hinside.exists_partners_iff
  · intro hmessage
    obtain ⟨front, back, htext, hfront, hbalanced⟩ :=
      hblames.closing (Fault.eq_of_message.2 hmessage)
    refine ⟨front, back, htext, hfront, ?_⟩
    intro opening
    rw [htext, ← hfront]
    exact hbalanced.not_partners back opening

/-- In two texts a partner is missing, once of an opening and once of a closing parenthesis. -/
theorem unmatched_of_parse_of_missing_partners :
    empty.parse "a+(b c" = .error ⟨.unmatchedOpen, 2⟩ ∧
      (¬ ∃ closing, Partners "a+(b c".toList 2 closing) ∧
      empty.parse "(a))" = .error ⟨.unmatchedClose, 3⟩ ∧
      ∀ opening, ¬ Partners "(a))".toList opening 3 := by
  have hopen : empty.parse "a+(b c" = .error ⟨.unmatchedOpen, 2⟩ :=
    parse_eq_error_iff.mpr (by decide +kernel)
  have hclose : empty.parse "(a))" = .error ⟨.unmatchedClose, 3⟩ :=
    parse_eq_error_iff.mpr (by decide +kernel)
  obtain ⟨front, inside, stop, htext, -, -, -, hpartners⟩ := (unmatched_of_parse hopen).1 rfl
  obtain ⟨-, -, -, -, hnone⟩ := (unmatched_of_parse hclose).2 rfl
  refine ⟨hopen, ?_, hclose, hnone⟩
  rw [hpartners]
  rintro ⟨more, back, rfl, -⟩
  have hmem : ')' ∈ "a+(b c".toList := by
    rw [htext]
    simp
  exact absurd hmem (by decide +kernel)

/-- The other way round the message is not right: the parenthesis has a partner behind the name
that stands in the place of an operator. -/
theorem parse_of_two_names_in_group :
    ∃ e, empty.parse "(a b)" = .error e ∧ e.fault.message = "Unmatched '('" ∧ e.offset = 0 ∧
      Partners "(a b)".toList 0 4 := by
  have hparse : Formula.parse "(a b)" = .error ⟨.unmatchedOpen, 0⟩ := by decide +kernel
  have hinside : Balanced ['a', ' ', 'b'] :=
    .other (by decide) (by decide) (.other (by decide) (by decide)
      (.other (by decide) (by decide) .nil))
  refine ⟨_, parse_eq_error_iff.mpr hparse, rfl, rfl, [], ['a', ' ', 'b'], [], ?_, hinside, rfl, ?_⟩
  · decide +kernel
  · decide +kernel

end Registry

end WidgetStyle
