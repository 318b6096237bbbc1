import WidgetStyle.Proofs.Seam

/-!
# The text before a fault

A token needs nothing behind it: it is also read from its own text (`Reads.alone`). Where a text
is cut off before a fault, no token before it changes, since no fault stands at a digit, which might
have belonged to a number (`exists_front_of_tokens`). A comment that does not end can open within a
run of blanks; the run up to there is a token on its own.
-/

namespace WidgetStyle

namespace Number.Numeral

theorem any_head_readPlain (cs : List Char) : (readPlain cs).2.head?.any isDigit = false := by
  change (readFraction (Digit.readAll (readMinus cs).2).2).2.head?.any isDigit = false
  have hwhole := Digit.any_head_readAll (readMinus cs).2
  generalize (Digit.readAll (readMinus cs).2).2 = rest at hwhole ⊢
  by_cases hnone : (readFraction rest).1 = []
  · rwa [readFraction_snd hnone]
  · by_cases hpoint : rest.head? = some '.'
    · obtain ⟨rest, rfl⟩ := List.head?_eq_some_iff.mp hpoint
      rw [readFraction_point] at hnone ⊢
      split
      · rfl
      · exact Digit.any_head_readAll rest
    · rw [readFraction_of_ne_point hpoint] at hnone
      exact absurd rfl hnone

end Number.Numeral

namespace Sheet

open Number (Digit Numeral isDigit)
open Text (isBlank byteLength byteLength_append)

/-! ### Tokens that stand alone -/

theorem opensBlank_of_append {c : Char} {text rest : List Char}
    (hopens : opensBlank (c :: (text ++ rest)) = false) : opensBlank (c :: text) = false := by
  cases text with
  | nil =>
    rw [opensBlank_cons, Bool.or_eq_false_iff] at hopens
    rw [opensBlank_cons, hopens.1]
    simp
  | cons next text => exact hopens

theorem startsNumber_of_append {c : Char} {text rest : List Char}
    (hnumber : startsNumber c (text ++ rest) = false) : startsNumber c text = false := by
  cases text with
  | nil =>
    rw [startsNumber_eq, Bool.or_assoc, Bool.or_eq_false_iff] at hnumber
    rw [startsNumber_eq, hnumber.1]
    simp
  | cons next text => exact hnumber

theorem startsWord_of_append {c : Char} {text rest : List Char}
    (hword : startsWord c (text ++ rest) = false) : startsWord c text = false := by
  cases text with
  | nil =>
    rw [startsWord, Bool.or_eq_false_iff] at hword
    rw [startsWord, hword.1]
    simp
  | cons next text => exact hword

theorem takeWhile_alone (cs : List Char) :
    (cs.takeWhile isNameChar).takeWhile isNameChar = cs.takeWhile isNameChar ∧
      (cs.takeWhile isNameChar).dropWhile isNameChar = [] := by
  have hname : ∀ a ∈ cs.takeWhile isNameChar, isNameChar a = true :=
    fun a ha => List.mem_takeWhile_imp ha
  exact ⟨List.takeWhile_eq_self_iff.mpr hname, List.dropWhile_eq_nil_iff.mpr hname⟩

theorem readSuffix_alone (cs : List Char) :
    readSuffix (readSuffix cs).1 = ((readSuffix cs).1, []) := by
  cases cs with
  | nil => rfl
  | cons c cs =>
    by_cases hpercent : c = '%'
    · subst hpercent
      rfl
    · by_cases hname : isNameStart c = true
      · have hread : readSuffix (c :: cs) =
            ((c :: cs).takeWhile isNameChar, (c :: cs).dropWhile isNameChar) := by
          rw [readSuffix, if_neg hpercent, if_pos hname]
        obtain ⟨htake, hdrop⟩ := takeWhile_alone (c :: cs)
        rw [hread]
        rw [List.takeWhile_cons_of_pos (isNameChar_of_isNameStart hname)] at htake hdrop ⊢
        rw [readSuffix, if_neg hpercent, if_pos hname, htake, hdrop]
      · rw [readSuffix, if_neg hpercent, if_neg hname]
        rfl

theorem any_head_readSuffix {cs : List Char} {p : Char → Bool} (hp : cs.head?.any p = false) :
    (readSuffix cs).1.head?.any p = false := by
  have htext := readSuffix_eq cs
  cases hsuffix : (readSuffix cs).1 with
  | nil => rfl
  | cons c suffix =>
    rw [hsuffix] at htext
    rw [← htext] at hp
    exact hp

theorem head?_readSuffix_ne_point (cs : List Char) : (readSuffix cs).1.head? ≠ some '.' := by
  intro hpoint
  have hsuffix := all_head_readSuffix cs
  rw [hpoint] at hsuffix
  exact absurd hsuffix (by decide +kernel)

theorem readNumber_alone {cs rest : List Char} {token : Token}
    (hread : readNumber cs = .ok (token, rest)) : readNumber token.text = .ok (token, []) := by
  simp only [readNumber] at hread
  split at hread
  · cases hread
  · next hdigits =>
    cases hread
    have hsome : (Numeral.readPlain cs).1.digits ≠ [] := by simpa using hdigits
    have hplain : Numeral.readPlain ((Numeral.readPlain cs).1.text ++
          (readSuffix (Numeral.readPlain cs).2).1) =
        ((Numeral.readPlain cs).1, (readSuffix (Numeral.readPlain cs).2).1) := by
      rw [Numeral.text_readPlain, List.append_assoc, List.append_assoc]
      exact Numeral.readPlain_chars _ hsome (any_head_readSuffix (Numeral.any_head_readPlain cs))
        (head?_readSuffix_ne_point _)
    rw [readNumber, hplain]
    simp only [if_neg hdigits, readSuffix_alone]

/-- A number starts where the text of a numeral starts. -/
theorem startsNumber_of_text {numeral : Numeral} (hdigits : numeral.digits ≠ []) {c : Char}
    {cs more : List Char} (htext : numeral.text ++ more = c :: cs) : startsNumber c cs = true := by
  have hdigit : ∀ d : Digit, isDigit d.char = true := by decide
  obtain ⟨negative, whole, fraction, exponent⟩ := numeral
  rw [startsNumber_eq]
  cases negative with
  | true =>
    -- a digit or a point follows the minus sign
    cases whole with
    | cons d whole =>
      obtain ⟨rfl, rfl⟩ := List.cons.inj htext
      simp [hdigit]
    | nil =>
      cases fraction with
      | nil => exact absurd rfl hdigits
      | cons d fraction =>
        obtain ⟨rfl, rfl⟩ := List.cons.inj htext
        simp
  | false =>
    cases whole with
    | cons d whole =>
      obtain ⟨rfl, -⟩ := List.cons.inj htext
      simp [hdigit]
    | nil =>
      -- a digit follows the point
      cases fraction with
      | nil => exact absurd rfl hdigits
      | cons d fraction =>
        obtain ⟨rfl, rfl⟩ := List.cons.inj htext
        simp [hdigit]

theorem startsNumber_of_readNumber {c : Char} {cs rest : List Char} {token : Token}
    (hread : readNumber (c :: cs) = .ok (token, rest)) : startsNumber c cs = true := by
  have hplain := Numeral.readPlain_text (c :: cs)
  refine startsNumber_of_text ?_ hplain
  intro hdigits
  simp [readNumber, hdigits] at hread

/-- **A token is also read from its own text.** -/
theorem Reads.alone {c : Char} {cs rest text : List Char} {token : Token}
    (hread : Reads c cs token rest) (htext : token.text = c :: text) : Reads c text token [] := by
  have hcs : text ++ rest = cs := by
    obtain ⟨text', htext', hcs⟩ := hread.exists_text_eq_cons
    rwa [(List.cons.inj (htext.symm.trans htext')).2]
  cases hread with
  | blank hopens hblanks =>
    obtain rfl : _ = c :: text := htext
    have hrun : readBlanks none (c :: text ++ []) = .ok (c :: text, []) :=
      readBlanks_of_stop hblanks rfl none rfl
    rw [List.append_nil] at hrun
    refine .blank ?_ hrun
    by_contra hstop
    rw [readBlanks_of_opensBlank (Bool.not_eq_true _ ▸ hstop)] at hrun
    cases hrun
  | number hopens hstarts hnumber =>
    have halone := readNumber_alone hnumber
    rw [htext] at halone
    rw [← hcs] at hopens
    exact .number (opensBlank_of_append hopens) (startsNumber_of_readNumber halone) halone
  | word hopens hnumber hstarts =>
    obtain ⟨htake, hdrop⟩ := takeWhile_alone (c :: cs)
    have hname : isNameChar c = true := by
      by_contra hname
      rw [List.takeWhile_cons_of_neg hname] at htext
      cases htext
    obtain rfl : cs.takeWhile isNameChar = text := by
      rw [List.takeWhile_cons_of_pos hname] at htext
      exact (List.cons.inj htext).2
    obtain ⟨hnumber', hstarts'⟩ := starts_takeWhile hnumber hstarts
    rw [← hcs] at hopens
    have halone := Reads.word (opensBlank_of_append hopens) hnumber' hstarts'
    rw [← List.takeWhile_cons_of_pos hname] at halone
    rwa [htake, hdrop] at halone
  | hash hopens hnumber hword hc hname =>
    obtain rfl : cs.takeWhile isNameChar = text := (List.cons.inj htext).2
    obtain ⟨htake, hdrop⟩ := takeWhile_alone cs
    rw [← hcs] at hopens hnumber hword
    have halone := Reads.hash (opensBlank_of_append hopens) (startsNumber_of_append hnumber)
      (startsWord_of_append hword) hc (by rwa [htake])
    rwa [htake, hdrop] at halone
  | mark hopens hnumber hword hc hmark =>
    obtain rfl : text = [] := (List.cons.inj htext).2.symm
    rw [← hcs] at hopens hnumber hword
    exact .mark (opensBlank_of_append hopens) (startsNumber_of_append hnumber)
      (startsWord_of_append hword) hc hmark

/-! ### Faults -/

/-- Where a run of blanks and comments does not end, it is a comment that does not: the one the run
starts in, or one that opens behind blanks and comments that end. -/
theorem exists_front_of_readBlanks {comment : Option Nat} {cs : List Char} {refusal : Refusal}
    (hread : readBlanks comment cs = .error refusal) :
    comment = some refusal.left ∨
      ∃ before after, cs = before ++ '/' :: '*' :: after ∧
        byteLength ('/' :: '*' :: after) = refusal.left ∧
        readBlanks comment before = .ok (before, []) := by
  fun_induction readBlanks comment cs with
  | case1 => cases hread
  | case2 cs refusal' hread' ih =>
    cases hread
    right
    rcases ih hread' with hopening | ⟨before, after, rfl, hleft, hrun⟩
    · -- the comment that opens here does not end
      exact ⟨[], cs, rfl, Option.some.inj hopening, readBlanks.eq_3⟩
    · refine ⟨'/' :: '*' :: before, after, rfl, hleft, ?_⟩
      have hrun' := readBlanks_of_stop hrun (rfl : opensBlank [] = false)
        (some (byteLength ('/' :: '*' :: before))) rfl
      rw [List.append_nil] at hrun'
      rw [readBlanks, hrun']
  | case3 => cases hread
  | case4 c cs hcomment hblank refusal' hread' ih =>
    cases hread
    rcases ih hread' with hopening | ⟨before, after, rfl, hleft, hrun⟩
    · cases hopening
    · right
      refine ⟨c :: before, after, rfl, hleft, ?_⟩
      rw [readBlanks, if_pos hblank, hrun]
      rintro rest rfl -
      exact absurd hblank (by decide)
  | case5 => cases hread
  | case6 => cases hread
  | case7 => cases hread
  | case8 opening cs refusal' hread' ih =>
    cases hread
    rcases ih hread' with hopening | ⟨before, after, rfl, hleft, hrun⟩
    · cases hopening
    · right
      refine ⟨'*' :: '/' :: before, after, rfl, hleft, ?_⟩
      rw [readBlanks, hrun]
  | case9 => cases hread
  | case10 opening c cs hclosing refusal' hread' ih =>
    cases hread
    rcases ih hread' with hopening | ⟨before, after, rfl, hleft, hrun⟩
    · exact .inl hopening
    · right
      refine ⟨c :: before, after, rfl, hleft, ?_⟩
      rw [readBlanks, hrun]
      rintro rest hc rfl
      exact hclosing _ hc rfl
  | case11 opening =>
    cases hread
    exact .inl rfl

/-- A number is refused at its start, and then it is no digit that stands there. -/
theorem refused_of_readNumber {c : Char} {cs : List Char} {refusal : Refusal}
    (hread : readNumber (c :: cs) = .error refusal) :
    byteLength (c :: cs) = refusal.left ∧ isDigit c = false := by
  simp only [readNumber] at hread
  split at hread
  · next hdigits =>
    cases hread
    refine ⟨rfl, ?_⟩
    obtain ⟨hwhole, hfraction⟩ : (Numeral.readPlain (c :: cs)).1.whole = [] ∧
        (Numeral.readPlain (c :: cs)).1.fraction = [] := by
      simpa [Numeral.digits] using hdigits
    have htext := Numeral.readPlain_text (c :: cs)
    have hstop := Numeral.any_head_readPlain (c :: cs)
    rw [Numeral.text_readPlain, hwhole, hfraction] at htext
    by_cases hminus : (Numeral.readMinus (c :: cs)).1 = true
    · rw [if_pos hminus] at htext
      obtain ⟨rfl, -⟩ := List.cons.inj htext
      decide
    · rw [if_neg hminus] at htext
      have hall : (Numeral.readPlain (c :: cs)).2 = c :: cs := htext
      rw [hall] at hstop
      exact hstop
  · cases hread

theorem exists_tokens_of_readBlanks {cs : List Char} (hread : readBlanks none cs = .ok (cs, [])) :
    ∃ list, tokens cs = .ok list := by
  cases cs with
  | nil => exact ⟨[], by rw [tokens]⟩
  | cons c cs =>
    have hopens : opensBlank (c :: cs) = true := by
      by_contra hstop
      rw [readBlanks_of_opensBlank (Bool.not_eq_true _ ▸ hstop)] at hread
      cases hread
    refine ⟨[⟨.blank, c :: cs⟩], ?_⟩
    rw [tokens_of_reads (.blank hopens hread), tokens]
    rfl

/-- The text from where a token is refused, and the blanks before it. -/
theorem exists_front_of_read {c : Char} {cs : List Char} {refusal : Refusal}
    (hread : read c cs = .error refusal) :
    ∃ before after list, c :: cs = before ++ after ∧ byteLength after = refusal.left ∧
      after.head?.any isDigit = false ∧ tokens before = .ok list := by
  have hempty : tokens [] = .ok [] := by rw [tokens]
  rw [read, ← opensBlank_cons] at hread
  by_cases hopens : opensBlank (c :: cs) = true
  · rw [if_pos hopens] at hread
    split at hread
    · cases hread
    · next hrun =>
      cases hread
      rcases exists_front_of_readBlanks hrun with hnone | ⟨before, after, hcs, hleft, hbefore⟩
      · cases hnone
      · obtain ⟨list, hcut⟩ := exists_tokens_of_readBlanks hbefore
        exact ⟨before, '/' :: '*' :: after, list, hcs, hleft, rfl, hcut⟩
  rw [if_neg hopens] at hread
  by_cases hnumber : startsNumber c cs = true
  · rw [if_pos hnumber] at hread
    obtain ⟨hleft, hdigit⟩ := refused_of_readNumber hread
    exact ⟨[], c :: cs, [], rfl, hleft, hdigit, hempty⟩
  -- what starts no number is no digit
  have hdigit : isDigit c = false := not_digit_of_startsNumber (Bool.not_eq_true _ ▸ hnumber)
  have hleft : byteLength (c :: cs) = refusal.left := by
    simp only [if_neg hnumber] at hread
    split at hread
    · cases hread
    · split at hread
      · split at hread
        · cases hread
          rfl
        · cases hread
      · split at hread
        · cases hread
        · cases hread
          rfl
  exact ⟨[], c :: cs, [], rfl, hleft, hdigit, hempty⟩

/-- **The text before a fault is cut into tokens**, and no digit stands at the fault. -/
theorem exists_front_of_tokens {cs : List Char} {refusal : Refusal}
    (hcut : tokens cs = .error refusal) :
    ∃ before after list, cs = before ++ after ∧ byteLength after = refusal.left ∧
      after.head?.any isDigit = false ∧ tokens before = .ok list := by
  fun_induction tokens cs with
  | case1 => cases hcut
  | case2 c cs refusal' hread =>
    cases hcut
    exact exists_front_of_read hread
  | case3 c cs token rest hread hshorter refusal' htail ih =>
    cases hcut
    obtain ⟨before, after, list, rfl, hleft, hdigit, hbefore⟩ := ih htail
    have hreads := read_eq_ok_iff.mp hread
    obtain ⟨text, htext, rfl⟩ := hreads.exists_text_eq_cons
    have hreads' : Reads c (text ++ before) token before := by
      by_cases hnil : before = []
      · subst hnil
        rw [List.append_nil]
        exact hreads.alone htext
      · have hslash : before ≠ ['/'] := by
          rintro rfl
          have hslash : tokens ['/'] = .error ⟨.unexpectedCharacter '/', 1⟩ := by decide +kernel
          cases hslash.symm.trans hbefore
        have hsame := SameStart.append after hnil (fun _ => hdigit) hslash
        refine hreads.of_sameStart hsame.symm ?_
        rw [htext, List.cons_append]
    refine ⟨c :: (text ++ before), after, token :: list, ?_, hleft, hdigit, ?_⟩
    · rw [List.cons_append, List.append_assoc]
    · rw [tokens_of_reads hreads', hbefore]
      rfl
  | case4 => cases hcut

end Sheet

end WidgetStyle
