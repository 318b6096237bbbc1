import WidgetStyle.Proofs.Seam
import WidgetStyle.Sheet.Scan

/-!
# Scanning finds the tokens that are cut

A cursor stands behind a front of the source and has the rest before it (`Cursor.behind`). From
there each part of the scan does to the offsets what reading does to the text: it comes to the same
rest, behind the text that has been read, or to the same fault, at the place that has as many bytes
behind it. All slices that are taken on the way are texts between two such places.
-/

namespace WidgetStyle.Sheet

open Number (Digit Numeral Single isDigit)
open Text (isBlank byteLength byteLength_append byteLength_sub_eq slice?_eq_some_iff)

/-! ### Cursors and slices -/

/-- The cursor behind a front of the source. -/
def Cursor.behind (front rest : List Char) : Cursor :=
  ⟨byteLength front, rest⟩

@[simp] theorem offset_behind (front rest : List Char) :
    (Cursor.behind front rest).offset = byteLength front := rfl

@[simp] theorem rest_behind (front rest : List Char) : (Cursor.behind front rest).rest = rest := rfl

/-- The outcome of reading, as a scan of the source tells it. -/
def outcome {α β : Type} (source : List Char) (f : α → β) : Except Refusal α → Except Halt β
  | .ok found => .ok (f found)
  | .error refusal => .error (.fault refusal.fault (byteLength source - refusal.left))

section
variable {source front cs : List Char}

theorem slice_eq {text back : List Char} (hsource : source = front ++ (text ++ back)) :
    slice source (byteLength front) (byteLength (front ++ text)) = .ok text := by
  rw [slice, slice?_eq_some_iff.mpr ⟨front, back, hsource, rfl, rfl⟩]

theorem second_eq (hsource : source = front ++ cs) :
    second source (.behind front cs) = .ok cs[1]? := by
  have hslice : slice source (byteLength front) (byteLength (front ++ cs)) = .ok cs :=
    slice_eq (hsource.trans (congrArg (front ++ ·) (List.append_nil cs).symm))
  rw [← hsource] at hslice
  rw [second, Cursor.behind, hslice]

theorem advance_behind (front : List Char) (c : Char) (cs : List Char) :
    (Cursor.behind front (c :: cs)).advance = .behind (front ++ [c]) cs := by
  simp only [Cursor.behind, Cursor.advance, byteLength_append]
  rfl

theorem advanceWhile_behind (front cs : List Char) (p : Char → Bool) :
    (Cursor.behind front cs).advanceWhile p =
      .behind (front ++ cs.takeWhile p) (cs.dropWhile p) := by
  rw [Cursor.advanceWhile, Cursor.behind, Cursor.behind, byteLength_append]

/-! ### Blanks -/

theorem passBlanks_blank {c : Char} (hblank : isBlank c = true) :
    passBlanks source none (byteLength front) (c :: cs) =
      passBlanks source none (byteLength (front ++ [c])) cs := by
  rw [byteLength_append]
  cases cs with
  | nil => exact (passBlanks.eq_2 _ _ _).trans (if_pos hblank)
  | cons next cs => exact (passBlanks.eq_3 _ _ _ _ _).trans (if_pos hblank)

theorem passBlanks_opening (hsource : source = front ++ '/' :: '*' :: cs) :
    passBlanks source none (byteLength front) ('/' :: '*' :: cs) =
      passBlanks source (some (byteLength front)) (byteLength (front ++ ['/', '*'])) cs := by
  have hsecond : second source ⟨byteLength front, '/' :: '*' :: cs⟩ = .ok (some '*') :=
    second_eq hsource
  rw [passBlanks, if_neg (by decide), if_pos rfl, hsecond, byteLength_append, Nat.add_assoc]
  rfl

theorem passBlanks_of_opensBlank (hsource : source = front ++ cs)
    (hopens : opensBlank cs = false) :
    passBlanks source none (byteLength front) cs = .ok (.behind front cs) := by
  cases cs with
  | nil => rw [passBlanks, Cursor.behind]
  | cons c cs =>
    rw [opensBlank_cons, Bool.or_eq_false_iff] at hopens
    obtain ⟨hblank, hcomment⟩ := hopens
    have hsecond : second source ⟨byteLength front, c :: cs⟩ = .ok cs.head? := by
      rw [List.head?_eq_getElem?]
      exact second_eq hsource
    have hstar : c = '/' → cs.head? ≠ some '*' := by
      rintro rfl
      simpa using hcomment
    cases cs with
    | nil =>
      rw [passBlanks, if_neg (by simp [hblank]), hsecond]
      split
      · rfl
      · rfl
    | cons next cs =>
      rw [passBlanks, if_neg (by simp [hblank]), hsecond]
      split
      · next hslash => exact if_neg (hstar hslash)
      · rfl

theorem passBlanks_closing (opening : Nat) :
    passBlanks source (some opening) (byteLength front) ('*' :: '/' :: cs) =
      passBlanks source none (byteLength (front ++ ['*', '/'])) cs := by
  rw [passBlanks, byteLength_append, Nat.add_assoc]
  rfl

theorem passBlanks_inside (opening : Nat) {c : Char}
    (hclosing : ∀ rest, c = '*' → cs = '/' :: rest → False) :
    passBlanks source (some opening) (byteLength front) (c :: cs) =
      passBlanks source (some opening) (byteLength (front ++ [c])) cs := by
  rw [passBlanks.eq_6 _ _ _ _ _ hclosing, byteLength_append]
  rfl

/-- Moving over blanks comes to where they have been read. -/
theorem passBlanks_eq (comment : Option Nat) (hsource : source = front ++ cs) :
    passBlanks source (comment.map fun left => byteLength source - left) (byteLength front) cs =
      outcome source (fun found => Cursor.behind (front ++ found.1) found.2)
        (readBlanks comment cs) := by
  fun_induction readBlanks comment cs generalizing front with
  | case1 cs text rest hread ih =>
    have hbehind : source = front ++ ['/', '*'] ++ cs := by simpa using hsource
    have hrest := ih hbehind
    rw [hread, Option.map_some, byteLength_sub_eq hsource] at hrest
    rw [Option.map_none, passBlanks_opening hsource, hrest]
    simp [outcome]
  | case2 cs refusal hread ih =>
    have hbehind : source = front ++ ['/', '*'] ++ cs := by simpa using hsource
    have hrest := ih hbehind
    rw [hread, Option.map_some, byteLength_sub_eq hsource] at hrest
    rw [Option.map_none, passBlanks_opening hsource, hrest]
    rfl
  | case3 c cs hcomment hblank text rest hread ih =>
    have hbehind : source = front ++ [c] ++ cs := by simpa using hsource
    have hrest := ih hbehind
    rw [hread] at hrest
    rw [Option.map_none, passBlanks_blank hblank]
    simpa [outcome] using hrest
  | case4 c cs hcomment hblank refusal hread ih =>
    have hbehind : source = front ++ [c] ++ cs := by simpa using hsource
    have hrest := ih hbehind
    rw [hread] at hrest
    rw [Option.map_none, passBlanks_blank hblank]
    simpa [outcome] using hrest
  | case5 c cs hcomment hblank =>
    have hread : readBlanks none (c :: cs) = .ok ([], c :: cs) := by
      rw [readBlanks, if_neg hblank]
      exact hcomment
    have hopens := opensBlank_of_readBlanks hread
    rw [Option.map_none, passBlanks_of_opensBlank hsource hopens]
    simp [outcome]
  | case6 =>
    rw [Option.map_none, passBlanks_of_opensBlank hsource rfl]
    simp [outcome]
  | case7 opening cs text rest hread ih =>
    have hbehind : source = front ++ ['*', '/'] ++ cs := by simpa using hsource
    have hrest := ih hbehind
    rw [hread] at hrest
    rw [Option.map_some, passBlanks_closing]
    simpa [outcome] using hrest
  | case8 opening cs refusal hread ih =>
    have hbehind : source = front ++ ['*', '/'] ++ cs := by simpa using hsource
    have hrest := ih hbehind
    rw [hread] at hrest
    rw [Option.map_some, passBlanks_closing]
    simpa [outcome] using hrest
  | case9 opening c cs hclosing text rest hread ih =>
    have hbehind : source = front ++ [c] ++ cs := by simpa using hsource
    have hrest := ih hbehind
    rw [hread] at hrest
    rw [Option.map_some, passBlanks_inside _ hclosing]
    simpa [outcome] using hrest
  | case10 opening c cs hclosing refusal hread ih =>
    have hbehind : source = front ++ [c] ++ cs := by simpa using hsource
    have hrest := ih hbehind
    rw [hread] at hrest
    rw [Option.map_some, passBlanks_inside _ hclosing]
    simpa [outcome] using hrest
  | case11 opening =>
    rw [Option.map_some, passBlanks]
    rfl

/-! ### Numbers -/

theorem takeWhile_isDigit (cs : List Char) :
    cs.takeWhile isDigit = (Digit.readAll cs).1.map Digit.char ∧
      cs.dropWhile isDigit = (Digit.readAll cs).2 := by
  induction cs with
  | nil => exact ⟨rfl, rfl⟩
  | cons c cs ih =>
    cases hdigit : Digit.ofChar? c with
    | none => simp [Digit.readAll, isDigit, hdigit]
    | some d => simp [Digit.readAll, isDigit, hdigit, ih, Digit.char_of_ofChar? hdigit]

theorem passMinus_behind (front cs : List Char) :
    passMinus (.behind front cs) =
      .behind (front ++ if (Numeral.readMinus cs).1 then ['-'] else [])
        (Numeral.readMinus cs).2 := by
  cases cs with
  | nil => simp [passMinus, Numeral.readMinus]
  | cons c cs =>
    by_cases hc : c = '-'
    · subst hc
      exact advance_behind front '-' cs
    · simp [passMinus, Numeral.readMinus, hc]

/-- The point and the digits behind it are passed where they are read. -/
theorem passFraction_eq (hsource : source = front ++ cs) :
    passFraction source (.behind front cs) =
      .ok (.behind (front ++ Numeral.fractionText (Numeral.readFraction cs).1)
        (Numeral.readFraction cs).2) := by
  by_cases hpoint : cs.head? = some '.'
  · obtain ⟨cs, rfl⟩ := List.head?_eq_some_iff.mp hpoint
    have hnext : ('.' :: cs)[1]? = cs.head? := List.head?_eq_getElem?.symm
    rw [passFraction, rest_behind, if_pos hpoint, second_eq hsource, hnext,
      Numeral.readFraction_point]
    by_cases hdigit : cs.head?.any isDigit = true
    · have hdigits : (Digit.readAll cs).1 ≠ [] := by
        rw [Ne, Digit.readAll_eq_nil_iff, hdigit]
        exact Bool.noConfusion
      rw [if_neg hdigits, advance_behind, advanceWhile_behind, (takeWhile_isDigit cs).1,
        (takeWhile_isDigit cs).2, Numeral.fractionText, if_neg (by simpa using hdigits)]
      simp [hdigit]
    · have hdigits : (Digit.readAll cs).1 = [] :=
        Digit.readAll_eq_nil_iff.mpr (Bool.not_eq_true _ ▸ hdigit)
      rw [if_pos hdigits]
      simp [hdigit, Numeral.fractionText]
  · have hstays : passFraction source (.behind front cs) = .ok (.behind front cs) := if_neg hpoint
    rw [hstays, Numeral.readFraction_of_ne_point hpoint]
    simp [Numeral.fractionText]

/-- Moving over a numeral comes to where it has been read. -/
theorem passNumeral_eq (hsource : source = front ++ cs) :
    passNumeral source (.behind front cs) =
      .ok (.behind (front ++ (Numeral.readPlain cs).1.text) (Numeral.readPlain cs).2) := by
  obtain ⟨hdigits, hrest⟩ := takeWhile_isDigit (Numeral.readMinus cs).2
  have hwhole : source = front ++ (if (Numeral.readMinus cs).1 then ['-'] else []) ++
      (Digit.readAll (Numeral.readMinus cs).2).1.map Digit.char ++
      (Digit.readAll (Numeral.readMinus cs).2).2 := by
    rw [List.append_assoc, List.append_assoc, Digit.map_char_readAll, Numeral.readMinus_text,
      hsource]
  rw [passNumeral, passMinus_behind, advanceWhile_behind, hdigits, hrest, passFraction_eq hwhole,
    Numeral.text_readPlain, ← List.append_assoc, ← List.append_assoc]
  rfl

/-- The unit suffix that is scanned is the one that is read. -/
theorem scanSuffix_eq (hsource : source = front ++ cs) :
    scanSuffix source (.behind front cs) =
      .ok ((readSuffix cs).1, .behind (front ++ (readSuffix cs).1) (readSuffix cs).2) := by
  have hslice : slice source (byteLength front) (byteLength (front ++ (readSuffix cs).1)) =
      .ok (readSuffix cs).1 :=
    slice_eq (by rw [readSuffix_eq, hsource])
  cases cs with
  | nil =>
    rw [readSuffix, List.append_nil]
    rfl
  | cons c cs =>
    by_cases hpercent : c = '%'
    · subst hpercent
      have hread : readSuffix ('%' :: cs) = (['%'], cs) := rfl
      have hplace : byteLength (front ++ ['%']) = byteLength front + 1 := byteLength_append _ _
      rw [hread, hplace] at hslice
      simp only [scanSuffix, rest_behind, offset_behind, if_true, hslice, hread, advance_behind]
    · by_cases hname : isNameStart c = true
      · have hread : readSuffix (c :: cs) =
            ((c :: cs).takeWhile isNameChar, (c :: cs).dropWhile isNameChar) := by
          rw [readSuffix, if_neg hpercent, if_pos hname]
        rw [hread] at hslice
        simp only [scanSuffix, rest_behind, offset_behind, if_neg hpercent, if_pos hname,
          advanceWhile_behind, hslice, hread]
      · have hread : readSuffix (c :: cs) = ([], c :: cs) := by
          rw [readSuffix, if_neg hpercent, if_neg hname]
        simp only [scanSuffix, rest_behind, if_neg hpercent, if_neg hname, hread, List.append_nil]

end

theorem ofUnsigned?_text (negative : Bool) (whole fraction : List Digit) :
    Numeral.ofUnsigned? negative (whole.map Digit.char ++ Numeral.fractionText fraction) =
      if (whole ++ fraction).isEmpty then none else some ⟨negative, whole, fraction, none⟩ := by
  have hall (digits : List Digit) : Digit.readAll (digits.map Digit.char) = (digits, []) := by
    have hread := Digit.readAll_chars digits (List.head?_nil ▸ Option.any_none)
    rwa [List.append_nil] at hread
  have hempty : (whole.isEmpty && fraction.isEmpty) = (whole ++ fraction).isEmpty := by
    cases whole <;> rfl
  cases fraction with
  | nil =>
    have hfraction : Numeral.fractionText [] = [] := rfl
    rw [Numeral.ofUnsigned?, hfraction, List.append_nil, hall]
    dsimp only
    rw [hempty]
    rfl
  | cons d fraction =>
    have hfraction : Numeral.fractionText (d :: fraction) =
        '.' :: (d :: fraction).map Digit.char := rfl
    rw [Numeral.ofUnsigned?, hfraction, Digit.readAll_chars whole rfl]
    simp only [hall, hempty, Numeral.exponentOf?, Option.map_some]

/-- A minus sign is taken off, and what follows no sign is read as it is. -/
theorem ofText?_of_sign {negative : Bool} {cs : List Char}
    (hsign : negative = false → cs.head?.any (fun c => c == '-' || c == '+') = false) :
    Single.ofText? (String.ofList ((if negative then ['-'] else []) ++ cs)) =
      (Numeral.ofUnsigned? negative cs).elim (Single.ofName? negative cs)
        fun numeral => some numeral.toSingle := by
  rw [Single.ofText?, String.toList_ofList]
  cases negative with
  | true => cases hread : Numeral.ofUnsigned? true cs <;> simp [hread]
  | false =>
    cases cs with
    | nil => rfl
    | cons c cs =>
      obtain ⟨hminus, hplus⟩ : c ≠ '-' ∧ c ≠ '+' := by simpa using hsign rfl
      cases hread : Numeral.ofUnsigned? false (c :: cs) <;> simp [hread, hminus, hplus]

/-- The text of a numeral with digits is read as its number, and one without is not read. -/
theorem ofText?_text {numeral : Numeral} (hexponent : numeral.exponent = none) :
    Single.ofText? (String.ofList numeral.text) =
      if numeral.digits.isEmpty then none else some numeral.toSingle := by
  obtain ⟨negative, whole, fraction, exponent⟩ := numeral
  obtain rfl : exponent = none := hexponent
  have htext : Numeral.text ⟨negative, whole, fraction, none⟩ = (if negative then ['-'] else []) ++
      (whole.map Digit.char ++ Numeral.fractionText fraction) := by
    simp only [Numeral.text, Numeral.fractionText, List.append_nil, List.append_assoc]
  -- an unsigned numeral starts with a digit or a point, and not with a sign
  have hsign : (whole.map Digit.char ++ Numeral.fractionText fraction).head?.any
      (fun c => c == '-' || c == '+') = false := by
    have hchar : ∀ d : Digit, (d.char == '-' || d.char == '+') = false := by decide
    cases whole with
    | cons d whole => exact hchar d
    | nil => cases fraction <;> rfl
  rw [htext, ofText?_of_sign fun _ => hsign, ofUnsigned?_text]
  by_cases hempty : (whole ++ fraction).isEmpty = true
  · obtain ⟨rfl, rfl⟩ : whole = [] ∧ fraction = [] := by simpa using hempty
    cases negative <;> rfl
  · rw [if_neg hempty]
    exact (if_neg hempty).symm

section
variable {source front cs : List Char}

theorem outcome_fault {α β : Type} (hsource : source = front ++ cs) (f : α → β) (fault : Fault) :
    outcome source f (.error ⟨fault, byteLength cs⟩) =
      .error (.fault fault (byteLength front)) := by
  rw [outcome, byteLength_sub_eq hsource]

/-- The number that is scanned is the one that is read. -/
theorem scanNumber_eq (hsource : source = front ++ cs) :
    scanNumber source (.behind front cs) =
      outcome source (fun found => (found.1.kind, .behind (front ++ found.1.text) found.2))
        (readNumber cs) := by
  have hslice : slice source (byteLength front)
      (byteLength (front ++ (Numeral.readPlain cs).1.text)) = .ok (Numeral.readPlain cs).1.text :=
    slice_eq (by rw [Numeral.readPlain_text, hsource])
  have hbehind : source = front ++ (Numeral.readPlain cs).1.text ++ (Numeral.readPlain cs).2 := by
    rw [List.append_assoc, Numeral.readPlain_text, hsource]
  have hvalue : Single.ofText? (String.ofList (Numeral.readPlain cs).1.text) =
      if (Numeral.readPlain cs).1.digits.isEmpty then none
      else some (Numeral.readPlain cs).1.toSingle := ofText?_text rfl
  simp only [scanNumber, passNumeral_eq hsource, offset_behind, hslice, hvalue, readNumber]
  by_cases hdigits : (Numeral.readPlain cs).1.digits.isEmpty = true
  · rw [if_pos hdigits, if_pos hdigits, outcome_fault hsource]
  · rw [if_neg hdigits, if_neg hdigits]
    simp only [scanSuffix_eq hbehind, outcome, List.append_assoc]

/-! ### Tokens -/

/-- A name that starts in front of the cursor is scanned up to where no more of its characters
follow. -/
theorem scanName_eq {name : List Char} (hsource : source = front ++ (name ++ cs)) :
    scanName source (.behind front (name ++ cs)) (.behind (front ++ name) cs) =
      .ok (String.ofList (name ++ cs.takeWhile isNameChar),
        .behind (front ++ (name ++ cs.takeWhile isNameChar)) (cs.dropWhile isNameChar)) := by
  have hslice : slice source (byteLength front)
      (byteLength (front ++ (name ++ cs.takeWhile isNameChar))) =
      .ok (name ++ cs.takeWhile isNameChar) :=
    slice_eq (by rw [List.append_assoc, List.takeWhile_append_dropWhile, hsource])
  simp only [scanName, advanceWhile_behind, offset_behind, List.append_assoc, hslice]

theorem scanName_self (hsource : source = front ++ cs) :
    scanName source (.behind front cs) (.behind front cs) =
      .ok (String.ofList (cs.takeWhile isNameChar),
        .behind (front ++ cs.takeWhile isNameChar) (cs.dropWhile isNameChar)) := by
  have hscan : scanName source (.behind front ([] ++ cs)) (.behind (front ++ []) cs) =
      .ok (String.ofList ([] ++ cs.takeWhile isNameChar),
        .behind (front ++ ([] ++ cs.takeWhile isNameChar)) (cs.dropWhile isNameChar)) :=
    scanName_eq hsource
  rwa [List.nil_append, List.nil_append, List.append_nil] at hscan

/-- The second character counts only where it is looked at. -/
theorem beq_and_of_looksAhead {first : Char} (hfirst : looksAhead first = true) (c : Char)
    (next : Option Char) (p : Option Char → Bool) :
    (c == first && p (if looksAhead c then next else none)) = (c == first && p next) := by
  by_cases hc : c = first
  · subst hc
    rw [if_pos hfirst]
  · rw [beq_false_of_ne hc, Bool.false_and, Bool.false_and]

/-- The token that is scanned is the one that is read. -/
theorem scanToken_eq {c : Char} (hsource : source = front ++ c :: cs) :
    scanToken source (.behind front (c :: cs)) =
      outcome source (fun found => (some found.1.kind, .behind (front ++ found.1.text) found.2))
        (read c cs) := by
  have hnext : (if looksAhead c then second source (.behind front (c :: cs)) else .ok none) =
      .ok (if looksAhead c then cs.head? else none) := by
    rw [second_eq hsource, List.head?_eq_getElem?]
    split <;> rfl
  have hcomment := beq_and_of_looksAhead (rfl : looksAhead '/' = true) c cs.head? (· == some '*')
  have hpoint := beq_and_of_looksAhead (rfl : looksAhead '.' = true) c cs.head? (·.any isDigit)
  have hminus := beq_and_of_looksAhead (rfl : looksAhead '-' = true) c cs.head?
    (·.any fun next => next == '.' || isDigit next)
  have hhyphen := beq_and_of_looksAhead (rfl : looksAhead '-' = true) c cs.head? (·.any isNameStart)
  simp only [scanToken, rest_behind, hnext, hcomment, hpoint, hminus, hhyphen, ← opensBlank_cons,
    ← startsNumber_eq, offset_behind, advance_behind]
  by_cases hopens : opensBlank (c :: cs) = true
  · rw [if_pos hopens, read_of_opensBlank hopens]
    have hpass := passBlanks_eq none hsource
    rw [Option.map_none] at hpass
    rw [hpass]
    cases readBlanks none (c :: cs) <;> rfl
  rw [if_neg hopens, read, ← opensBlank_cons, if_neg hopens]
  by_cases hnumber : startsNumber c cs = true
  · rw [if_pos hnumber, if_pos hnumber, scanNumber_eq hsource]
    cases readNumber (c :: cs) <;> rfl
  rw [if_neg hnumber, if_neg hnumber]
  by_cases hhyphen : (c == '-' && cs.head?.any isNameStart) = true
  · have hword : startsWord c cs = true := by rw [startsWord, hhyphen, Bool.or_true]
    obtain rfl : c = '-' := by simpa using (Bool.and_eq_true_iff.mp hhyphen).1
    have hscan : scanName source (.behind front ('-' :: cs)) (.behind (front ++ ['-']) cs) =
        .ok (String.ofList ('-' :: cs.takeWhile isNameChar),
          .behind (front ++ '-' :: cs.takeWhile isNameChar) (cs.dropWhile isNameChar)) :=
      scanName_eq hsource
    rw [if_pos hhyphen, if_pos hword, hscan, List.takeWhile_cons_of_pos (by decide),
      List.dropWhile_cons_of_pos (by decide)]
    rfl
  rw [if_neg hhyphen]
  by_cases hstart : isNameStart c = true
  · have hword : startsWord c cs = true := by rw [startsWord, hstart, Bool.true_or]
    rw [if_pos hstart, if_pos hword, scanName_self hsource]
    rfl
  have hword : ¬ startsWord c cs = true := by simp_all [startsWord]
  rw [if_neg hstart, if_neg hword]
  by_cases hhash : c = '#'
  · have hbehind : source = front ++ [c] ++ cs := by simpa using hsource
    rw [if_pos hhash, if_pos hhash, scanName_self hbehind]
    by_cases hname : cs.takeWhile isNameChar = []
    · simp [hname, outcome_fault hsource]
    · simp [hname, outcome]
  · rw [if_neg hhash, if_neg hhash]
    cases mark? c with
    | some kind => rfl
    | none => simp only [outcome_fault hsource]

/-! ### The whole source -/

/-- The spans of tokens that stand one behind the other from an offset on, and the end of the
source behind them. -/
def lexemesFrom (offset : Nat) : List Token → List Lexeme
  | [] => [⟨none, offset, offset⟩]
  | token :: tokens =>
    ⟨some token.kind, offset, offset + byteLength token.text⟩ ::
      lexemesFrom (offset + byteLength token.text) tokens

theorem scanFrom_of_read {c : Char} {token : Token} {rest : List Char}
    (hsource : source = front ++ c :: cs) (hread : read c cs = .ok (token, rest)) :
    scanFrom source (.behind front (c :: cs)) =
      (scanFrom source (.behind (front ++ token.text) rest)).map
        (⟨some token.kind, byteLength front, byteLength (front ++ token.text)⟩ :: ·) := by
  have hshorter : (Cursor.behind (front ++ token.text) rest).rest.length <
      (Cursor.behind front (c :: cs)).rest.length := length_lt_of_read hread
  rw [scanFrom, scanToken_eq hsource, hread]
  simp only [outcome]
  rw [if_pos hshorter]
  cases scanFrom source (.behind (front ++ token.text) rest) <;> rfl

theorem scanFrom_eq (hsource : source = front ++ cs) :
    scanFrom source (.behind front cs) =
      outcome source (lexemesFrom (byteLength front)) (tokens cs) := by
  fun_induction tokens cs generalizing front with
  | case1 =>
    rw [scanFrom, scanToken]
    rfl
  | case2 c cs refusal hread =>
    rw [scanFrom, scanToken_eq hsource, hread]
    rfl
  | case3 c cs token rest hread hshorter refusal htail ih =>
    have hbehind : source = front ++ token.text ++ rest := by
      rw [List.append_assoc, (read_eq hread).1, hsource]
    rw [scanFrom_of_read hsource hread, ih hbehind, htail]
    rfl
  | case4 c cs token rest hread hshorter more htail ih =>
    have hbehind : source = front ++ token.text ++ rest := by
      rw [List.append_assoc, (read_eq hread).1, hsource]
    rw [scanFrom_of_read hsource hread, ih hbehind, htail, byteLength_append]
    rfl

end

/-- **A scan finds the spans of the tokens**, or the same fault. It needs no slice that is not
there, and it comes to an end. -/
theorem scan_eq (source : List Char) :
    scan source = outcome source (lexemesFrom 0) (tokens source) :=
  scanFrom_eq (List.nil_append source).symm

example : scan "é/**/ 2".toList = .ok [⟨some (.word "é"), 0, 2⟩, ⟨some .blank, 2, 7⟩,
    ⟨some (.number (Single.ofRatio false 2 1) ""), 7, 8⟩, ⟨none, 8, 8⟩] := by
  decide +kernel

example : scan "é #".toList = .error (.fault .missingHashName 3) := by
  decide +kernel

end WidgetStyle.Sheet
