import WidgetStyle.Proofs.Offsets
import WidgetStyle.Proofs.SameStart
import WidgetStyle.Proofs.Tokens

/-!
# What stands behind a token

A token is the same token before any other text that starts alike (`Reads.of_sameStart`), and in
particular before more text or less (`Reads.append`). A run of blanks and comments takes what it
finds: it goes on with whatever is put behind it (`readBlanks_append`), and stops before what opens
neither (`readBlanks_of_stop`). The places of faults are counted from the end of the text, so inside
a comment the count grows with the text.
-/

namespace WidgetStyle.Sheet

open Number (Digit Numeral Single)
open Text (isBlank byteLength byteLength_append)

/-! ### Names -/

theorem isNameChar_of_isNameStart {c : Char} (hstart : isNameStart c = true) :
    isNameChar c = true := by
  simp only [isNameStart, isNameChar, Bool.or_eq_true] at hstart ⊢
  tauto

theorem apart_isNameChar : Apart isNameChar := by
  intro c hc
  constructor
  · by_contra hblank
    rw [Bool.not_eq_false] at hblank
    rw [isNameChar, Text.isAlphabetic_of_isBlank hblank, Text.isNumeric_of_isBlank hblank] at hc
    obtain rfl | rfl : c = '_' ∨ c = '-' := by simpa using hc
    · exact absurd hblank (by decide)
    · exact absurd hblank (by decide)
  · rintro rfl
    exact absurd hc (by decide)

theorem apart_isNameStart : Apart isNameStart :=
  fun c hc => apart_isNameChar c (isNameChar_of_isNameStart hc)

/-- A name ends where it ended, before any other text that starts alike. -/
theorem takeWhile_append_of_sameStart {front rest : List Char}
    (hsame : SameStart (front.dropWhile isNameChar) rest) :
    (front.takeWhile isNameChar ++ rest).takeWhile isNameChar = front.takeWhile isNameChar ∧
      (front.takeWhile isNameChar ++ rest).dropWhile isNameChar = rest := by
  apply takeWhile_append_of_stop fun a ha => List.mem_takeWhile_imp ha
  have hstop : (front.dropWhile isNameChar).head?.any isNameChar = false :=
    (Option.any_eq_false _ _).mpr (head?_dropWhile_eq_false front)
  rw [hsame.any_head apart_isNameChar] at hstop
  exact (Option.any_eq_false _ _).mp hstop

/-- Whether a suffix starts with a character. -/
def startsSuffix (c : Char) : Bool :=
  c == '%' || isNameStart c

theorem apart_startsSuffix : Apart startsSuffix := by
  intro c hc
  rcases Bool.or_eq_true_iff.mp hc with hpercent | hname
  · obtain rfl : c = '%' := by simpa using hpercent
    decide
  · exact apart_isNameStart c hname

theorem readSuffix_of_no_suffix {rest : List Char} (hstop : rest.head?.any startsSuffix = false) :
    readSuffix rest = ([], rest) := by
  cases rest with
  | nil => rfl
  | cons c rest =>
    obtain ⟨hpercent, hname⟩ : c ≠ '%' ∧ isNameStart c = false := by
      simpa [startsSuffix] using hstop
    simp [readSuffix, hpercent, hname]

theorem all_head_readSuffix (cs : List Char) :
    (readSuffix cs).1.head?.all startsSuffix = true := by
  cases cs with
  | nil => rfl
  | cons c cs =>
    by_cases hpercent : c = '%'
    · rw [readSuffix, if_pos hpercent]
      rfl
    · by_cases hname : isNameStart c = true
      · rw [readSuffix, if_neg hpercent, if_pos hname,
          List.takeWhile_cons_of_pos (isNameChar_of_isNameStart hname)]
        simp [startsSuffix, hname]
      · rw [readSuffix, if_neg hpercent, if_neg hname]
        rfl

theorem readSuffix_of_sameStart {cs rest : List Char} (hsame : SameStart (readSuffix cs).2 rest) :
    readSuffix ((readSuffix cs).1 ++ rest) = ((readSuffix cs).1, rest) := by
  by_cases hstop : cs.head?.any startsSuffix = false
  · rw [readSuffix_of_no_suffix hstop] at hsame ⊢
    rw [hsame.any_head apart_startsSuffix] at hstop
    exact readSuffix_of_no_suffix hstop
  · obtain ⟨c, cs, rfl⟩ : ∃ c tail, cs = c :: tail := by
      cases cs with
      | nil => exact absurd rfl hstop
      | cons c cs => exact ⟨c, cs, rfl⟩
    by_cases hpercent : c = '%'
    · subst hpercent
      rfl
    · have hname : isNameStart c = true := by
        simpa [startsSuffix, hpercent] using hstop
      simp only [readSuffix, if_neg hpercent, if_pos hname] at hsame ⊢
      obtain ⟨htake, hdrop⟩ := takeWhile_append_of_sameStart hsame
      rw [List.takeWhile_cons_of_pos (isNameChar_of_isNameStart hname)] at htake hdrop ⊢
      rw [List.cons_append] at htake hdrop ⊢
      simp only [if_neg hpercent, if_pos hname, htake, hdrop]

theorem plain_takeWhile (cs : List Char) : ∀ c ∈ cs.takeWhile isNameChar, Plain c :=
  fun c hc => apart_isNameChar c (List.mem_takeWhile_imp hc)

theorem plain_readSuffix (cs : List Char) : ∀ c ∈ (readSuffix cs).1, Plain c := by
  cases cs with
  | nil => simp [readSuffix]
  | cons c cs =>
    simp only [readSuffix]
    by_cases hpercent : c = '%'
    · rw [if_pos hpercent]
      intro c' hc'
      obtain rfl : c' = '%' := by simpa using hc'
      decide
    · by_cases hname : isNameStart c = true
      · rw [if_neg hpercent, if_pos hname]
        exact plain_takeWhile _
      · simp [hpercent, hname]

theorem readNumber_of_sameStart {cs rest rest' : List Char} {token : Token}
    (hread : readNumber cs = .ok (token, rest)) (hsame : SameStart rest rest') :
    readNumber (token.text ++ rest') = .ok (token, rest') := by
  simp only [readNumber] at hread
  split at hread
  · cases hread
  · next hdigits =>
    cases hread
    have hbehind : SameStart (Numeral.readPlain cs).2
        ((readSuffix (Numeral.readPlain cs).2).1 ++ rest') := by
      have hsuffix := hsame.append_left (plain_readSuffix (Numeral.readPlain cs).2)
      rwa [readSuffix_eq] at hsuffix
    rw [List.append_assoc, readNumber, Numeral.readPlain_of_sameStart hbehind]
    simp only [if_neg hdigits, readSuffix_of_sameStart hsame]

/-! ### Blanks -/

theorem readBlanks_of_opensBlank {cs : List Char} (hopens : opensBlank cs = false) :
    readBlanks none cs = .ok ([], cs) := by
  cases cs with
  | nil => rw [readBlanks]
  | cons c cs =>
    rw [opensBlank_cons, Bool.or_eq_false_iff] at hopens
    obtain ⟨hblank, hcomment⟩ := hopens
    rw [readBlanks, if_neg (by simp [hblank])]
    rintro cs rfl rfl
    simp at hcomment

/-- A run of blanks and comments that is read goes on with what follows it. -/
theorem readBlanks_append {comment : Option Nat} {cs text rest : List Char} (more : List Char)
    (hread : readBlanks comment cs = .ok (text, rest)) :
    readBlanks (comment.map (· + byteLength more)) (cs ++ more) =
      (readBlanks none (rest ++ more)).map fun found => (text ++ found.1, found.2) := by
  fun_induction readBlanks comment cs generalizing text rest with
  | case1 cs text' rest' hread' ih =>
    cases hread
    have hopening : byteLength ('/' :: '*' :: cs) + byteLength more =
        byteLength ('/' :: '*' :: (cs ++ more)) := by
      rw [← byteLength_append, List.cons_append, List.cons_append]
    rw [Option.map_some, hopening] at ih
    rw [Option.map_none, List.cons_append, List.cons_append, readBlanks, ih hread']
    cases readBlanks none (rest' ++ more) <;> rfl
  | case2 => cases hread
  | case3 c cs hcomment hblank text' rest' hread' ih =>
    cases hread
    have hslash : c ≠ '/' := by
      rintro rfl
      exact absurd hblank (by decide)
    rw [Option.map_none] at ih
    rw [Option.map_none, List.cons_append, readBlanks, if_pos hblank, ih hread']
    · cases readBlanks none (rest' ++ more) <;> rfl
    · exact fun cs' hc _ => hslash hc
  | case4 => cases hread
  | case5 c cs hcomment hblank =>
    cases hread
    rw [Option.map_none]
    cases readBlanks none (c :: cs ++ more) <;> rfl
  | case6 =>
    cases hread
    rw [Option.map_none]
    cases readBlanks none ([] ++ more) <;> rfl
  | case7 opening cs text' rest' hread' ih =>
    cases hread
    rw [Option.map_none] at ih
    rw [Option.map_some, List.cons_append, List.cons_append, readBlanks, ih hread']
    cases readBlanks none (rest' ++ more) <;> rfl
  | case8 => cases hread
  | case9 opening c cs hclosing text' rest' hread' ih =>
    cases hread
    rw [Option.map_some] at ih
    rw [Option.map_some, List.cons_append, readBlanks, ih hread']
    · cases readBlanks none (rest' ++ more) <;> rfl
    · -- the comment goes on behind `c`, so `cs` is not empty
      intro cs' hc hcs
      cases cs with
      | nil => simp [readBlanks] at hread'
      | cons next cs =>
        cases hcs
        exact hclosing cs hc rfl
  | case10 => cases hread
  | case11 => cases hread

theorem readBlanks_comment_ne_nil {opening : Nat} {cs text rest : List Char}
    (hread : readBlanks (some opening) cs = .ok (text, rest)) : text ≠ [] := by
  rintro rfl
  unfold readBlanks at hread
  split at hread
  · simp_all
  · simp_all
  · simp_all
  · split at hread <;> simp_all
  · split at hread <;> simp_all
  · simp_all

/-- A run of blanks and comments stops where neither of them opens. -/
theorem readBlanks_of_stop {comment : Option Nat} {cs text rest rest' : List Char}
    (hread : readBlanks comment cs = .ok (text, rest)) (hstop : opensBlank rest' = false)
    (comment' : Option Nat) (hcomment : comment.isSome = comment'.isSome) :
    readBlanks comment' (text ++ rest') = .ok (text, rest') := by
  fun_induction readBlanks comment cs generalizing text rest comment' with
  | case1 cs text' behind hread' ih =>
    cases hread
    obtain rfl : comment' = none := by simpa using hcomment
    rw [List.cons_append, List.cons_append, readBlanks,
      ih hread' (some (byteLength ('/' :: '*' :: (text' ++ rest')))) rfl]
  | case2 => cases hread
  | case3 c cs hopens hblank text' behind hread' ih =>
    cases hread
    obtain rfl : comment' = none := by simpa using hcomment
    have hslash : c ≠ '/' := by
      rintro rfl
      exact absurd hblank (by decide)
    rw [List.cons_append, readBlanks, if_pos hblank, ih hread' none rfl]
    exact fun cs' hc _ => hslash hc
  | case4 => cases hread
  | case5 c cs hopens hblank =>
    cases hread
    obtain rfl : comment' = none := by simpa using hcomment
    exact readBlanks_of_opensBlank hstop
  | case6 =>
    cases hread
    obtain rfl : comment' = none := by simpa using hcomment
    exact readBlanks_of_opensBlank hstop
  | case7 opening cs text' behind hread' ih =>
    cases hread
    obtain ⟨opening', rfl⟩ := Option.isSome_iff_exists.mp hcomment.symm
    rw [List.cons_append, List.cons_append, readBlanks, ih hread' none rfl]
  | case8 => cases hread
  | case9 opening c cs hclosing text' behind hread' ih =>
    cases hread
    obtain ⟨opening', rfl⟩ := Option.isSome_iff_exists.mp hcomment.symm
    rw [List.cons_append, readBlanks, ih hread' (some opening') rfl]
    -- the comment goes on behind `c`, so what follows `c` is the same as before
    intro cs' hc hcs
    obtain ⟨next, text', rfl⟩ := List.exists_cons_of_ne_nil (readBlanks_comment_ne_nil hread')
    obtain ⟨rfl, -⟩ := List.cons.inj hcs
    exact hclosing _ hc (readBlanks_eq hread').symm
  | case10 => cases hread
  | case11 => cases hread

/-! ### Single tokens -/

/-- A space is a blank token, if no more blanks follow. -/
theorem reads_space {rest : List Char} (hstop : opensBlank rest = false) :
    Reads ' ' rest ⟨.blank, [' ']⟩ rest := by
  refine .blank rfl ?_
  rw [readBlanks, if_pos (by decide), readBlanks_of_opensBlank hstop]
  rintro cs ⟨⟩

theorem Reads.exists_text_eq_cons {c : Char} {cs rest : List Char} {token : Token}
    (hread : Reads c cs token rest) : ∃ text, token.text = c :: text ∧ text ++ rest = cs := by
  obtain ⟨hall, hsome⟩ := read_eq (read_eq_ok_iff.mpr hread)
  obtain ⟨first, text, hcons⟩ := List.exists_cons_of_ne_nil hsome
  rw [hcons, List.cons_append, List.cons.injEq] at hall
  obtain ⟨rfl, hcs⟩ := hall
  exact ⟨text, hcons, hcs⟩

/-- Only blank tokens have blanks or slashes in them. -/
theorem Reads.plain {c : Char} {cs rest : List Char} {token : Token}
    (hread : Reads c cs token rest) (hkind : token.kind ≠ .blank) : ∀ a ∈ token.text, Plain a := by
  cases hread with
  | blank hopens hblanks => exact absurd rfl hkind
  | number hopens hstarts hnumber =>
    simp only [readNumber] at hnumber
    split at hnumber
    · cases hnumber
    · cases hnumber
      intro a ha
      rcases List.mem_append.mp ha with hnumeral | hsuffix
      · exact Numeral.plain_text_readPlain _ a hnumeral
      · exact plain_readSuffix _ a hsuffix
  | word hopens hnumber hstarts => exact plain_takeWhile _
  | hash hopens hnumber hword hc hname =>
    subst hc
    intro a ha
    rcases List.mem_cons.mp ha with rfl | ha
    · decide
    · exact plain_takeWhile _ a ha
  | mark hopens hnumber hword hc hmark =>
    intro a ha
    obtain rfl := List.mem_singleton.mp ha
    unfold mark? at hmark
    split at hmark
    all_goals first | decide | cases hmark

theorem exists_numeral_of_readNumber {cs rest : List Char} {token : Token}
    (hread : readNumber cs = .ok (token, rest)) :
    ∃ (numeral : Numeral) (suffix : List Char), numeral.IsDecimal ∧
      suffix.head?.all startsSuffix = true ∧
      token = ⟨.number numeral.toSingle (String.ofList suffix), numeral.text ++ suffix⟩ := by
  simp only [readNumber] at hread
  split at hread
  · cases hread
  · next hdigits =>
    cases hread
    exact ⟨_, _, ⟨rfl, by simpa using hdigits⟩, all_head_readSuffix _, rfl⟩

/-- A number is the rounded numeral that it is written as, and what follows the numeral is the
suffix. -/
theorem Reads.exists_numeral {c : Char} {cs rest : List Char} {token : Token} {amount : Single}
    {suffix : String} (hread : Reads c cs token rest) (hkind : token.kind = .number amount suffix) :
    ∃ numeral : Numeral, numeral.IsDecimal ∧ suffix.toList.head?.all startsSuffix = true ∧
      amount = numeral.toSingle ∧ token.text = numeral.text ++ suffix.toList := by
  cases hread with
  | blank hopens hblanks => cases hkind
  | number hopens hstarts hnumber =>
    obtain ⟨numeral, suffix', hdecimal, hsuffix, rfl⟩ := exists_numeral_of_readNumber hnumber
    obtain ⟨rfl, rfl⟩ := TokenKind.number.inj hkind
    rw [String.toList_ofList]
    exact ⟨numeral, hdecimal, hsuffix, rfl, rfl⟩
  | word hopens hnumber hstarts => cases hkind
  | hash hopens hnumber hword hc hname => cases hkind
  | mark hopens hnumber hword hc hmark =>
    obtain rfl : _ = TokenKind.number amount suffix := hkind
    exact (isMark_of_mark? hmark).elim

theorem exists_numeral_of_mem_tokens {cs : List Char} {list : List Token}
    (hcut : tokens cs = .ok list) {token : Token} (htoken : token ∈ list) {amount : Single}
    {suffix : String} (hkind : token.kind = .number amount suffix) :
    ∃ numeral : Numeral, numeral.IsDecimal ∧ suffix.toList.head?.all startsSuffix = true ∧
      amount = numeral.toSingle ∧ token.text = numeral.text ++ suffix.toList := by
  refine forall_mem_tokens (P := fun token => ∀ amount suffix, token.kind = .number amount suffix →
    ∃ numeral : Numeral, numeral.IsDecimal ∧ suffix.toList.head?.all startsSuffix = true ∧
      amount = numeral.toSingle ∧ token.text = numeral.text ++ suffix.toList) ?_ hcut token htoken
    amount suffix hkind
  intro c cs token rest hread amount suffix hkind
  exact hread.exists_numeral hkind

theorem startsNumber_eq (c : Char) (cs : List Char) :
    startsNumber c cs = (Number.isDigit c || c == '.' && cs.head?.any Number.isDigit ||
      c == '-' && cs.head?.any fun next => next == '.' || Number.isDigit next) := by
  cases cs <;> rfl

theorem startsNumber_of_sameStart {cs cs' : List Char} (hsame : SameStart cs cs') (c : Char) :
    startsNumber c cs = startsNumber c cs' := by
  have hdigit := hsame.any_head Number.apart_isDigit
  have hminus : cs.head?.any (fun next => next == '.' || Number.isDigit next) =
      cs'.head?.any fun next => next == '.' || Number.isDigit next := by
    refine hsame.any_head ?_
    intro next hnext
    rcases Bool.or_eq_true_iff.mp hnext with hpoint | hnext
    · exact apart_point next hpoint
    · exact Number.apart_isDigit next hnext
  rw [startsNumber_eq, startsNumber_eq, hdigit, hminus]

theorem startsWord_of_sameStart {cs cs' : List Char} (hsame : SameStart cs cs') (c : Char) :
    startsWord c cs = startsWord c cs' := by
  rw [startsWord, startsWord, hsame.any_head apart_isNameStart]

theorem not_digit_of_startsNumber {c : Char} {cs : List Char}
    (hnumber : startsNumber c cs = false) : (Number.Digit.ofChar? c).isSome = false := by
  simp only [startsNumber, Bool.or_eq_false_iff] at hnumber
  exact hnumber.1.1

/-- What starts a name and no number does so also when the text behind the name is left away. -/
theorem starts_takeWhile {c : Char} {cs : List Char} (hnumber : startsNumber c cs = false)
    (hstarts : startsWord c cs = true) :
    startsNumber c (cs.takeWhile isNameChar) = false ∧
      startsWord c (cs.takeWhile isNameChar) = true := by
  cases cs with
  | nil => exact ⟨hnumber, hstarts⟩
  | cons next cs =>
    by_cases hnext : isNameChar next = true
    · rw [List.takeWhile_cons_of_pos hnext]
      exact ⟨hnumber, hstarts⟩
    · -- what is no character of a name starts none, so the name starts with the first character
      have hnone : isNameStart next = false := by
        by_contra hstart
        exact hnext (isNameChar_of_isNameStart (Bool.not_eq_false _ ▸ hstart))
      have hstart : isNameStart c = true := by simpa [startsWord, hnone] using hstarts
      have hdigit := not_digit_of_startsNumber hnumber
      rw [List.takeWhile_cons_of_neg hnext]
      simp [startsNumber, startsWord, hdigit, hstart]

/-- A token is the same before any other text that starts alike. -/
theorem Reads.of_sameStart {c : Char} {cs cs' rest rest' : List Char} {token : Token}
    (hread : Reads c cs token rest) (hsame : SameStart rest rest')
    (htext : token.text ++ rest' = c :: cs') : Reads c cs' token rest' := by
  by_cases hkind : token.kind = .blank
  · have hstop := hread.opensBlank_rest hkind
    rw [hsame.opens] at hstop
    have hrun := readBlanks_of_stop (hread.readBlanks_eq hkind) hstop none rfl
    rw [htext] at hrun
    have hopens : opensBlank (c :: cs') = true := by
      by_contra hopens
      rw [readBlanks_of_opensBlank (by simpa using hopens)] at hrun
      obtain ⟨hnil, -⟩ := Prod.mk.inj (Except.ok.inj hrun)
      exact (read_eq (read_eq_ok_iff.mpr hread)).2 hnil.symm
    obtain ⟨kind, text⟩ := token
    obtain rfl : kind = .blank := hkind
    exact .blank hopens hrun
  have hstart : c ≠ '/' ∧ SameStart cs cs' := by
    obtain ⟨text, hcons, rfl⟩ := hread.exists_text_eq_cons
    have hplain := hread.plain hkind
    rw [hcons] at htext hplain
    obtain ⟨-, rfl⟩ := List.cons.inj htext
    obtain ⟨hc, htail⟩ := List.forall_mem_cons.mp hplain
    exact ⟨hc.2, hsame.append_left htail⟩
  obtain ⟨hslash, htail⟩ := hstart
  have hopens' : opensBlank (c :: cs') = opensBlank (c :: cs) := by
    simp [opensBlank_cons, beq_false_of_ne hslash]
  have hnumber' : startsNumber c cs' = startsNumber c cs :=
    (startsNumber_of_sameStart htail c).symm
  have hword' : startsWord c cs' = startsWord c cs := (startsWord_of_sameStart htail c).symm
  cases hread with
  | blank hopens hblanks => exact absurd rfl hkind
  | number hopens hstarts hnumber =>
    refine .number (hopens'.trans hopens) (hnumber'.trans hstarts) ?_
    rw [← htext]
    exact readNumber_of_sameStart hnumber hsame
  | word hopens hnumber hstarts =>
    obtain ⟨htake, hdrop⟩ := takeWhile_append_of_sameStart hsame
    rw [htext] at htake hdrop
    rw [← htake, ← hdrop]
    exact .word (hopens'.trans hopens) (hnumber'.trans hnumber) (hword'.trans hstarts)
  | hash hopens hnumber hword hc hname =>
    obtain ⟨htake, hdrop⟩ := takeWhile_append_of_sameStart hsame
    have hbehind : cs.takeWhile isNameChar ++ rest' = cs' := (List.cons.inj htext).2
    rw [hbehind] at htake hdrop
    rw [← htake, ← hdrop]
    exact .hash (hopens'.trans hopens) (hnumber'.trans hnumber) (hword'.trans hword) hc
      (by rwa [htake])
  | mark hopens hnumber hword hc hmark =>
    obtain rfl := (List.cons.inj htext).2
    exact .mark (hopens'.trans hopens) (hnumber'.trans hnumber) (hword'.trans hword) hc hmark

/-- More text behind a token does not change it, if it is followed by more than a point or a
slash. -/
theorem Reads.append {c : Char} {cs rest : List Char} {token : Token}
    (hread : Reads c cs token rest) (more : List Char) (hrest : rest ≠ []) (hpoint : rest ≠ ['.'])
    (hslash : rest ≠ ['/']) : Reads c (cs ++ more) token (rest ++ more) := by
  apply hread.of_sameStart (.append more hrest (fun hrest => absurd hrest hpoint) hslash)
  rw [← List.append_assoc, (read_eq (read_eq_ok_iff.mpr hread)).1, List.cons_append]

end WidgetStyle.Sheet
