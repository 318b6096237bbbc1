import Mathlib.Data.List.Chain
import WidgetStyle.Sheet.Tokens

/-!
# What one token is, and blanks between tokens

`Reads` says what the token at the front of a text can be, with the conditions under which it is
chosen; everything known about single tokens is read off its five cases. A blank token takes a
whole run of blanks and comments: what follows it opens neither. Since a token is blank exactly
where such a run opens, no two tokens of a text in a row are blank.
-/

namespace WidgetStyle.Sheet

open Text (isBlank byteLength)

/-- Whether a run of blanks and comments stands at the front of a text. -/
def opensBlank : List Char → Bool
  | [] => false
  | c :: cs => isBlank c || c == '/' && cs.head? == some '*'

theorem opensBlank_cons (c : Char) (cs : List Char) :
    opensBlank (c :: cs) = (isBlank c || c == '/' && cs.head? == some '*') := rfl

/-- The token at the front of the text `c :: cs`, and what follows it. -/
inductive Reads (c : Char) (cs : List Char) : Token → List Char → Prop
  | blank {text rest : List Char} (hopens : opensBlank (c :: cs) = true)
      (hblanks : readBlanks none (c :: cs) = .ok (text, rest)) : Reads c cs ⟨.blank, text⟩ rest
  | number {token : Token} {rest : List Char} (hopens : opensBlank (c :: cs) = false)
      (hstarts : startsNumber c cs = true) (hnumber : readNumber (c :: cs) = .ok (token, rest)) :
      Reads c cs token rest
  | word (hopens : opensBlank (c :: cs) = false) (hnumber : startsNumber c cs = false)
      (hstarts : startsWord c cs = true) :
      Reads c cs
        ⟨.word (String.ofList ((c :: cs).takeWhile isNameChar)), (c :: cs).takeWhile isNameChar⟩
        ((c :: cs).dropWhile isNameChar)
  | hash (hopens : opensBlank (c :: cs) = false) (hnumber : startsNumber c cs = false)
      (hword : startsWord c cs = false) (hc : c = '#') (hname : cs.takeWhile isNameChar ≠ []) :
      Reads c cs ⟨.hash (String.ofList (cs.takeWhile isNameChar)), c :: cs.takeWhile isNameChar⟩
        (cs.dropWhile isNameChar)
  | mark {kind : TokenKind} (hopens : opensBlank (c :: cs) = false)
      (hnumber : startsNumber c cs = false) (hword : startsWord c cs = false) (hc : c ≠ '#')
      (hmark : mark? c = some kind) : Reads c cs ⟨kind, [c]⟩ cs

theorem read_eq_ok_iff {c : Char} {cs rest : List Char} {token : Token} :
    read c cs = .ok (token, rest) ↔ Reads c cs token rest := by
  constructor
  · intro hread
    simp only [read] at hread
    split at hread
    · next hopens =>
      split at hread
      · next hblanks =>
        cases hread
        exact .blank hopens hblanks
      · cases hread
    · next hopens =>
      have hopens : opensBlank (c :: cs) = false := Bool.eq_false_iff.mpr hopens
      split at hread
      · next hstarts => exact .number hopens hstarts hread
      · next hnumber =>
        simp only [Bool.not_eq_true] at hnumber
        split at hread
        · next hstarts =>
          cases hread
          exact .word hopens hnumber hstarts
        · next hword =>
          simp only [Bool.not_eq_true] at hword
          split at hread
          · next hc =>
            split at hread
            · cases hread
            · next hname =>
              cases hread
              exact .hash hopens hnumber hword hc (by simpa using hname)
          · next hc =>
            split at hread
            · next hmark =>
              cases hread
              exact .mark hopens hnumber hword hc hmark
            · cases hread
  · intro hread
    unfold read
    rw [← opensBlank_cons]
    cases hread with
    | blank hopens hblanks => rw [if_pos hopens, hblanks]
    | number hopens hstarts hnumber =>
      rw [if_neg (Bool.eq_false_iff.mp hopens), if_pos hstarts, hnumber]
    | word hopens hnumber hstarts =>
      rw [if_neg (Bool.eq_false_iff.mp hopens), if_neg (Bool.eq_false_iff.mp hnumber),
        if_pos hstarts]
    | hash hopens hnumber hword hc hname =>
      rw [if_neg (Bool.eq_false_iff.mp hopens), if_neg (Bool.eq_false_iff.mp hnumber),
        if_neg (Bool.eq_false_iff.mp hword), if_pos hc]
      simp [hname]
    | mark hopens hnumber hword hc hmark =>
      rw [if_neg (Bool.eq_false_iff.mp hopens), if_neg (Bool.eq_false_iff.mp hnumber),
        if_neg (Bool.eq_false_iff.mp hword), if_neg hc, hmark]

/-! ### Blank tokens -/

theorem opensBlank_of_readBlanks {comment : Option Nat} {cs text rest : List Char}
    (hread : readBlanks comment cs = .ok (text, rest)) : opensBlank rest = false := by
  fun_induction readBlanks comment cs generalizing text rest with
  | case5 c cs hcomment hblank =>
    -- the run ends before a character that is not blank and does not open a comment
    cases hread
    cases cs with
    | nil => simp [opensBlank, hblank]
    | cons next cs =>
      simp only [opensBlank, hblank, List.head?_cons, Bool.false_or, Bool.and_eq_false_iff]
      by_cases hslash : c = '/'
      · right
        simpa using fun hstar : next = '*' => hcomment cs hslash (by rw [hstar])
      · left
        simpa using hslash
  | _ => simp_all [opensBlank]

theorem exists_number_of_readNumber {cs rest : List Char} {token : Token}
    (hread : readNumber cs = .ok (token, rest)) :
    ∃ amount suffix, token.kind = .number amount suffix := by
  simp only [readNumber] at hread
  split at hread
  · cases hread
  · cases hread
    exact ⟨_, _, rfl⟩

theorem kind_readNumber {cs rest : List Char} {token : Token}
    (hread : readNumber cs = .ok (token, rest)) : token.kind ≠ .blank := by
  obtain ⟨amount, suffix, hkind⟩ := exists_number_of_readNumber hread
  rw [hkind]
  exact TokenKind.noConfusion

/-- The kinds of tokens that are single characters: no names, no numbers and no blanks. -/
def TokenKind.IsMark : TokenKind → Prop
  | .word _ | .number _ _ | .hash _ | .blank => False
  | .dot | .star | .greater | .comma | .colon | .semicolon | .openBrace | .closeBrace => True

theorem isMark_of_mark? {c : Char} {kind : TokenKind} (hmark : mark? c = some kind) :
    kind.IsMark := by
  unfold mark? at hmark
  split at hmark <;> cases hmark <;> trivial

/-- A token is blank exactly where a run of blanks and comments opens. -/
theorem Reads.kind_eq_blank_iff {c : Char} {cs rest : List Char} {token : Token}
    (hread : Reads c cs token rest) : token.kind = .blank ↔ opensBlank (c :: cs) = true := by
  cases hread with
  | blank hopens hblanks => exact ⟨fun _ => hopens, fun _ => rfl⟩
  | number hopens hstarts hnumber => simp [hopens, kind_readNumber hnumber]
  | word hopens hnumber hstarts => simp [hopens]
  | hash hopens hnumber hword hc hname => simp [hopens]
  | mark hopens hnumber hword hc hmark =>
    rw [hopens]
    refine ⟨fun hkind => ?_, Bool.noConfusion⟩
    obtain rfl : _ = TokenKind.blank := hkind
    exact (isMark_of_mark? hmark).elim

theorem Reads.readBlanks_eq {c : Char} {cs rest : List Char} {token : Token}
    (hread : Reads c cs token rest) (hkind : token.kind = .blank) :
    readBlanks none (c :: cs) = .ok (token.text, rest) := by
  have hopens := hread.kind_eq_blank_iff.mp hkind
  cases hread with
  | blank hopens hblanks => exact hblanks
  | number hopens' hstarts hnumber => simp [hopens] at hopens'
  | word hopens' hnumber hstarts => simp [hopens] at hopens'
  | hash hopens' hnumber hword hc hname => simp [hopens] at hopens'
  | mark hopens' hnumber hword hc hmark => simp [hopens] at hopens'

theorem Reads.opensBlank_rest {c : Char} {cs rest : List Char} {token : Token}
    (hread : Reads c cs token rest) (hkind : token.kind = .blank) : opensBlank rest = false :=
  opensBlank_of_readBlanks (hread.readBlanks_eq hkind)

/-! ### Tokens with names -/

/-- Where a word is read, its characters are those of a name, as far as they go. -/
theorem Reads.word_inv {c : Char} {cs rest : List Char} {token : Token} {name : String}
    (hread : Reads c cs token rest) (hkind : token.kind = .word name) :
    startsNumber c cs = false ∧ startsWord c cs = true ∧
      name.toList = (c :: cs).takeWhile isNameChar ∧ rest = (c :: cs).dropWhile isNameChar ∧
      token.text = name.toList := by
  cases hread with
  | blank hopens hblanks => cases hkind
  | number hopens hstarts hnumber =>
    obtain ⟨amount, suffix, hnumber'⟩ := exists_number_of_readNumber hnumber
    rw [hnumber'] at hkind
    cases hkind
  | word hopens hnumber hstarts =>
    obtain rfl := TokenKind.word.inj hkind
    exact ⟨hnumber, hstarts, String.toList_ofList, rfl, String.toList_ofList.symm⟩
  | hash hopens hnumber hword hc hname => cases hkind
  | mark hopens hnumber hword hc hmark =>
    obtain rfl : _ = TokenKind.word name := hkind
    exact (isMark_of_mark? hmark).elim

/-- Where a hash is read, a name stands behind it, as far as its characters go. -/
theorem Reads.hash_inv {c : Char} {cs rest : List Char} {token : Token} {name : String}
    (hread : Reads c cs token rest) (hkind : token.kind = .hash name) :
    name.toList = cs.takeWhile isNameChar ∧ cs.takeWhile isNameChar ≠ [] ∧
      rest = cs.dropWhile isNameChar ∧ token.text = '#' :: name.toList := by
  cases hread with
  | blank hopens hblanks => cases hkind
  | number hopens hstarts hnumber =>
    obtain ⟨amount, suffix, hnumber'⟩ := exists_number_of_readNumber hnumber
    rw [hnumber'] at hkind
    cases hkind
  | word hopens hnumber hstarts => cases hkind
  | hash hopens hnumber hword hc hname =>
    obtain rfl := TokenKind.hash.inj hkind
    rw [String.toList_ofList, hc]
    exact ⟨rfl, hname, rfl, rfl⟩
  | mark hopens hnumber hword hc hmark =>
    obtain rfl : _ = TokenKind.hash name := hkind
    exact (isMark_of_mark? hmark).elim

/-- A word is written as its name. -/
theorem Reads.text_of_word {c : Char} {cs rest : List Char} {token : Token} {name : String}
    (hread : Reads c cs token rest) (hkind : token.kind = .word name) :
    token.text = name.toList := by
  obtain ⟨-, -, -, -, htext⟩ := hread.word_inv hkind
  exact htext

/-! ### Rows of tokens -/

theorem exists_reads_of_tokens {c : Char} {cs : List Char} {token : Token} {more : List Token}
    (hcut : tokens (c :: cs) = .ok (token :: more)) :
    ∃ rest, Reads c cs token rest ∧ tokens rest = .ok more := by
  unfold tokens at hcut
  split at hcut
  · cases hcut
  · next hread =>
    split at hcut
    · cases hcut
    · next htail =>
      cases hcut
      exact ⟨_, read_eq_ok_iff.mp hread, htail⟩

theorem kind_head_tokens {cs : List Char} {token : Token} {more : List Token}
    (hcut : tokens cs = .ok (token :: more)) : token.kind = .blank ↔ opensBlank cs = true := by
  cases cs with
  | nil => simp [tokens] at hcut
  | cons c cs =>
    obtain ⟨rest, hread, -⟩ := exists_reads_of_tokens hcut
    exact hread.kind_eq_blank_iff

/-- What holds of each token that can be read holds of the tokens of a text. -/
theorem forall_mem_tokens {P : Token → Prop}
    (hP : ∀ c cs token rest, Reads c cs token rest → P token) {cs : List Char} {list : List Token}
    (hcut : tokens cs = .ok list) : ∀ token ∈ list, P token := by
  fun_induction tokens cs generalizing list with
  | case1 =>
    cases hcut
    exact List.forall_mem_nil P
  | case2 => cases hcut
  | case3 => cases hcut
  | case4 c cs first rest hread hshorter more htail ih =>
    cases hcut
    exact List.forall_mem_cons.mpr ⟨hP c cs first rest (read_eq_ok_iff.mp hread), ih htail⟩

@[simp] theorem byteLengthOf_append (front back : List Token) :
    byteLengthOf (front ++ back) = byteLengthOf front + byteLengthOf back := by
  induction front with
  | nil => exact (Nat.zero_add _).symm
  | cons token front ih => rw [List.cons_append, byteLengthOf, byteLengthOf, ih, Nat.add_assoc]

/-- No two tokens in a row are blank. -/
def Spaced (tokens : List Token) : Prop :=
  tokens.IsChain fun left right => ¬ (left.kind = .blank ∧ right.kind = .blank)

theorem Spaced.of_append_right {front back : List Token} (hspaced : Spaced (front ++ back)) :
    Spaced back :=
  (List.isChain_append.mp hspaced).2.1

/-- **The tokens of a text are spaced**: of two tokens in a row one at least is not blank. -/
theorem spaced_tokens {cs : List Char} {list : List Token} (hcut : tokens cs = .ok list) :
    Spaced list := by
  fun_induction tokens cs generalizing list with
  | case1 =>
    cases hcut
    exact List.IsChain.nil
  | case2 => cases hcut
  | case3 => cases hcut
  | case4 c cs token rest hread hshorter more htail ih =>
    cases hcut
    cases more with
    | nil => exact List.IsChain.singleton _
    | cons next more =>
      refine List.IsChain.cons_cons ?_ (ih htail)
      rintro ⟨hblank, hnext⟩
      have hopens := (kind_head_tokens htail).mp hnext
      rw [(read_eq_ok_iff.mp hread).opensBlank_rest hblank] at hopens
      cases hopens

end WidgetStyle.Sheet
