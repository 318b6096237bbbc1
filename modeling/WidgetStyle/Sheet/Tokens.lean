import WidgetStyle.Sheet.Token

/-!
# Cutting a stylesheet into tokens

Reading a token takes at least one character and loses none, so the loop over a text ends, and the
texts of the tokens, joined together, are the source. A text that cannot be cut to its end is
refused as a whole.
-/

namespace WidgetStyle.Sheet

open Text (isBlank byteLength)
open Number (Digit Numeral)

/-! ### Reading loses nothing -/

theorem readBlanks_eq {comment : Option Nat} {cs text rest : List Char}
    (done : readBlanks comment cs = .ok (text, rest)) : text ++ rest = cs := by
  fun_induction readBlanks comment cs generalizing text rest <;> simp_all <;> grind

/-- A blank or the opening of a comment is taken. -/
theorem readBlanks_ne_nil {c : Char} {cs text rest : List Char}
    (opens : (isBlank c || c == '/' && cs.head? == some '*') = true)
    (done : readBlanks none (c :: cs) = .ok (text, rest)) : text ≠ [] := by
  unfold readBlanks at done
  split at done <;> simp_all <;> cases cs <;> grind

theorem readSuffix_eq (cs : List Char) : (readSuffix cs).1 ++ (readSuffix cs).2 = cs := by
  unfold readSuffix
  split
  · rfl
  · split
    · simp_all
    · split
      · exact List.takeWhile_append_dropWhile
      · rfl

theorem readNumber_eq {cs rest : List Char} {token : Token}
    (done : readNumber cs = .ok (token, rest)) : token.text ++ rest = cs ∧ token.text ≠ [] := by
  simp only [readNumber] at done
  split at done
  · cases done
  · next some =>
    cases done
    refine ⟨?_, ?_⟩
    · simp only [List.append_assoc]
      rw [readSuffix_eq, Numeral.readPlain_text]
    · intro none
      apply some
      simp_all [Numeral.text, Numeral.digits]

/-- Reading a token takes at least one character and loses none. -/
theorem read_eq {c : Char} {cs rest : List Char} {token : Token}
    (done : read c cs = .ok (token, rest)) :
    token.text ++ rest = c :: cs ∧ token.text ≠ [] := by
  simp only [read] at done
  split at done
  · next opens =>
    split at done
    · next blanks =>
      cases done
      exact ⟨readBlanks_eq blanks, readBlanks_ne_nil opens blanks⟩
    · cases done
  · split at done
    · exact readNumber_eq done
    · split at done
      · next starts =>
        cases done
        refine ⟨List.takeWhile_append_dropWhile, ?_⟩
        have first : isNameChar c = true := by
          simp only [startsWord, isNameStart, isNameChar] at *
          grind
        simp [first]
      · split at done
        · next hash =>
          split at done
          · cases done
          · cases done
            simp [List.takeWhile_append_dropWhile]
        · split at done
          · cases done
            simp
          · cases done

theorem length_lt_of_read {c : Char} {cs rest : List Char} {token : Token}
    (done : read c cs = .ok (token, rest)) : rest.length < (c :: cs).length := by
  obtain ⟨all, some⟩ := read_eq done
  rw [← all, List.length_append]
  have := List.length_pos_iff.2 some
  omega

/-! ### The whole text -/

/-- The tokens of a text, or the first fault in it. -/
def tokens : List Char → Except Refusal (List Token)
  | [] => .ok []
  | c :: cs =>
    match done : read c cs with
    | .error refusal => .error refusal
    | .ok (token, rest) =>
      have : rest.length < cs.length + 1 := length_lt_of_read done
      match tokens rest with
      | .error refusal => .error refusal
      | .ok more => .ok (token :: more)
termination_by cs => cs.length
decreasing_by simp only [List.length_cons]; omega

/-- The texts of the tokens, joined together, are the source. -/
theorem tokens_eq {cs : List Char} {list : List Token} (done : tokens cs = .ok list) :
    list.flatMap Token.text = cs := by
  fun_induction tokens cs generalizing list with
  | case1 => simp_all
  | case2 => cases done
  | case3 => cases done
  | case4 c cs token rest step shorter more tail ih =>
    cases done
    simp [ih tail, (read_eq step).1]

end WidgetStyle.Sheet
