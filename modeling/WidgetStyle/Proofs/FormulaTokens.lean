import WidgetStyle.Formula.Token
import WidgetStyle.Proofs.Characters

/-!
# The tokens of a formula text

A text is spelled as a row of tokens when it consists of them, with blanks between them or not, and
no name goes on behind its end (`Spelled`). A text that has no other characters than blanks, those
of names and marks is spelled as exactly one row of tokens, and this is the row into which it is
cut.
-/

namespace WidgetStyle

namespace Formula

open Text (isBlank byteLength)

theorem isBlank_eq_false_of_isNameChar {c : Char} (hname : isNameChar c = true) :
    isBlank c = false := by
  by_contra hblank
  rw [Bool.not_eq_false] at hblank
  rw [isNameChar, Text.isAlphabetic_of_isBlank hblank, Text.isNumeric_of_isBlank hblank,
    Bool.false_or, Bool.false_or, beq_iff_eq] at hname
  subst hname
  exact absurd hblank (by decide)

theorem of_mark? {c : Char} {kind : TokenKind} (hmark : mark? c = some kind) :
    isBlank c = false ∧ isNameChar c = false := by
  have hc : c = '+' ∨ c = '|' ∨ c = '^' ∨ c = '!' ∨ c = '(' ∨ c = ')' := by
    unfold mark? at hmark
    split at hmark <;> simp_all
  rcases hc with rfl | rfl | rfl | rfl | rfl | rfl
  all_goals decide +kernel

/-- No two characters are read as one mark. -/
theorem eq_of_mark? {c d : Char} {kind : TokenKind} (hc : mark? c = some kind)
    (hd : mark? d = some kind) : c = d := by
  unfold mark? at hc hd
  split at hc <;> cases hc <;> split at hd <;> first | rfl | cases hd

def TokenKind.name? : TokenKind → Option String
  | .name word => some word
  | .operator _ | .negation | .openGroup | .closeGroup => none

theorem name?_of_mark? {c : Char} {kind : TokenKind} (hmark : mark? c = some kind) :
    kind.name? = none := by
  unfold mark? at hmark
  split at hmark <;> cases hmark <;> rfl

/-! ### Spelling -/

/-- The text consists of the tokens, and of blanks between them. A name is never empty and takes
all characters of names that stand together. -/
inductive Spelled : List Char → List TokenKind → Prop
  | nil : Spelled [] []
  | blank {c : Char} {cs : List Char} {kinds : List TokenKind} (hblank : isBlank c = true)
      (hrest : Spelled cs kinds) : Spelled (c :: cs) kinds
  | mark {c : Char} {cs : List Char} {kind : TokenKind} {kinds : List TokenKind}
      (hmark : mark? c = some kind) (hrest : Spelled cs kinds) : Spelled (c :: cs) (kind :: kinds)
  | name {word cs : List Char} {kinds : List TokenKind} (hsome : word ≠ [])
      (hword : ∀ c ∈ word, isNameChar c = true) (hends : ∀ c ∈ cs.head?, isNameChar c = false)
      (hrest : Spelled cs kinds) : Spelled (word ++ cs) (.name (String.ofList word) :: kinds)

/-- A blank, a character of a name or a mark. -/
def Known (c : Char) : Prop :=
  isBlank c = true ∨ isNameChar c = true ∨ (mark? c).isSome = true

theorem Spelled.known {cs : List Char} {kinds : List TokenKind} (hspelled : Spelled cs kinds) :
    ∀ c ∈ cs, Known c := by
  induction hspelled with
  | nil => simp
  | blank hblank hrest ih =>
    intro c hc
    rcases List.mem_cons.mp hc with rfl | hc
    · exact .inl hblank
    · exact ih c hc
  | mark hmark hrest ih =>
    intro c hc
    rcases List.mem_cons.mp hc with rfl | hc
    · exact .inr (.inr (by rw [hmark]; rfl))
    · exact ih c hc
  | name hsome hword hends hrest ih =>
    intro c hc
    rcases List.mem_append.mp hc with hc | hc
    · exact .inr (.inl (hword c hc))
    · exact ih c hc

/-- The row into which a text is cut is spelled by the text. -/
theorem spelled_of_tokensFrom {offset : Nat} {cs : List Char} {tokens : List Token}
    (hcut : tokensFrom offset cs = .ok tokens) : Spelled cs (tokens.map Token.kind) := by
  fun_induction tokensFrom offset cs generalizing tokens with
  | case1 offset =>
    cases hcut
    exact .nil
  | case2 offset c cs hblank ih => exact .blank hblank (ih hcut)
  | case3 => cases hcut
  | case4 offset c cs hblank kind hmark more hmore ih =>
    cases hcut
    exact .mark hmark (ih hmore)
  | case5 => cases hcut
  | case6 offset c cs hblank hmark hname hshorter more hmore ih =>
    cases hcut
    have hword : ∀ next ∈ c :: cs.takeWhile isNameChar, isNameChar next = true := by
      intro next hnext
      rcases List.mem_cons.mp hnext with rfl | hnext
      · exact hname
      · exact List.mem_takeWhile_imp hnext
    have hspelled := Spelled.name (List.cons_ne_nil c _) hword (head?_dropWhile_eq_false cs)
      (ih hmore)
    rwa [List.cons_append, List.takeWhile_append_dropWhile] at hspelled
  | case7 => cases hcut

/-- A text is cut into the row that it spells. -/
theorem Spelled.exists_tokensFrom {cs : List Char} {kinds : List TokenKind}
    (hspelled : Spelled cs kinds) (offset : Nat) :
    ∃ tokens, tokensFrom offset cs = .ok tokens ∧ tokens.map Token.kind = kinds := by
  induction hspelled generalizing offset with
  | nil => exact ⟨[], by rw [tokensFrom], rfl⟩
  | @blank c cs kinds hblank hrest ih =>
    obtain ⟨tokens, hcut, hkinds⟩ := ih (offset + c.utf8Size)
    exact ⟨tokens, by rw [tokensFrom, if_pos hblank, hcut], hkinds⟩
  | @mark c cs kind kinds hmark hrest ih =>
    obtain ⟨tokens, hcut, hkinds⟩ := ih (offset + c.utf8Size)
    refine ⟨⟨kind, offset⟩ :: tokens, ?_, by rw [List.map_cons, hkinds]⟩
    rw [tokensFrom, if_neg (by simp [(of_mark? hmark).1])]
    simp only [hmark, hcut]
  | @name word cs kinds hsome hword hends hrest ih =>
    obtain ⟨c, word, rfl⟩ := List.exists_cons_of_ne_nil hsome
    obtain ⟨hname, hword⟩ := List.forall_mem_cons.mp hword
    obtain ⟨htake, hdrop⟩ := takeWhile_append_of_stop hword hends
    obtain ⟨tokens, hcut, hkinds⟩ := ih (offset + byteLength (c :: word))
    have hmark : mark? c = none := by
      by_contra hsome
      obtain ⟨kind, hkind⟩ := Option.ne_none_iff_exists'.mp hsome
      rw [(of_mark? hkind).2] at hname
      cases hname
    refine ⟨⟨.name (String.ofList (c :: word)), offset⟩ :: tokens, ?_, by rw [List.map_cons, hkinds]⟩
    rw [List.cons_append, tokensFrom, if_neg (by simp [isBlank_eq_false_of_isNameChar hname])]
    simp only [hmark, if_pos hname, htake, hdrop, hcut]

theorem Spelled.unique {cs : List Char} {kinds kinds' : List TokenKind}
    (hspelled : Spelled cs kinds) (hother : Spelled cs kinds') : kinds = kinds' := by
  obtain ⟨tokens, hcut, rfl⟩ := hspelled.exists_tokensFrom 0
  obtain ⟨tokens', hcut', rfl⟩ := hother.exists_tokensFrom 0
  rw [Except.ok.inj (hcut.symm.trans hcut')]

/-- A text is refused for a character that is in no token. -/
theorem not_known_of_tokensFrom {offset : Nat} {cs : List Char} {e : FaultAt}
    (hcut : tokensFrom offset cs = .error e) : ∃ c ∈ cs, ¬ Known c := by
  fun_induction tokensFrom offset cs generalizing e with
  | case1 => cases hcut
  | case2 offset c cs hblank ih =>
    obtain ⟨next, hnext, hknown⟩ := ih hcut
    exact ⟨next, List.mem_cons_of_mem _ hnext, hknown⟩
  | case3 offset c cs hblank kind hmark e' hmore ih =>
    obtain ⟨next, hnext, hknown⟩ := ih hmore
    exact ⟨next, List.mem_cons_of_mem _ hnext, hknown⟩
  | case4 => cases hcut
  | case5 offset c cs hblank hmark hname hshorter e' hmore ih =>
    obtain ⟨next, hnext, hknown⟩ := ih hmore
    exact ⟨next, List.mem_cons_of_mem _ ((List.dropWhile_sublist _).subset hnext), hknown⟩
  | case6 => cases hcut
  | case7 offset c cs hblank hmark hname =>
    refine ⟨c, List.mem_cons_self, ?_⟩
    simp [Known, hblank, hmark, hname]

/-- **A text is spelled as tokens exactly if all of its characters are known.** -/
theorem exists_spelled_iff (cs : List Char) :
    (∃ kinds, Spelled cs kinds) ↔ ∀ c ∈ cs, Known c := by
  constructor
  · rintro ⟨kinds, hspelled⟩
    exact hspelled.known
  · intro hknown
    cases hcut : tokensFrom 0 cs with
    | error e =>
      obtain ⟨c, hc, hunknown⟩ := not_known_of_tokensFrom hcut
      exact absurd (hknown c hc) hunknown
    | ok tokens => exact ⟨_, spelled_of_tokensFrom hcut⟩

end Formula

end WidgetStyle
