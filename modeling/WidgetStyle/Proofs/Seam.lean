import WidgetStyle.Proofs.Lookahead
import WidgetStyle.Sheet.Written

/-!
# Tokens of two texts put together

Where a text ends in a brace, a semicolon or in blanks, no token of it reaches into a text behind
it, except that blanks on both sides of the seam become one token (`join`). So the tokens of the two
together are those of the one and then those of the other, and a fault in the second text is the
fault of the two together, at the same place from the end. The other way round, a text can be cut
behind each such token: the tokens of the two parts are those that were there before.
-/

namespace WidgetStyle.Sheet

open Number (Digit)
open Text (isBlank)

/-! ### Rows of tokens -/

theorem tokens_of_reads {c : Char} {cs rest : List Char} {token : Token}
    (hread : Reads c cs token rest) : tokens (c :: cs) = (tokens rest).map (token :: ·) := by
  rw [tokens]
  split
  · next hrefused => simp [read_eq_ok_iff.mpr hread] at hrefused
  · next hdone =>
    cases hdone.symm.trans (read_eq_ok_iff.mpr hread)
    cases tokens rest <;> rfl

theorem tokens_of_read_eq_error {c : Char} {cs : List Char} {refusal : Refusal}
    (hread : read c cs = .error refusal) : tokens (c :: cs) = .error refusal := by
  rw [tokens]
  split
  · next hrefused =>
    cases hrefused.symm.trans hread
    rfl
  · next hdone => simp [hread] at hdone

/-- The last token, if there is one, is blank, a brace or a semicolon. -/
def Closed (list : List Token) : Prop :=
  ∀ token ∈ list.getLast?, token.kind = .blank ∨ endsValue token = true

/-- Two rows of tokens one behind the other, with the blanks at the seam made one. -/
def join : List Token → List Token → List Token
  | [], back => back
  | [⟨.blank, text⟩], ⟨.blank, text'⟩ :: back => ⟨.blank, text ++ text'⟩ :: back
  | token :: front, back => token :: join front back

theorem join_cons {front : List Token} (token : Token) (back : List Token) (hsome : front ≠ []) :
    join (token :: front) back = token :: join front back := by
  cases front with
  | nil => exact absurd rfl hsome
  | cons next front => rw [join]; simp

theorem join_singleton {token : Token} {back : List Token}
    (hspaced : token.kind = .blank → ∀ next ∈ back.head?, next.kind ≠ .blank) :
    join [token] back = token :: back := by
  rw [join]
  · rfl
  · rintro text text' back rfl rfl -
    exact hspaced rfl _ rfl rfl

theorem read_of_opensBlank {c : Char} {cs : List Char} (hopens : opensBlank (c :: cs) = true) :
    read c cs = (readBlanks none (c :: cs)).map fun found => (⟨.blank, found.1⟩, found.2) := by
  rw [opensBlank_cons] at hopens
  rw [read, if_pos hopens]
  cases readBlanks none (c :: cs) <;> rfl

/-- A blank text is one token, and blanks behind it belong to that token. -/
theorem tokens_blank_append {c : Char} {cs text : List Char} (more : List Char)
    (hopens : opensBlank (c :: cs) = true) (hblanks : readBlanks none (c :: cs) = .ok (text, [])) :
    tokens (c :: (cs ++ more)) = (tokens more).map (join [⟨.blank, text⟩]) := by
  have hopens' : opensBlank (c :: (cs ++ more)) = true := by
    cases cs with
    | nil =>
      have hc : isBlank c = true := by simpa [opensBlank] using hopens
      rw [opensBlank_cons, hc, Bool.true_or]
    | cons next cs => exact hopens
  have hgoes : readBlanks none (c :: (cs ++ more)) =
      (readBlanks none more).map fun found => (text ++ found.1, found.2) :=
    readBlanks_append more hblanks
  by_cases hmore : opensBlank more = true
  · -- the run goes on into the second text
    cases more with
    | nil => cases hmore
    | cons d ds =>
      have hread := read_of_opensBlank hmore
      have hread' := read_of_opensBlank hopens'
      cases hrun : readBlanks none (d :: ds) with
      | error refusal =>
        rw [hrun] at hgoes hread
        rw [hgoes] at hread'
        rw [tokens_of_read_eq_error hread, tokens_of_read_eq_error hread']
        rfl
      | ok found =>
        rw [hrun] at hgoes
        rw [tokens_of_reads (.blank hmore hrun), tokens_of_reads (.blank hopens' hgoes)]
        cases tokens found.2 <;> rfl
  · -- the run ends at the seam
    rw [Bool.not_eq_true] at hmore
    rw [readBlanks_of_opensBlank hmore] at hgoes
    rw [tokens_of_reads (.blank hopens' hgoes), List.append_nil]
    cases hcut : tokens more with
    | error refusal => rfl
    | ok list =>
      change Except.ok _ = Except.ok _
      rw [join_singleton]
      rintro - next hnext hblank
      obtain ⟨back, rfl⟩ := List.head?_eq_some_iff.mp hnext
      rw [(kind_head_tokens hcut).mp hblank] at hmore
      cases hmore

theorem reads_mark {c : Char} {kind : TokenKind} {text : List Char} (hmark : mark? c = some kind)
    (hstop : endsValue ⟨kind, text⟩ = true) (cs : List Char) : Reads c cs ⟨kind, [c]⟩ cs := by
  have hc : c = ';' ∨ c = '\x7b' ∨ c = '\x7d' := by
    unfold mark? at hmark
    split at hmark <;> cases hmark <;> simp_all [endsValue]
  rcases hc with rfl | rfl | rfl
  all_goals exact .mark rfl rfl rfl (by decide) hmark

/-- Braces and semicolons are read the same wherever they stand. -/
theorem Reads.of_endsValue {c : Char} {cs rest : List Char} {token : Token}
    (hread : Reads c cs token rest) (hstop : endsValue token = true) :
    rest = cs ∧ ∀ more, Reads c more token more := by
  cases hread with
  | blank hopens hblanks => cases hstop
  | number hopens hstarts hnumber =>
    simp only [readNumber] at hnumber
    split at hnumber
    · cases hnumber
    · cases hnumber
      cases hstop
  | word hopens hnumber hstarts => cases hstop
  | hash hopens hnumber hword hc hname => cases hstop
  | mark hopens hnumber hword hc hmark => exact ⟨rfl, reads_mark hmark hstop⟩

theorem eq_nil_of_tokens {cs : List Char} (hcut : tokens cs = .ok []) : cs = [] :=
  (tokens_eq hcut).symm

theorem ne_blank_of_endsValue {token : Token} (hstop : endsValue token = true) :
    token.kind ≠ .blank := by
  intro hblank
  simp [endsValue, hblank] at hstop

/-- A blank, a brace or a semicolon at the end of a text does not take more than blanks from the
text behind it. -/
theorem tokens_last_append {c : Char} {cs : List Char} {token : Token} (more : List Char)
    (hreads : Reads c cs token []) (hkind : token.kind = .blank ∨ endsValue token = true) :
    tokens (c :: (cs ++ more)) = (tokens more).map (join [token]) := by
  rcases hkind with hkind | hstop
  · obtain ⟨kind, text⟩ := token
    have hopens := hreads.kind_eq_blank_iff.mp hkind
    obtain rfl : kind = .blank := hkind
    exact tokens_blank_append more hopens (hreads.readBlanks_eq rfl)
  · obtain ⟨rfl, hanywhere⟩ := hreads.of_endsValue hstop
    rw [List.nil_append, tokens_of_reads (hanywhere more)]
    cases tokens more with
    | error refusal => rfl
    | ok list =>
      change Except.ok _ = Except.ok _
      rw [join_singleton]
      exact fun hblank => absurd hblank (ne_blank_of_endsValue hstop)

/-- A text that ends as `Closed` says is more than a point or a slash. -/
theorem ne_mark_of_closed {cs : List Char} {next : Token} {back : List Token}
    (hcut : tokens cs = .ok (next :: back)) (hclosed : Closed (next :: back)) :
    cs ≠ [] ∧ cs ≠ ['.'] ∧ cs ≠ ['/'] := by
  refine ⟨?_, ?_, ?_⟩
  · rintro rfl
    simp [tokens] at hcut
  · rintro rfl
    have hdot : tokens ['.'] = .ok [⟨.dot, ['.']⟩] := by decide +kernel
    cases hdot.symm.trans hcut
    rcases hclosed _ rfl with hkind | hkind <;> cases hkind
  · rintro rfl
    have hrefused : tokens ['/'] = .error ⟨.unexpectedCharacter '/', 1⟩ := by decide +kernel
    cases hrefused.symm.trans hcut

/-- **Putting two texts together puts their tokens together**, if the first one ends in blanks, a
brace or a semicolon. What is wrong with the second text is then wrong with the two together. -/
theorem tokens_append {cs : List Char} {list : List Token} (hcut : tokens cs = .ok list)
    (hclosed : Closed list) (more : List Char) :
    tokens (cs ++ more) = (tokens more).map (join list) := by
  fun_induction tokens cs generalizing list with
  | case1 =>
    cases hcut
    rw [List.nil_append]
    cases tokens more <;> rfl
  | case2 => cases hcut
  | case3 => cases hcut
  | case4 c cs token rest hread hshorter back htail ih =>
    cases hcut
    have hreads := read_eq_ok_iff.mp hread
    cases back with
    | nil =>
      obtain rfl := eq_nil_of_tokens htail
      exact tokens_last_append more hreads (hclosed token rfl)
    | cons next back =>
      have hclosed' : Closed (next :: back) := by
        intro last hlast
        exact hclosed last (by rwa [List.getLast?_cons_cons])
      obtain ⟨hrest, hpoint, hslash⟩ := ne_mark_of_closed htail hclosed'
      rw [List.cons_append, tokens_of_reads (hreads.append more hrest hpoint hslash),
        ih htail hclosed']
      cases tokens more with
      | error refusal => rfl
      | ok list =>
        change Except.ok _ = Except.ok _
        rw [join_cons _ _ (List.cons_ne_nil _ _)]

/-! ### Texts taken apart -/

/-- What stands behind some tokens of a text has the other tokens. -/
theorem tokens_of_append_right {cs : List Char} {front back : List Token}
    (hcut : tokens cs = .ok (front ++ back)) : tokens (back.flatMap Token.text) = .ok back := by
  generalize hlist : front ++ back = list at hcut
  fun_induction tokens cs generalizing front list with
  | case1 =>
    cases hcut
    obtain ⟨-, rfl⟩ := List.append_eq_nil_iff.mp hlist
    rw [List.flatMap_nil, tokens]
  | case2 => cases hcut
  | case3 => cases hcut
  | case4 c cs token rest hread hshorter more htail ih =>
    cases hcut
    cases front with
    | nil =>
      obtain rfl : back = token :: more := hlist
      have hall : tokens (c :: cs) = .ok (token :: more) := by
        rw [tokens_of_reads (read_eq_ok_iff.mp hread), htail]
        rfl
      rwa [tokens_eq hall]
    | cons first front => exact ih _ (List.cons.inj hlist).2 htail

/-- A blank, a brace or a semicolon is read without what is behind it. -/
theorem Reads.tokens_text {c : Char} {cs rest : List Char} {token : Token}
    (hread : Reads c cs token rest) (hkind : token.kind = .blank ∨ endsValue token = true) :
    tokens token.text = .ok [token] := by
  obtain ⟨text, hcons, hcs⟩ := hread.exists_text_eq_cons
  have halone : Reads c text token [] := by
    rcases hkind with hblank | hstop
    · have hrun : readBlanks none (token.text ++ []) = .ok (token.text, []) :=
        readBlanks_of_stop (hread.readBlanks_eq hblank) rfl none rfl
      rw [hcons, List.append_nil] at hrun
      have hopens : opensBlank (c :: text) = true := by
        by_contra hopens
        rw [readBlanks_of_opensBlank (by simpa using hopens)] at hrun
        cases hrun
      have htoken : token = ⟨.blank, c :: text⟩ := by
        rw [← hcons, ← hblank]
      rw [htoken]
      exact .blank hopens hrun
    · obtain ⟨rfl, hanywhere⟩ := hread.of_endsValue hstop
      obtain rfl : text = [] := List.self_eq_append_left.mp hcs.symm
      exact hanywhere []
  rw [hcons, tokens_of_reads halone, tokens]
  rfl

/-- Some tokens of a text are those of what they stand for, if they end as `Closed` says. -/
theorem tokens_of_append_left {cs : List Char} {front back : List Token}
    (hcut : tokens cs = .ok (front ++ back)) (hclosed : Closed front) :
    tokens (front.flatMap Token.text) = .ok front := by
  generalize hlist : front ++ back = list at hcut
  fun_induction tokens cs generalizing front list with
  | case1 =>
    cases hcut
    obtain ⟨rfl, -⟩ := List.append_eq_nil_iff.mp hlist
    rw [List.flatMap_nil, tokens]
  | case2 => cases hcut
  | case3 => cases hcut
  | case4 c cs token rest hread hshorter more htail ih =>
    cases hcut
    have hreads := read_eq_ok_iff.mp hread
    cases front with
    | nil => rw [List.flatMap_nil, tokens]
    | cons first front =>
      obtain ⟨rfl, hmore⟩ := List.cons.inj hlist
      cases front with
      | nil =>
        rw [List.flatMap_singleton]
        exact hreads.tokens_text (hclosed first rfl)
      | cons next front =>
        have hclosed' : Closed (next :: front) := by
          intro last hlast
          exact hclosed last (by rwa [List.getLast?_cons_cons])
        have hfront := ih hclosed' _ hmore htail
        obtain ⟨hrest, hpoint, hslash⟩ := ne_mark_of_closed hfront hclosed'
        have hsame := (SameStart.append (back.flatMap Token.text) hrest
          (fun hrest => absurd hrest hpoint) hslash).symm
        rw [← List.flatMap_append, show next :: front ++ back = more from hmore,
          tokens_eq htail] at hsame
        obtain ⟨text, hcons, -⟩ := hreads.exists_text_eq_cons
        have hreads' := hreads.of_sameStart hsame (by rw [hcons, List.cons_append])
        rw [List.flatMap_cons, hcons, List.cons_append, tokens_of_reads hreads', hfront]
        rfl

end WidgetStyle.Sheet
