import WidgetStyle.Proofs.Seam

/-!
# One space for each run of blanks

In a stylesheet a run of blanks and comments is worth a single space (`collapse`). A scan of the
text finds the runs without cutting it into tokens: no token but a blank one has a blank or a slash
in it (`Reads.plain`), and a blank token is a whole run. So the scan turns each blank token into a
space and leaves all others alone (`collapseFrom_row`). What is cut from the new text are these
tokens again, since before and behind each of them nothing has changed that a token looks at
(`tokens_collapse`).
-/

namespace WidgetStyle.Sheet

open Text (isBlank)

/-! ### The scan -/

/-- Where a scan of a text stands. -/
inductive Place where
  | outside
  | blanks
  | comment

/-- A text with a single space for each run of blanks and comments in it, from a place in the text
onwards. The space of a run is written where the run begins. -/
def collapseFrom : Place → List Char → List Char
  | .outside, '/' :: '*' :: cs => ' ' :: collapseFrom .comment cs
  | .outside, c :: cs =>
    if isBlank c then ' ' :: collapseFrom .blanks cs else c :: collapseFrom .outside cs
  | .outside, [] => []
  | .blanks, '/' :: '*' :: cs => collapseFrom .comment cs
  | .blanks, c :: cs =>
    if isBlank c then collapseFrom .blanks cs else c :: collapseFrom .outside cs
  | .blanks, [] => []
  | .comment, '*' :: '/' :: cs => collapseFrom .blanks cs
  | .comment, _ :: cs => collapseFrom .comment cs
  | .comment, [] => []

/-- The text with a single space for each run of blanks and comments. -/
def collapse (source : String) : String :=
  String.ofList (collapseFrom .outside source.toList)

example : collapse "/**/ a/* b **/ *\t/ c" = " a * / c" := by decide

theorem collapseFrom_plain {c : Char} (hc : Plain c) (cs : List Char) :
    collapseFrom .outside (c :: cs) = c :: collapseFrom .outside cs := by
  rw [collapseFrom]
  · rw [if_neg (by simp [hc.1])]
  · rintro cs' rfl -
    exact hc.2 rfl

theorem collapseFrom_append {front : List Char} (hplain : ∀ c ∈ front, Plain c)
    (rest : List Char) :
    collapseFrom .outside (front ++ rest) = front ++ collapseFrom .outside rest := by
  induction front with
  | nil => rfl
  | cons c front ih =>
    obtain ⟨hc, hfront⟩ := List.forall_mem_cons.mp hplain
    rw [List.cons_append, collapseFrom_plain hc, ih hfront, List.cons_append]

/-- Where no blank and no comment stands the scan of a run goes on outside of it. -/
theorem collapseFrom_blanks_of_stop {cs : List Char} (hopens : opensBlank cs = false) :
    collapseFrom .blanks cs = collapseFrom .outside cs := by
  cases cs with
  | nil => rfl
  | cons c cs =>
    rw [opensBlank_cons, Bool.or_eq_false_iff] at hopens
    obtain ⟨hblank, hcomment⟩ := hopens
    have hcomment' : ∀ cs', c = '/' → cs = '*' :: cs' → False := by
      rintro cs' rfl rfl
      simp at hcomment
    rw [collapseFrom, collapseFrom, hblank]
    · rfl
    · exact hcomment'
    · exact hcomment'

theorem collapseFrom_of_opensBlank {cs : List Char} (hopens : opensBlank cs = true) :
    collapseFrom .outside cs = ' ' :: collapseFrom .blanks cs := by
  cases cs with
  | nil => cases hopens
  | cons c cs =>
    rw [opensBlank_cons, Bool.or_eq_true] at hopens
    by_cases hcomment : c = '/' ∧ cs.head? = some '*'
    · obtain ⟨rfl, hstar⟩ := hcomment
      obtain ⟨cs, rfl⟩ := List.head?_eq_some_iff.mp hstar
      rw [collapseFrom, collapseFrom]
    · have hblank : isBlank c = true := by simpa [hcomment] using hopens
      have hcomment' : ∀ cs', c = '/' → cs = '*' :: cs' → False := by
        rintro cs' rfl rfl
        exact hcomment ⟨rfl, rfl⟩
      rw [collapseFrom, collapseFrom, if_pos hblank, if_pos hblank]
      · exact hcomment'
      · exact hcomment'

/-- The scan passes a run as it is read. -/
theorem collapseFrom_of_readBlanks {comment : Option Nat} {cs text rest : List Char}
    (hread : readBlanks comment cs = .ok (text, rest)) :
    collapseFrom (if comment.isSome then .comment else .blanks) cs =
      collapseFrom .outside rest := by
  have hstop := opensBlank_of_readBlanks hread
  fun_induction readBlanks comment cs generalizing text rest with
  | case1 cs text' rest' hread' ih =>
    cases hread
    exact ih hread' hstop
  | case2 => cases hread
  | case3 c cs hcomment hblank text' rest' hread' ih =>
    cases hread
    rw [if_neg (by simp), collapseFrom, if_pos hblank]
    · exact ih hread' hstop
    · exact hcomment
  | case4 => cases hread
  | case5 c cs hcomment hblank =>
    cases hread
    exact collapseFrom_blanks_of_stop hstop
  | case6 =>
    cases hread
    rfl
  | case7 opening cs text' rest' hread' ih =>
    cases hread
    exact ih hread' hstop
  | case8 => cases hread
  | case9 opening c cs hclosing text' rest' hread' ih =>
    cases hread
    rw [if_pos Option.isSome_some, collapseFrom]
    · exact ih hread' hstop
    · exact hclosing
  | case10 => cases hread
  | case11 => cases hread

/-! ### Rows of tokens -/

/-- What a token of a text is made of: a blank one of a run that ends where neither a blank nor a
comment follows, and any other of plain characters. -/
structure Token.Whole (token : Token) : Prop where
  text_ne_nil : token.text ≠ []
  plain : token.kind ≠ .blank → ∀ c ∈ token.text, Plain c
  run : token.kind = .blank → ∀ rest, opensBlank rest = false →
    readBlanks none (token.text ++ rest) = .ok (token.text, rest)

theorem Reads.whole {c : Char} {cs rest : List Char} {token : Token}
    (hread : Reads c cs token rest) : token.Whole where
  text_ne_nil := (read_eq (read_eq_ok_iff.mpr hread)).2
  plain := hread.plain
  run hkind _ hstop := readBlanks_of_stop (hread.readBlanks_eq hkind) hstop none rfl

theorem whole_of_mem_tokens {cs : List Char} {list : List Token} (hcut : tokens cs = .ok list) :
    ∀ token ∈ list, token.Whole :=
  forall_mem_tokens (fun _ _ _ _ hread => hread.whole) hcut

/-- The token with a single space for its text, if it is blank. -/
def Token.squeezed (token : Token) : Token :=
  ⟨token.kind, if token.kind = .blank then [' '] else token.text⟩

theorem Token.squeezed_of_ne_blank {token : Token} (hkind : token.kind ≠ .blank) :
    token.squeezed = token := by
  rw [squeezed, if_neg hkind]

theorem Token.squeezed_of_blank {token : Token} (hkind : token.kind = .blank) :
    token.squeezed = ⟨.blank, [' ']⟩ := by
  rw [squeezed, if_pos hkind, hkind]

/-- Neither a blank nor a comment stands at the front of a row that begins with another token. -/
theorem opensBlank_row {list : List Token} (hwhole : ∀ token ∈ list, token.Whole)
    (hhead : ∀ token ∈ list.head?, token.kind ≠ .blank) :
    opensBlank (list.flatMap Token.text) = false := by
  cases list with
  | nil => rfl
  | cons token list =>
    have htoken := hwhole token List.mem_cons_self
    obtain ⟨c, text, hcons⟩ := List.exists_cons_of_ne_nil htoken.text_ne_nil
    have hc := htoken.plain (hhead token rfl) c (hcons ▸ List.mem_cons_self)
    rw [List.flatMap_cons, hcons, List.cons_append, opensBlank_cons, hc.1, beq_false_of_ne hc.2]
    rfl

/-- The scan of a spaced row turns its blank tokens into spaces. -/
theorem collapseFrom_row {list : List Token} (hspaced : Spaced list)
    (hwhole : ∀ token ∈ list, token.Whole) :
    collapseFrom .outside (list.flatMap Token.text) =
      (list.map Token.squeezed).flatMap Token.text := by
  induction list with
  | nil => rfl
  | cons token list ih =>
    obtain ⟨htoken, hlist⟩ := List.forall_mem_cons.mp hwhole
    have hrest := ih (List.IsChain.tail hspaced) hlist
    rw [List.flatMap_cons, List.map_cons, List.flatMap_cons, ← hrest]
    by_cases hkind : token.kind = .blank
    · have hstop : opensBlank (list.flatMap Token.text) = false := by
        refine opensBlank_row hlist ?_
        intro next hnext hblank
        obtain ⟨more, rfl⟩ := List.head?_eq_some_iff.mp hnext
        exact hspaced.rel ⟨hkind, hblank⟩
      have hrun := htoken.run hkind _ hstop
      have hopens : opensBlank (token.text ++ list.flatMap Token.text) = true := by
        by_contra hopens
        rw [readBlanks_of_opensBlank (by simpa using hopens)] at hrun
        obtain ⟨hnil, -⟩ := Prod.mk.inj (Except.ok.inj hrun)
        exact htoken.text_ne_nil hnil.symm
      rw [collapseFrom_of_opensBlank hopens, Token.squeezed_of_blank hkind]
      exact congrArg _ (collapseFrom_of_readBlanks hrun)
    · rw [collapseFrom_append (htoken.plain hkind), Token.squeezed_of_ne_blank hkind]

/-! ### Tokens of the new text -/

theorem startsNumber_point (cs : List Char) :
    startsNumber '.' cs = cs.head?.any Number.isDigit := by
  cases cs with
  | nil => rfl
  | cons c cs => exact Bool.or_false _

/-- A point is the start of a number exactly if a digit follows it. -/
theorem number_head_tokens {cs : List Char} {token : Token} {more : List Token}
    (hcut : tokens ('.' :: cs) = .ok (token :: more)) :
    cs.head?.any Number.isDigit = true ↔ ∃ amount suffix, token.kind = .number amount suffix := by
  obtain ⟨rest, hread, -⟩ := exists_reads_of_tokens hcut
  rw [← startsNumber_point]
  cases hread with
  | blank hopens hblanks => cases hopens
  | number hopens hstarts hnumber => simp [hstarts, exists_number_of_readNumber hnumber]
  | word hopens hnumber hstarts => simp [hnumber]
  | hash hopens hnumber hword hc hname => simp [hnumber]
  | mark hopens hnumber hword hc hmark =>
    cases hmark
    simp [hnumber]

/-- A text and the one with its blank tokens as spaces start alike. -/
theorem sameStart_of_squeezed {cs cs' : List Char} {list : List Token} (hcut : tokens cs = .ok list)
    (hcut' : tokens cs' = .ok (list.map Token.squeezed)) : SameStart cs cs' := by
  cases list with
  | nil =>
    rw [eq_nil_of_tokens hcut, eq_nil_of_tokens hcut']
    exact ⟨rfl, fun _ => rfl, fun _ => rfl⟩
  | cons token more =>
    have hopens : opensBlank cs = opensBlank cs' := by
      rw [Bool.eq_iff_iff, ← kind_head_tokens hcut, ← kind_head_tokens hcut']
      rfl
    have hhead : opensBlank cs = false → cs.head? = cs'.head? := by
      intro hstop
      have hkind : token.kind ≠ .blank := by
        rw [ne_eq, kind_head_tokens hcut, hstop]
        exact Bool.false_ne_true
      have hsome := (whole_of_mem_tokens hcut token List.mem_cons_self).text_ne_nil
      rw [← tokens_eq hcut, ← tokens_eq hcut', List.map_cons, Token.squeezed_of_ne_blank hkind,
        List.flatMap_cons, List.flatMap_cons, List.head?_append_of_ne_nil _ hsome,
        List.head?_append_of_ne_nil _ hsome]
    refine ⟨hopens, hhead, ?_⟩
    intro hpoint
    have hstop : opensBlank cs = false := by
      obtain ⟨rest, rfl⟩ := List.head?_eq_some_iff.mp hpoint
      rfl
    have hpoint' := (hhead hstop).symm.trans hpoint
    obtain ⟨rest, rfl⟩ := List.head?_eq_some_iff.mp hpoint
    obtain ⟨rest', rfl⟩ := List.head?_eq_some_iff.mp hpoint'
    rw [List.tail_cons, List.tail_cons, Bool.eq_iff_iff, number_head_tokens hcut,
      number_head_tokens hcut']
    rfl

/-- What is cut from a row with its blank tokens as spaces is this row. -/
theorem tokens_squeezed {cs : List Char} {list : List Token} (hcut : tokens cs = .ok list) :
    tokens ((list.map Token.squeezed).flatMap Token.text) = .ok (list.map Token.squeezed) := by
  fun_induction tokens cs generalizing list with
  | case1 =>
    cases hcut
    rw [List.map_nil, List.flatMap_nil, tokens]
  | case2 => cases hcut
  | case3 => cases hcut
  | case4 c cs token rest hread hshorter more htail ih =>
    cases hcut
    have hreads := read_eq_ok_iff.mp hread
    have hsame := sameStart_of_squeezed htail (ih htail)
    obtain ⟨c', cs', htext, hreads'⟩ : ∃ c' cs',
        token.squeezed.text ++ (more.map Token.squeezed).flatMap Token.text = c' :: cs' ∧
        Reads c' cs' token.squeezed ((more.map Token.squeezed).flatMap Token.text) := by
      by_cases hkind : token.kind = .blank
      · have hstop := hreads.opensBlank_rest hkind
        rw [hsame.opens] at hstop
        rw [Token.squeezed_of_blank hkind]
        exact ⟨' ', _, rfl, reads_space hstop⟩
      · rw [Token.squeezed_of_ne_blank hkind]
        obtain ⟨text, hcons, -⟩ := hreads.exists_text_eq_cons
        refine ⟨c, _, by rw [hcons, List.cons_append], ?_⟩
        exact hreads.of_sameStart hsame (by rw [hcons, List.cons_append])
    rw [List.map_cons, List.flatMap_cons, htext, tokens_of_reads hreads', ih htail]
    rfl

theorem toList_collapse {source : String} {list : List Token}
    (hcut : tokens source.toList = .ok list) :
    (collapse source).toList = (list.map Token.squeezed).flatMap Token.text := by
  have hrow := collapseFrom_row (spaced_tokens hcut) (whole_of_mem_tokens hcut)
  rw [tokens_eq hcut] at hrow
  rw [collapse, String.toList_ofList, hrow]

/-- **The tokens of a collapsed text** are those of the text, each blank one with a single space. -/
theorem tokens_collapse {source : String} {list : List Token}
    (hcut : tokens source.toList = .ok list) :
    tokens (collapse source).toList = .ok (list.map Token.squeezed) := by
  rw [toList_collapse hcut]
  exact tokens_squeezed hcut

/-- A collapsed text has nothing more to collapse. -/
theorem collapse_collapse {source : String} {list : List Token}
    (hcut : tokens source.toList = .ok list) : collapse (collapse source) = collapse source := by
  have htwice (token : Token) : token.squeezed.squeezed = token.squeezed := by
    by_cases hkind : token.kind = .blank
    · rw [Token.squeezed_of_blank hkind]
      rfl
    · rw [Token.squeezed_of_ne_blank hkind, Token.squeezed_of_ne_blank hkind]
  apply String.toList_inj.mp
  rw [toList_collapse (tokens_collapse hcut), toList_collapse hcut, List.map_map]
  simp only [Function.comp_def, htwice]

end WidgetStyle.Sheet
