import WidgetStyle.Proofs.Fronts
import WidgetStyle.Proofs.Parsed
import WidgetStyle.Proofs.Scan

/-!
# The spans of the tokens tile the source

A scan leaves no part of the source out and gives none to two tokens (`Tiles`). What holds of a
single lexeme is read off the token that stands in its span (`Lexeme.Stands`): where it ends, and
which slices of the source it carries. What holds of two in a row is the chain of their offsets, and
that no two tokens in a row are blank.

A source that is not scanned to its end is refused at a place between two characters, and the text
before that place is scanned on its own (`scan_tiles_or_refuses`).
-/

namespace WidgetStyle

namespace Text

/-- A character starts at the offset, or the source ends there. -/
def IsBoundary (source : List Char) (offset : Nat) : Prop :=
  ∃ front back, source = front ++ back ∧ byteLength front = offset

/-- Between two boundaries there is a slice. -/
theorem IsBoundary.exists_slice {source : List Char} {start stop : Nat}
    (hstart : IsBoundary source start) (hstop : IsBoundary source stop) (hle : start ≤ stop) :
    ∃ text, slice? source start stop = some text := by
  obtain ⟨front, behind, rfl, rfl⟩ := hstart
  obtain ⟨front', back, hsplit, rfl⟩ := hstop
  rcases List.append_eq_append_iff.mp hsplit with ⟨text, rfl, rfl⟩ | ⟨text, rfl, rfl⟩
  · exact ⟨text, slice?_eq_some_iff.mpr ⟨front, back, rfl, rfl, rfl⟩⟩
  · -- the second boundary is not before the first one, so they are the same
    have hnil : text = [] := by
      by_contra hsome
      have hpos := byteLength_pos hsome
      rw [byteLength_append] at hle
      omega
    subst hnil
    refine ⟨[], slice?_eq_some_iff.mpr ⟨front', behind, ?_, ?_, ?_⟩⟩
    · rw [List.append_nil, List.nil_append]
    · rw [List.append_nil]
    · rw [List.append_nil]

end Text

namespace Sheet

open Number (Numeral)
open Text (IsBoundary Position byteLength byteLength_append byteLength_pos slice?
  slice?_eq_some_iff)

/-! ### Single lexemes -/

namespace Lexeme

/-- A name or the name behind a hash does not go on behind its span. -/
def NameEnds (source : List Char) (lexeme : Lexeme) : Prop :=
  (∃ name, lexeme.kind = some (.word name) ∨ lexeme.kind = some (.hash name)) →
    ∀ front c back, source = front ++ c :: back → byteLength front = lexeme.stop →
      isNameChar c = false

/-- What a lexeme carries are slices of its span: a word all of it, a hash what follows its first
character, and a number a numeral and behind it, up to the end, the suffix. -/
def Carries (source : List Char) (lexeme : Lexeme) : Prop :=
  match lexeme.kind with
  | some (.word name) => slice? source lexeme.start lexeme.stop = some name.toList
  | some (.hash name) => slice? source (lexeme.start + 1) lexeme.stop = some name.toList
  | some (.number amount suffix) => ∃ (numeral : Numeral) (middle : Nat),
      numeral.IsDecimal ∧ amount = numeral.toSingle ∧
      suffix.toList.head?.all startsSuffix = true ∧
      slice? source lexeme.start middle = some numeral.text ∧
      slice? source middle lexeme.stop = some suffix.toList
  | _ => True

/-- The lexeme of a token that is read somewhere in the source. -/
def Stands (source : List Char) (lexeme : Lexeme) : Prop :=
  ∃ front c cs token rest, source = front ++ c :: cs ∧ Reads c cs token rest ∧
    lexeme = ⟨some token.kind, byteLength front, byteLength (front ++ token.text)⟩

variable {source : List Char} {lexeme : Lexeme}

theorem Stands.start_lt_stop (hstands : lexeme.Stands source) : lexeme.start < lexeme.stop := by
  obtain ⟨front, c, cs, token, rest, -, hread, rfl⟩ := hstands
  have hpos := byteLength_pos (read_eq (read_eq_ok_iff.mpr hread)).2
  simp only [byteLength_append]
  omega

theorem Stands.isBoundary (hstands : lexeme.Stands source) :
    IsBoundary source lexeme.start ∧ IsBoundary source lexeme.stop := by
  obtain ⟨front, c, cs, token, rest, rfl, hread, rfl⟩ := hstands
  refine ⟨⟨front, c :: cs, rfl, rfl⟩, front ++ token.text, rest, ?_, rfl⟩
  rw [List.append_assoc, (read_eq (read_eq_ok_iff.mpr hread)).1]

theorem Stands.nameEnds (hstands : lexeme.Stands source) : lexeme.NameEnds source := by
  obtain ⟨front, c, cs, token, rest, rfl, hread, rfl⟩ := hstands
  rintro ⟨name, hname⟩ front' c' back hsource hstop
  -- what stands behind the token is what is left of the text where its name was taken off
  have hrest : ∃ text : List Char, rest = text.dropWhile isNameChar := by
    rcases hname with hword | hhash
    · obtain ⟨-, -, -, hrest, -⟩ := hread.word_inv (Option.some.inj hword)
      exact ⟨_, hrest⟩
    · obtain ⟨-, -, hrest, -⟩ := hread.hash_inv (Option.some.inj hhash)
      exact ⟨_, hrest⟩
  obtain ⟨text, rfl⟩ := hrest
  have hsplit : front' ++ c' :: back = front ++ token.text ++ text.dropWhile isNameChar := by
    rw [← hsource, List.append_assoc, (read_eq (read_eq_ok_iff.mpr hread)).1]
  obtain ⟨-, hback⟩ := Text.append_inj_of_byteLength hsplit hstop
  have hhead : c' ∈ (text.dropWhile isNameChar).head? := by rw [← hback]; rfl
  exact head?_dropWhile_eq_false text c' hhead

theorem Stands.carries (hstands : lexeme.Stands source) : lexeme.Carries source := by
  obtain ⟨front, c, cs, token, rest, rfl, hread, rfl⟩ := hstands
  obtain ⟨kind, text⟩ := token
  obtain ⟨hall, -⟩ := read_eq (read_eq_ok_iff.mpr hread)
  rw [← hall]
  cases kind with
  | word name =>
    obtain rfl : text = name.toList := hread.text_of_word rfl
    exact slice?_eq_some_iff.mpr ⟨front, rest, rfl, rfl, rfl⟩
  | hash name =>
    obtain ⟨-, -, -, htext⟩ := hread.hash_inv rfl
    obtain rfl : text = '#' :: name.toList := htext
    have hhash : byteLength (front ++ ['#']) = byteLength front + 1 := byteLength_append _ _
    refine slice?_eq_some_iff.mpr ⟨front ++ ['#'], rest, ?_, hhash, ?_⟩
    · simp
    · simp
  | number amount suffix =>
    obtain ⟨numeral, hdecimal, hsuffix, rfl, htext⟩ := hread.exists_numeral rfl
    obtain rfl : text = numeral.text ++ suffix.toList := htext
    refine ⟨numeral, byteLength (front ++ numeral.text), hdecimal, rfl, hsuffix, ?_, ?_⟩
    · refine slice?_eq_some_iff.mpr ⟨front, suffix.toList ++ rest, ?_, rfl, rfl⟩
      simp
    · refine slice?_eq_some_iff.mpr ⟨front ++ numeral.text, rest, ?_, rfl, ?_⟩
      · simp
      · simp
  | _ => trivial

end Lexeme

/-! ### The row of lexemes -/

/-- The spans of the lexemes are the whole source, one behind the other from its start to its end,
where the last one stands. No other is empty, and none is cut short. -/
structure Tiles (source : List Char) (lexemes : List Lexeme) : Prop where
  head : lexemes.head?.map Lexeme.start = some 0
  chain : lexemes.IsChain fun left right => left.stop = right.start
  isBoundary : ∀ lexeme ∈ lexemes,
    IsBoundary source lexeme.start ∧ IsBoundary source lexeme.stop
  last : ∃ inner, lexemes = inner ++ [⟨none, byteLength source, byteLength source⟩] ∧
    ∀ lexeme ∈ inner, lexeme.kind ≠ none ∧ lexeme.start < lexeme.stop
  spaced : lexemes.IsChain fun left right =>
    ¬ (left.kind = some .blank ∧ right.kind = some .blank)
  nameEnds : ∀ lexeme ∈ lexemes, lexeme.NameEnds source
  carries : ∀ lexeme ∈ lexemes, lexeme.Carries source

theorem head?_lexemesFrom (offset : Nat) (list : List Token) :
    (lexemesFrom offset list).head?.map Lexeme.start = some offset := by
  cases list <;> rfl

theorem isChain_lexemesFrom (offset : Nat) (list : List Token) :
    (lexemesFrom offset list).IsChain fun left right => left.stop = right.start := by
  induction list generalizing offset with
  | nil => exact List.IsChain.singleton _
  | cons token list ih =>
    refine List.isChain_cons.mpr ⟨?_, ih _⟩
    intro next hnext
    have hstart := head?_lexemesFrom (offset + byteLength token.text) list
    rw [Option.mem_def.mp hnext] at hstart
    exact (Option.some.inj hstart).symm

theorem spaced_lexemesFrom {list : List Token} (hspaced : Spaced list) (offset : Nat) :
    (lexemesFrom offset list).IsChain fun left right =>
      ¬ (left.kind = some .blank ∧ right.kind = some .blank) := by
  induction list generalizing offset with
  | nil => exact List.IsChain.singleton _
  | cons token list ih =>
    obtain ⟨hnext, hrest⟩ := List.isChain_cons.mp hspaced
    refine List.isChain_cons.mpr ⟨?_, ih hrest _⟩
    intro next hmem
    cases list with
    | nil =>
      obtain rfl := Option.some.inj hmem
      rintro ⟨-, ⟨⟩⟩
    | cons token' list =>
      obtain rfl := Option.some.inj hmem
      rintro ⟨hblank, hblank'⟩
      exact hnext token' rfl ⟨Option.some.inj hblank, Option.some.inj hblank'⟩

/-- All lexemes but the last one are those of tokens that stand in the source. -/
theorem exists_inner_lexemesFrom {source front cs : List Char} {list : List Token}
    (hsource : source = front ++ cs) (hcut : tokens cs = .ok list) :
    ∃ inner, lexemesFrom (byteLength front) list =
        inner ++ [⟨none, byteLength source, byteLength source⟩] ∧
      ∀ lexeme ∈ inner, lexeme.Stands source := by
  fun_induction tokens cs generalizing front list with
  | case1 =>
    cases hcut
    rw [List.append_nil] at hsource
    subst hsource
    exact ⟨[], rfl, List.forall_mem_nil _⟩
  | case2 => cases hcut
  | case3 => cases hcut
  | case4 c cs token rest hread hshorter more htail ih =>
    cases hcut
    have hbehind : source = front ++ token.text ++ rest := by
      rw [List.append_assoc, (read_eq hread).1, hsource]
    obtain ⟨inner, hinner, hstands⟩ := ih hbehind htail
    refine ⟨⟨some token.kind, byteLength front, byteLength (front ++ token.text)⟩ :: inner, ?_, ?_⟩
    · rw [lexemesFrom, ← byteLength_append, hinner, List.cons_append]
    · refine List.forall_mem_cons.mpr ⟨?_, hstands⟩
      exact ⟨front, c, cs, token, rest, hsource, read_eq_ok_iff.mp hread, rfl⟩

theorem tiles_of_tokens {source : List Char} {list : List Token}
    (hcut : tokens source = .ok list) : Tiles source (lexemesFrom 0 list) := by
  obtain ⟨inner, hinner, hstands⟩ := exists_inner_lexemesFrom (List.nil_append source).symm hcut
  have hinner : lexemesFrom 0 list =
      inner ++ [⟨none, byteLength source, byteLength source⟩] := hinner
  -- what holds of tokens that stand in the source and of its end holds of all lexemes
  have hall {P : Lexeme → Prop} (hP : ∀ lexeme, lexeme.Stands source → P lexeme)
      (hend : P ⟨none, byteLength source, byteLength source⟩) :
      ∀ lexeme ∈ lexemesFrom 0 list, P lexeme := by
    rw [hinner]
    refine List.forall_mem_append.mpr ⟨fun lexeme hlexeme => hP lexeme (hstands lexeme hlexeme), ?_⟩
    exact List.forall_mem_singleton.mpr hend
  have hsource : IsBoundary source (byteLength source) :=
    ⟨source, [], (List.append_nil source).symm, rfl⟩
  refine ⟨head?_lexemesFrom 0 list, isChain_lexemesFrom 0 list, ?_, ⟨inner, hinner, ?_⟩,
    spaced_lexemesFrom (spaced_tokens hcut) 0, ?_, ?_⟩
  · exact hall (fun _ hstands => hstands.isBoundary) ⟨hsource, hsource⟩
  · intro lexeme hlexeme
    refine ⟨?_, (hstands lexeme hlexeme).start_lt_stop⟩
    obtain ⟨front, c, cs, token, rest, -, -, rfl⟩ := hstands lexeme hlexeme
    exact Option.some_ne_none _
  · refine hall (fun _ hstands => hstands.nameEnds) ?_
    rintro ⟨name, hword | hhash⟩
    · cases hword
    · cases hhash
  · exact hall (fun _ hstands => hstands.carries) trivial

/-! ### The text of several tokens -/

theorem start_head_le_stop_getLast {row : List Lexeme} (hsome : row ≠ [])
    (hchain : row.IsChain fun left right => left.stop = right.start)
    (hspans : ∀ lexeme ∈ row, lexeme.start ≤ lexeme.stop) :
    (row.head hsome).start ≤ (row.getLast hsome).stop := by
  induction row with
  | nil => exact absurd rfl hsome
  | cons first row ih =>
    obtain ⟨hfirst, hrest⟩ := List.forall_mem_cons.mp hspans
    cases row with
    | nil => exact hfirst
    | cons next row =>
      obtain ⟨hnext, hchain⟩ := List.isChain_cons_cons.mp hchain
      have hle := ih (List.cons_ne_nil next row) hchain hrest
      rw [List.head_cons] at hle ⊢
      rw [List.getLast_cons (List.cons_ne_nil next row)]
      exact (hfirst.trans_eq hnext).trans hle

theorem Tiles.start_le_stop {source : List Char} {lexemes : List Lexeme}
    (htiles : Tiles source lexemes) : ∀ lexeme ∈ lexemes, lexeme.start ≤ lexeme.stop := by
  obtain ⟨inner, rfl, hinner⟩ := htiles.last
  intro lexeme hlexeme
  rcases List.mem_append.mp hlexeme with hlexeme | hend
  · exact Nat.le_of_lt (hinner lexeme hlexeme).2
  · obtain rfl := List.mem_singleton.mp hend
    exact Nat.le_refl _

/-- From the start of a token to the end of any later one there is a slice of the source, such as
the text of a value that is complained about. -/
theorem Tiles.exists_slice {source : List Char} {before row after : List Lexeme}
    (htiles : Tiles source (before ++ (row ++ after))) (hsome : row ≠ []) :
    ∃ text, slice? source (row.head hsome).start (row.getLast hsome).stop = some text := by
  have hmem : ∀ lexeme ∈ row, lexeme ∈ before ++ (row ++ after) := by
    intro lexeme hlexeme
    exact List.mem_append_right _ (List.mem_append_left _ hlexeme)
  have hrow := (List.isChain_append.mp (List.isChain_append.mp htiles.chain).2.1).1
  have hle := start_head_le_stop_getLast hsome hrow
    fun lexeme hlexeme => htiles.start_le_stop lexeme (hmem lexeme hlexeme)
  have hstart := (htiles.isBoundary _ (hmem _ (List.head_mem hsome))).1
  have hstop := (htiles.isBoundary _ (hmem _ (List.getLast_mem hsome))).2
  exact hstart.exists_slice hstop hle

/-! ### Every source -/

/-- **The tokens tile the source, or it is refused between two characters.** Then the text before
that place is scanned on its own. No slice is taken that is not there. -/
theorem scan_tiles_or_refuses (source : String) :
    (∃ list, tokens source.toList = .ok list ∧
      scan source.toList = .ok (lexemesFrom 0 list) ∧
      Tiles source.toList (lexemesFrom 0 list)) ∨
    ∃ fault before after lexemes, source.toList = before ++ after ∧
      tokens source.toList = .error ⟨fault, byteLength after⟩ ∧
      scan source.toList = .error (.fault fault (byteLength before)) ∧
      (∀ record, parse source record =
        .error ⟨fault, .locate source.toList (byteLength before)⟩) ∧
      (Position.locate source.toList (byteLength before)).offset = byteLength before ∧
      scan before = .ok lexemes ∧ Tiles before lexemes := by
  cases hcut : tokens source.toList with
  | ok list =>
    left
    refine ⟨list, rfl, ?_, tiles_of_tokens hcut⟩
    rw [scan_eq, hcut]
    rfl
  | error refusal =>
    right
    obtain ⟨fault, left⟩ := refusal
    obtain ⟨before, after, list, hsource, hleft, -, hbefore⟩ := exists_front_of_tokens hcut
    obtain rfl : byteLength after = left := hleft
    have hplace := Text.byteLength_sub_eq hsource
    refine ⟨fault, before, after, lexemesFrom 0 list, hsource, rfl, ?_, ?_, ?_, ?_,
      tiles_of_tokens hbefore⟩
    · rw [scan_eq, hcut, outcome, hplace]
    · intro record
      have hwritten : written source.toList = .error ⟨fault, byteLength after⟩ := by
        rw [written, hcut]
      rw [parse_of_refused record hwritten, Refusal.place, positionOf, hplace]
    · rw [Position.locate, hsource, byteLength_append]
      exact Nat.min_eq_left (Nat.le_add_right _ _)
    · rw [scan_eq, hbefore]
      rfl

end Sheet

end WidgetStyle
