import Mathlib.Data.List.DropRight
import Mathlib.Data.List.Induction
import WidgetStyle.Proofs.Offsets

/-!
# Lines and columns

The line of an offset is counted by the line feeds that start before it, and the column by the
characters that start before it and behind the last of these line feeds (`lineAt`, `columnAt`). A
place is found by passing characters one by one, with two counters. What it has passed are the
characters that start before the offset (`exists_passed`), and of these the counters know the line
feeds and the last line (`foldl_passChar`). From one place between characters to a later one at
least one character is passed, so the line grows, or else the column does
(`precedes_of_append`).
-/

namespace WidgetStyle.Text

/-! ### Counting -/

/-- The characters of a text that starts at an offset, each with the offset at which it starts. -/
def starts (offset : Nat) : List Char → List (Nat × Char)
  | [] => []
  | c :: cs => (offset, c) :: starts (offset + c.utf8Size) cs

/-- The number of the line of an offset: one more than the line feeds that start before it. -/
def lineAt (source : List Char) (offset : Nat) : Nat :=
  1 + (starts 0 source).countP fun found => found.1 < offset ∧ found.2 = '\n'

/-- The number of the column of an offset: one more than the characters that start before it and
behind all line feeds that start before it. -/
def columnAt (source : List Char) (offset : Nat) : Nat :=
  1 + (starts 0 source).countP fun found => found.1 < offset ∧
    ∀ feed ∈ starts 0 source, feed.1 < offset → feed.2 = '\n' → feed.1 < found.1

/-- The numbers of all lines and columns of a text fit into 32 bits. -/
def CountsFit (source : List Char) : Prop :=
  ∀ offset, lineAt source offset < UInt32.size ∧ columnAt source offset < UInt32.size

theorem starts_append (offset : Nat) (front back : List Char) :
    starts offset (front ++ back) =
      starts offset front ++ starts (offset + byteLength front) back := by
  induction front generalizing offset with
  | nil => rfl
  | cons c front ih => rw [List.cons_append, starts, ih, starts, byteLength, Nat.add_assoc]; rfl

theorem length_starts (offset : Nat) (text : List Char) :
    (starts offset text).length = text.length := by
  induction text generalizing offset with
  | nil => rfl
  | cons c text ih => rw [starts, List.length_cons, List.length_cons, ih]

theorem map_snd_starts (offset : Nat) (text : List Char) :
    (starts offset text).map Prod.snd = text := by
  induction text generalizing offset with
  | nil => rfl
  | cons c text ih => rw [starts, List.map_cons, ih]

/-- A character starts where its text starts or behind that, and before the end of its text. -/
theorem bounds_of_mem_starts {offset : Nat} {text : List Char} {found : Nat × Char}
    (hfound : found ∈ starts offset text) :
    offset ≤ found.1 ∧ found.1 < offset + byteLength text := by
  induction text generalizing offset with
  | nil => cases hfound
  | cons c text ih =>
    have hsize := c.utf8Size_pos
    rw [byteLength]
    rcases List.mem_cons.mp hfound with rfl | hfound
    · exact ⟨Nat.le_refl _, by omega⟩
    · have hbounds := ih hfound
      omega

theorem countsFit_of_length {source : List Char} (hlength : source.length + 1 < UInt32.size) :
    CountsFit source := by
  intro offset
  have hcount : ∀ p : Nat × Char → Bool, 1 + (starts 0 source).countP p < UInt32.size := by
    intro p
    have hle := List.countP_le_length (p := p) (l := starts 0 source)
    rw [length_starts] at hle
    omega
  exact ⟨hcount _, hcount _⟩

/-! ### The last line -/

/-- The characters behind the last line feed. -/
def lastLine (text : List Char) : List Char :=
  text.rtakeWhile (· ≠ '\n')

theorem lastLine_feed (front : List Char) : lastLine (front ++ ['\n']) = [] :=
  List.rtakeWhile_concat_neg _ _ _ (by simp)

theorem lastLine_concat {c : Char} (hc : c ≠ '\n') (front : List Char) :
    lastLine (front ++ [c]) = lastLine front ++ [c] :=
  List.rtakeWhile_concat_pos _ _ _ (by simpa using hc)

theorem lastLine_append {middle : List Char} (hfeed : '\n' ∉ middle) (front : List Char) :
    lastLine (front ++ middle) = lastLine front ++ middle := by
  induction middle using List.reverseRecOn with
  | nil => rw [List.append_nil, List.append_nil]
  | append_singleton middle c ih =>
    obtain ⟨hmiddle, hc⟩ : '\n' ∉ middle ∧ '\n' ≠ c := by simpa using hfeed
    rw [← List.append_assoc, lastLine_concat hc.symm, ih hmiddle, List.append_assoc]

/-- The characters behind all line feeds are those of the last line. -/
theorem countP_lastLine (front : List Char) :
    ((starts 0 front).countP fun found =>
      ∀ feed ∈ starts 0 front, feed.2 = '\n' → feed.1 < found.1) = (lastLine front).length := by
  induction front using List.reverseRecOn with
  | nil => rfl
  | append_singleton front c ih =>
    have hsplit : starts 0 (front ++ [c]) = starts 0 front ++ [(byteLength front, c)] := by
      rw [starts_append, Nat.zero_add]
      rfl
    have hbefore : ∀ found ∈ starts 0 front, found.1 < byteLength front := by
      intro found hfound
      exact (Nat.zero_add (byteLength front)) ▸ (bounds_of_mem_starts hfound).2
    by_cases hc : c = '\n'
    · -- the new line feed comes behind every character
      subst hc
      rw [lastLine_feed, List.length_nil, List.countP_eq_zero]
      intro found hfound hbehind
      have hfeed := of_decide_eq_true hbehind (byteLength front, '\n') (by simp [hsplit]) rfl
      rw [hsplit, List.mem_append, List.mem_singleton] at hfound
      rcases hfound with hfound | rfl
      · exact Nat.lt_asymm hfeed (hbefore found hfound)
      · exact Nat.lt_irrefl _ hfeed
    · have hsame : ∀ found : Nat × Char,
          (∀ feed ∈ starts 0 (front ++ [c]), feed.2 = '\n' → feed.1 < found.1) ↔
            ∀ feed ∈ starts 0 front, feed.2 = '\n' → feed.1 < found.1 := by
        intro found
        rw [hsplit, List.forall_mem_append]
        simp [hc]
      simp only [hsame]
      rw [hsplit, List.countP_append, ih, lastLine_concat hc, List.length_append,
        List.countP_singleton, if_pos]
      · rfl
      · exact decide_eq_true fun feed hfeed _ => hbefore feed hfeed

/-! ### What is passed on the way to an offset -/

/-- The text is cut where the characters that start before the offset end. -/
structure CutAt (source : List Char) (offset : Nat) (front back : List Char) : Prop where
  source_eq : source = front ++ back
  before : ∀ found ∈ starts 0 front, found.1 < offset
  behind : ∀ found ∈ starts (byteLength front) back, offset ≤ found.1

theorem cutAt_byteLength (front back : List Char) :
    CutAt (front ++ back) (byteLength front) front back := by
  refine ⟨rfl, ?_, fun found hfound => (bounds_of_mem_starts hfound).1⟩
  intro found hfound
  exact (Nat.zero_add (byteLength front)) ▸ (bounds_of_mem_starts hfound).2

variable {source front back : List Char} {offset : Nat}

theorem CutAt.starts_eq (hcut : CutAt source offset front back) :
    starts 0 source = starts 0 front ++ starts (byteLength front) back := by
  rw [hcut.source_eq, starts_append, Nat.zero_add]

/-- Of the characters of a text, those that start before the offset are counted in front of the
cut. -/
theorem CutAt.countP_eq (hcut : CutAt source offset front back) (p : Nat × Char → Prop)
    [DecidablePred p] :
    ((starts 0 source).countP fun found => found.1 < offset ∧ p found) =
      (starts 0 front).countP fun found => p found := by
  have hback : ((starts (byteLength front) back).countP fun found => found.1 < offset ∧ p found) =
      0 := by
    rw [List.countP_eq_zero]
    intro found hfound hcounted
    exact Nat.not_lt.mpr (hcut.behind found hfound) (of_decide_eq_true hcounted).1
  rw [hcut.starts_eq, List.countP_append, hback, Nat.add_zero]
  refine List.countP_congr ?_
  intro found hfound
  simp [hcut.before found hfound]

theorem CutAt.lineAt_eq (hcut : CutAt source offset front back) :
    lineAt source offset = 1 + front.count '\n' := by
  have hfeeds : ((starts 0 front).countP fun found => found.2 = '\n') = front.count '\n' := by
    conv_rhs => rw [← map_snd_starts 0 front, List.count, List.countP_map]
    rfl
  rw [lineAt, hcut.countP_eq fun found => found.2 = '\n', hfeeds]

theorem CutAt.columnAt_eq (hcut : CutAt source offset front back) :
    columnAt source offset = 1 + (lastLine front).length := by
  rw [columnAt, hcut.countP_eq fun found =>
    ∀ feed ∈ starts 0 source, feed.1 < offset → feed.2 = '\n' → feed.1 < found.1,
    ← countP_lastLine front]
  -- the line feeds that start before the offset are those in front of the cut
  have hfeeds : ∀ feed : Nat × Char,
      feed ∈ starts 0 source ∧ feed.1 < offset ↔ feed ∈ starts 0 front := by
    intro feed
    rw [hcut.starts_eq, List.mem_append]
    constructor
    · rintro ⟨hfront | hback, hless⟩
      · exact hfront
      · exact absurd hless (Nat.not_lt.mpr (hcut.behind feed hback))
    · intro hfront
      exact ⟨.inl hfront, hcut.before feed hfront⟩
  congr 1
  refine List.countP_congr ?_
  intro found hfound
  simp only [← and_imp, ← and_assoc, hfeeds, decide_eq_true_eq]

/-- Pass one character. -/
def passChar (place : UInt32 × UInt32) (c : Char) : UInt32 × UInt32 :=
  if c = '\n' then (place.1 + 1, 1) else (place.1, place.2 + 1)

/-- The counters behind some characters know the number of line feeds and the length of the last
line, in 32-bit words. -/
theorem foldl_passChar (front : List Char) :
    front.foldl passChar (1, 1) =
      (UInt32.ofNat (1 + front.count '\n'), UInt32.ofNat (1 + (lastLine front).length)) := by
  induction front using List.reverseRecOn with
  | nil => rfl
  | append_singleton front c ih =>
    have hsucc : ∀ n, UInt32.ofNat (n + 1) = UInt32.ofNat n + 1 := fun n => UInt32.ofNat_add n 1
    rw [List.foldl_append, ih, List.count_append, List.foldl_cons, List.foldl_nil, passChar]
    by_cases hc : c = '\n'
    · subst hc
      rw [if_pos rfl, lastLine_feed, List.count_singleton_self, ← Nat.add_assoc, hsucc]
      rfl
    · rw [if_neg hc, lastLine_concat hc, List.count_singleton, if_neg (by simpa using hc),
        List.length_append, List.length_singleton, ← Nat.add_assoc 1 _ 1, hsucc]
      rfl

/-- All characters that start before the offset are passed, one by one. -/
theorem exists_passed (source : List Char) (left : Nat) :
    ∃ front back, CutAt source left front back ∧
      ∀ line column,
        Position.pass left source line column = front.foldl passChar (line, column) := by
  -- the offsets in a text that is passed in part are those of a text that starts further behind
  have hpassed : ∀ base, ∃ front back, source = front ++ back ∧
      (∀ found ∈ starts base front, found.1 < base + left) ∧
      (∀ found ∈ starts (base + byteLength front) back, base + left ≤ found.1) ∧
      ∀ line column, Position.pass left source line column =
        front.foldl passChar (line, column) := by
    induction source generalizing left with
    | nil =>
      intro base
      refine ⟨[], [], rfl, List.forall_mem_nil _, List.forall_mem_nil _, ?_⟩
      intro line column
      cases left <;> rfl
    | cons c source ih =>
      intro base
      cases left with
      | zero =>
        exact ⟨[], c :: source, rfl, List.forall_mem_nil _,
          fun found hfound => (bounds_of_mem_starts hfound).1, fun line column => rfl⟩
      | succ left =>
        obtain ⟨front, back, rfl, hbefore, hbehind, hpass⟩ :=
          ih (left + 1 - c.utf8Size) (base + c.utf8Size)
        refine ⟨c :: front, back, rfl, List.forall_mem_cons.mpr ⟨by omega, ?_⟩, ?_, ?_⟩
        · intro found hfound
          have hbound := (bounds_of_mem_starts hfound).1
          have hless := hbefore found hfound
          omega
        · intro found hfound
          rw [byteLength, ← Nat.add_assoc] at hfound
          have hle := hbehind found hfound
          omega
        · intro line column
          rw [Position.pass, List.foldl_cons, passChar]
          split
          · exact hpass _ _
          · exact hpass _ _
  obtain ⟨front, back, hsource, hbefore, hbehind, hpass⟩ := hpassed 0
  rw [Nat.zero_add] at hbefore hbehind
  rw [Nat.zero_add] at hbehind
  exact ⟨front, back, ⟨hsource, hbefore, hbehind⟩, hpass⟩

/-- An offset behind the end is as good as the end. -/
theorem CutAt.of_min (hcut : CutAt source (min offset (byteLength source)) front back) :
    CutAt source offset front back := by
  refine ⟨hcut.source_eq, ?_, ?_⟩
  · intro found hfound
    exact (Nat.lt_min.mp (hcut.before found hfound)).1
  · intro found hfound
    have hle := hcut.behind found hfound
    have hless := (bounds_of_mem_starts hfound).2
    rw [← byteLength_append, ← hcut.source_eq] at hless
    omega

/-- The place of an offset has the numbers of its line and its column, in 32-bit words. -/
theorem locate_eq (source : List Char) (offset : Nat) :
    Position.locate source offset = ⟨min offset (byteLength source),
      UInt32.ofNat (lineAt source offset), UInt32.ofNat (columnAt source offset)⟩ := by
  obtain ⟨front, back, hcut, hpass⟩ := exists_passed source (min offset (byteLength source))
  rw [hcut.of_min.lineAt_eq, hcut.of_min.columnAt_eq]
  simp only [Position.locate, hpass, foldl_passChar]

theorem CountsFit.toNat_locate {source : List Char} (hfit : CountsFit source) (offset : Nat) :
    (Position.locate source offset).line.toNat = lineAt source offset ∧
      (Position.locate source offset).column.toNat = columnAt source offset := by
  rw [locate_eq]
  exact ⟨UInt32.toNat_ofNat_of_lt' (hfit offset).1,
    UInt32.toNat_ofNat_of_lt' (hfit offset).2⟩

/-! ### The order of places -/

/-- The one place stands before the other one, by line and column. -/
def Position.Precedes (place later : Position) : Prop :=
  place.line < later.line ∨ place.line = later.line ∧ place.column < later.column

theorem precedes_of_append {front middle back : List Char}
    (hfit : CountsFit (front ++ (middle ++ back))) (hsome : middle ≠ []) :
    (Position.locate (front ++ (middle ++ back)) (byteLength front)).Precedes
      (Position.locate (front ++ (middle ++ back)) (byteLength (front ++ middle))) := by
  have hplace := hfit.toNat_locate (byteLength front)
  have hlater := hfit.toNat_locate (byteLength (front ++ middle))
  have hcut := cutAt_byteLength front (middle ++ back)
  have hcut' := cutAt_byteLength (front ++ middle) back
  rw [List.append_assoc] at hcut'
  rw [hcut.lineAt_eq, hcut.columnAt_eq] at hplace
  rw [hcut'.lineAt_eq, hcut'.columnAt_eq, List.count_append] at hlater
  rw [Position.Precedes, UInt32.lt_iff_toNat_lt, UInt32.lt_iff_toNat_lt, ← UInt32.toNat_inj,
    hplace.1, hplace.2, hlater.1, hlater.2]
  by_cases hfeed : '\n' ∈ middle
  · have hcount := List.count_pos_iff.mpr hfeed
    exact .inl (by omega)
  · have hlength := List.length_pos_iff.mpr hsome
    rw [List.count_eq_zero.mpr hfeed, lastLine_append hfeed, List.length_append]
    exact .inr ⟨rfl, by omega⟩

end WidgetStyle.Text
