import WidgetStyle.Text.Position

/-!
# Byte offsets

The offset of a place in a text is the number of bytes in front of it. No character is without
bytes, so there is one place at most for each offset. A slice is what stands between two places
(`slice?_eq_some_iff`).
-/

namespace WidgetStyle.Text

theorem byteLength_append (front back : List Char) :
    byteLength (front ++ back) = byteLength front + byteLength back := by
  induction front with
  | nil => exact (Nat.zero_add _).symm
  | cons c front ih => rw [List.cons_append, byteLength, byteLength, ih, Nat.add_assoc]

/-- The offset of a place, from the bytes behind it. -/
theorem byteLength_sub_eq {source front back : List Char} (hsource : source = front ++ back) :
    byteLength source - byteLength back = byteLength front := by
  rw [hsource, byteLength_append, Nat.add_sub_cancel_right]

theorem byteLength_pos {text : List Char} (hsome : text ≠ []) : 0 < byteLength text := by
  obtain ⟨c, cs, rfl⟩ := List.exists_cons_of_ne_nil hsome
  exact Nat.add_pos_left c.utf8Size_pos _

/-- Fronts of one text that have the same number of bytes are the same. -/
theorem append_inj_of_byteLength {front front' back back' : List Char}
    (hall : front ++ back = front' ++ back') (hbytes : byteLength front = byteLength front') :
    front = front' ∧ back = back' := by
  induction front generalizing front' with
  | nil =>
    cases front' with
    | nil => exact ⟨rfl, hall⟩
    | cons c front' =>
      have hpos := byteLength_pos (List.cons_ne_nil c front')
      rw [← hbytes] at hpos
      cases hpos
  | cons c front ih =>
    cases front' with
    | nil =>
      have hpos := byteLength_pos (List.cons_ne_nil c front)
      rw [hbytes] at hpos
      cases hpos
    | cons c' front' =>
      obtain ⟨rfl, htail⟩ := List.cons.inj hall
      rw [byteLength, byteLength, Nat.add_left_cancel_iff] at hbytes
      obtain ⟨rfl, rfl⟩ := ih htail hbytes
      exact ⟨rfl, rfl⟩

/-! ### Slices -/

/-- The bytes of the characters behind the first one. -/
theorem exists_byteLength_cons (c : Char) (cs : List Char) :
    ∃ count, byteLength (c :: cs) = count + 1 ∧ c.utf8Size ≤ count + 1 ∧
      count + 1 - c.utf8Size = byteLength cs := by
  have hpos := byteLength_pos (List.cons_ne_nil c cs)
  obtain ⟨count, hcount⟩ := Nat.exists_eq_succ_of_ne_zero (Nat.ne_of_gt hpos)
  refine ⟨count, hcount, ?_, ?_⟩
  · rw [← Nat.succ_eq_add_one, ← hcount, byteLength]
    exact Nat.le_add_right _ _
  · rw [← Nat.succ_eq_add_one, ← hcount, byteLength, Nat.add_sub_cancel_left]

theorem behind?_eq_some_iff {count : Nat} {cs back : List Char} :
    behind? count cs = some back ↔ ∃ front, cs = front ++ back ∧ byteLength front = count := by
  constructor
  · intro hbehind
    fun_induction behind? count cs with
    | case1 cs =>
      cases hbehind
      exact ⟨[], rfl, rfl⟩
    | case2 => cases hbehind
    | case3 count c cs hsize ih =>
      obtain ⟨front, rfl, hfront⟩ := ih hbehind
      refine ⟨c :: front, rfl, ?_⟩
      rw [byteLength, hfront]
      omega
    | case4 => cases hbehind
  · rintro ⟨front, rfl, rfl⟩
    induction front with
    | nil => rw [byteLength, List.nil_append, behind?]
    | cons c front ih =>
      obtain ⟨count, hcount, hsize, hrest⟩ := exists_byteLength_cons c front
      rw [hcount, List.cons_append, behind?, if_pos hsize, hrest, ih]

theorem front?_eq_some_iff {count : Nat} {cs front : List Char} :
    front? count cs = some front ↔ ∃ back, cs = front ++ back ∧ byteLength front = count := by
  constructor
  · intro hfront
    fun_induction front? count cs generalizing front with
    | case1 cs =>
      cases hfront
      exact ⟨cs, rfl, rfl⟩
    | case2 => cases hfront
    | case3 count c cs hsize ih =>
      obtain ⟨rest, hrest, rfl⟩ := Option.map_eq_some_iff.mp hfront
      obtain ⟨back, rfl, hbytes⟩ := ih hrest
      refine ⟨back, rfl, ?_⟩
      rw [byteLength, hbytes]
      omega
    | case4 => cases hfront
  · rintro ⟨back, rfl, rfl⟩
    induction front with
    | nil => rw [byteLength, List.nil_append, front?]
    | cons c front ih =>
      obtain ⟨count, hcount, hsize, hrest⟩ := exists_byteLength_cons c front
      rw [hcount, List.cons_append, front?, if_pos hsize, hrest, ih]
      rfl

/-- **A slice is what stands between two places of the text.** -/
theorem slice?_eq_some_iff {source text : List Char} {start stop : Nat} :
    slice? source start stop = some text ↔ ∃ front back, source = front ++ (text ++ back) ∧
      byteLength front = start ∧ byteLength (front ++ text) = stop := by
  unfold slice?
  constructor
  · intro hslice
    split at hslice
    · next hle =>
      obtain ⟨behind, hbehind, hfront⟩ := Option.bind_eq_some_iff.mp hslice
      obtain ⟨front, rfl, hstart⟩ := behind?_eq_some_iff.mp hbehind
      obtain ⟨back, rfl, hstop⟩ := front?_eq_some_iff.mp hfront
      refine ⟨front, back, rfl, hstart, ?_⟩
      rw [byteLength_append, hstart, hstop]
      omega
    · cases hslice
  · rintro ⟨front, back, rfl, rfl, rfl⟩
    have hbehind : behind? (byteLength front) (front ++ (text ++ back)) = some (text ++ back) :=
      behind?_eq_some_iff.mpr ⟨front, rfl, rfl⟩
    have hfront : front? (byteLength text) (text ++ back) = some text :=
      front?_eq_some_iff.mpr ⟨back, rfl, rfl⟩
    rw [byteLength_append, if_pos (Nat.le_add_right _ _), hbehind, Option.bind_some,
      Nat.add_sub_cancel_left, hfront]

end WidgetStyle.Text
