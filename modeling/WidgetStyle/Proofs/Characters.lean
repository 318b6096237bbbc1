import Mathlib.Data.List.TakeWhile
import WidgetStyle.Text.Characters

/-!
# Classes of characters

A blank is neither a letter nor a number of any script: the ranges of the classes are apart, which
is checked range by range (`Ranges.apart`). So a name, which is the longest front of a text with
characters of its class, always ends at a blank.
-/

namespace WidgetStyle

/-- The longest front of a text in a class: what follows it starts with another character. -/
theorem takeWhile_append_of_stop {α : Type} {p : α → Bool} {front back : List α}
    (hfront : ∀ a ∈ front, p a = true) (hstop : ∀ a ∈ back.head?, p a = false) :
    (front ++ back).takeWhile p = front ∧ (front ++ back).dropWhile p = back := by
  rw [List.takeWhile_append_of_pos hfront, List.dropWhile_append_of_pos hfront]
  cases back with
  | nil => simp
  | cons a back => simp [hstop a rfl]

theorem head?_dropWhile_eq_false {α : Type} {p : α → Bool} (list : List α) :
    ∀ a ∈ (list.dropWhile p).head?, p a = false := by
  intro a ha
  have hstop := List.head?_dropWhile_not p list
  rw [Option.mem_def.mp ha] at hstop
  simpa using hstop

namespace Text

/-- No range of the one list meets a range of the other. -/
def Ranges.apart (ranges others : Ranges) : Bool :=
  ranges.all fun range => others.all fun other => range.2 < other.1 || other.2 < range.1

theorem Ranges.exists_range_of_covers {ranges : Ranges} {code : Nat}
    (hcovers : ranges.covers code = true) : ∃ range ∈ ranges, range.1 ≤ code ∧ code ≤ range.2 := by
  induction ranges with
  | nil => cases hcovers
  | cons range ranges ih =>
    obtain ⟨low, high⟩ := range
    rw [covers] at hcovers
    split at hcovers
    · cases hcovers
    · next hlow =>
      rcases Bool.or_eq_true_iff.mp hcovers with hhigh | hrest
      · exact ⟨(low, high), List.mem_cons_self, Nat.le_of_not_lt hlow, of_decide_eq_true hhigh⟩
      · obtain ⟨range, hrange, hbounds⟩ := ih hrest
        exact ⟨range, List.mem_cons_of_mem _ hrange, hbounds⟩

theorem Ranges.covers_eq_false_of_apart {ranges others : Ranges} {code : Nat}
    (hapart : ranges.apart others = true) (hcovers : ranges.covers code = true) :
    others.covers code = false := by
  by_contra hother
  obtain ⟨range, hrange, hlow, hhigh⟩ := exists_range_of_covers hcovers
  obtain ⟨other, hmem, hlow', hhigh'⟩ := exists_range_of_covers (by simpa using hother)
  have hends := List.all_eq_true.mp (List.all_eq_true.mp hapart range hrange) other hmem
  rcases Bool.or_eq_true_iff.mp hends with hbefore | hbehind
  · have hbefore := of_decide_eq_true hbefore
    omega
  · have hbehind := of_decide_eq_true hbehind
    omega

theorem isAlphabetic_of_isBlank {c : Char} (hblank : isBlank c = true) :
    isAlphabetic c = false := by
  have hapart : blankRanges.apart alphabeticRanges = true := by decide +kernel
  exact Ranges.covers_eq_false_of_apart hapart hblank

theorem isNumeric_of_isBlank {c : Char} (hblank : isBlank c = true) : isNumeric c = false := by
  have hapart : blankRanges.apart numericRanges = true := by decide +kernel
  exact Ranges.covers_eq_false_of_apart hapart hblank

end Text

end WidgetStyle
