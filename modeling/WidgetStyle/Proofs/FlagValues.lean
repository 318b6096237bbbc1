import Mathlib.Data.List.Induction
import Mathlib.Data.List.Sort
import WidgetStyle.Flag

/-!
# The values of flags

A flag set keeps the flags that are on, in a list. To a reader it is a table with a value for each
of the flags there can be: a change writes to this table (`get_change`), and what is read is what
was written last (`get_run`). The list cannot tell more than the table: since it is in order and
without doubles, there is one list for each table (`ext_get`), so that no flag set shows how it came
about.
-/

namespace WidgetStyle

theorem Flag.lt_irrefl (flag : Flag) : ¬flag < flag :=
  UInt32.lt_irrefl flag.number

theorem Flag.lt_asymm {a b : Flag} (hless : a < b) : ¬b < a :=
  UInt32.lt_asymm hless

instance : Std.Irrefl (α := Flag) (· < ·) where
  irrefl := Flag.lt_irrefl

instance : Std.Antisymm (α := Flag) (· < ·) where
  antisymm _ _ hless hgreater := absurd hgreater (Flag.lt_asymm hless)

namespace FlagSet

theorem mem_active_iff {flags : FlagSet} {flag : Flag} :
    flag ∈ flags.active ↔ flags.get flag = true := by
  simp [get]

/-- Flag sets with the same flags on are the same. -/
theorem ext_get {flags flags' : FlagSet} (hget : ∀ flag, flags.get flag = flags'.get flag) :
    flags = flags' := by
  obtain ⟨active, hactive⟩ := flags
  obtain ⟨active', hactive'⟩ := flags'
  have hmem : ∀ flag, flag ∈ active ↔ flag ∈ active' := by
    intro flag
    have hiff := Bool.eq_iff_iff.mp (hget flag)
    rwa [← mem_active_iff, ← mem_active_iff] at hiff
  obtain rfl := hactive.eq_of_mem_iff hactive' hmem
  rfl

/-! ### What one change writes -/

theorem get_empty (flag : Flag) : empty.get flag = false :=
  rfl

theorem get_set (flags : FlagSet) (written flag : Flag) (value : Bool) :
    (flags.set written value).get flag = if written = flag then value else flags.get flag := by
  rw [Bool.eq_iff_iff, ← mem_active_iff]
  by_cases hsame : written = flag
  · subst hsame
    rw [if_pos rfl]
    cases value with
    | true => simp [set, Ascending.mem_insert]
    | false => simp [set]
  · rw [if_neg hsame, ← mem_active_iff]
    cases value with
    | true => simp [set, Ascending.mem_insert, Ne.symm hsame]
    | false => simp [set, Ne.symm hsame]

theorem get_toggle (flags : FlagSet) (written flag : Flag) :
    (flags.toggle written).2.get flag =
      if written = flag then !flags.get flag else flags.get flag := by
  rw [toggle, get_set]
  split
  · next hsame => rw [hsame]
  · rfl

theorem get_ofList (list : List Flag) (flag : Flag) :
    (ofList list).get flag = true ↔ flag ∈ list := by
  have hfold : ∀ flags : FlagSet,
      (list.foldl (fun found flag => found.set flag true) flags).get flag = true ↔
        flag ∈ list ∨ flags.get flag = true := by
    induction list with
    | nil => simp
    | cons first list ih =>
      intro flags
      rw [List.foldl_cons, ih, get_set, List.mem_cons]
      split
      · next hsame => simp [hsame]
      · next hother => simp [Ne.symm hother]
  rw [ofList, hfold, get_empty]
  simp

/-! ### What many changes leave -/

/-- The value last written to a flag by changes of which the last one comes first. A flip writes the
opposite of the value before it. Where nothing was written since the start, or since all flags were
turned off, it is off. -/
def lastWritten (flag : Flag) : List Change → Bool
  | [] => false
  | .set written value :: earlier => if written = flag then value else lastWritten flag earlier
  | .toggle written :: earlier =>
    if written = flag then !lastWritten flag earlier else lastWritten flag earlier
  | .clear :: _ => false
  | .collect list :: _ => decide (flag ∈ list)

/-- A change to a flag set is a change of the values that are read. -/
theorem get_change {flags : FlagSet} {flag : Flag} {earlier : List Change}
    (hbefore : flags.get flag = lastWritten flag earlier) (next : Change) :
    (flags.change next).get flag = lastWritten flag (next :: earlier) := by
  cases next with
  | set written value => rw [change, get_set, lastWritten, hbefore]
  | toggle written => rw [change, get_toggle, lastWritten, hbefore]
  | clear => rfl
  | collect list => rw [change, lastWritten, Bool.eq_iff_iff, get_ofList, decide_eq_true_iff]

theorem get_run (changes : List Change) (flag : Flag) :
    (empty.run changes).get flag = lastWritten flag changes.reverse := by
  induction changes using List.reverseRecOn with
  | nil => rfl
  | append_singleton changes next ih =>
    rw [run, List.foldl_append, List.reverse_append]
    exact get_change ih next

/-- **A flag set is the table of the values last written.** Behind any changes, each of the flags
has the value last written to it, a flip gives the new value of its flag and leaves the others
alone, and the flags that are on are listed in ascending order and each of them once. Two runs
leave the same flag set exactly if they leave the same values. -/
theorem values_of_run (changes : List Change) :
    (∀ flag, (empty.run changes).get flag = lastWritten flag changes.reverse) ∧
    (∀ flag, ((empty.run changes).toggle flag).1 = !(empty.run changes).get flag ∧
      ((empty.run changes).toggle flag).2.get flag = ((empty.run changes).toggle flag).1 ∧
      ∀ other, other ≠ flag →
        ((empty.run changes).toggle flag).2.get other = (empty.run changes).get other) ∧
    Ascending (empty.run changes).active ∧
    (∀ flag, flag ∈ (empty.run changes).active ↔ (empty.run changes).get flag = true) ∧
    ∀ others : List Change, empty.run changes = empty.run others ↔
      ∀ flag, (empty.run changes).get flag = (empty.run others).get flag := by
  refine ⟨get_run changes, ?_, (empty.run changes).ascending, fun flag => mem_active_iff, ?_⟩
  · intro flag
    refine ⟨rfl, ?_, ?_⟩
    · rw [get_toggle, if_pos rfl]
      rfl
    · intro other hother
      rw [get_toggle, if_neg hother.symm]
  · intro others
    constructor
    · intro hsame flag
      rw [hsame]
    · exact ext_get

example :
    empty.run [.toggle ⟨7⟩, .collect [⟨9⟩, ⟨3⟩, ⟨9⟩], .toggle ⟨5⟩, .set ⟨9⟩ false, .toggle ⟨5⟩] =
      empty.run [.set ⟨3⟩ true] := by
  decide

end FlagSet

end WidgetStyle
