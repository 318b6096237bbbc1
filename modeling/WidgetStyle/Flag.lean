/-!
# Flags

A flag is a switch of the running program, known by a number of 32 bits. A flag set holds the
flags that are on, in ascending order and each of them once, so that two sets are the same value
exactly when the same flags are on. A running program sets a flag, flips one, turns all of them off,
or collects a new set from a list of flags, which takes the place of the old one.
-/

namespace WidgetStyle

structure Flag where
  number : UInt32
deriving DecidableEq, Repr

namespace Flag

instance : LT Flag where
  lt a b := a.number < b.number

instance (a b : Flag) : Decidable (a < b) :=
  inferInstanceAs (Decidable (a.number < b.number))

def ofPlace (place : Nat) : Flag :=
  ⟨UInt32.ofNat place⟩

def place (flag : Flag) : Nat :=
  flag.number.toNat

def text (flag : Flag) : String :=
  "flag#" ++ toString flag.number.toNat

theorem lt_trans {a b c : Flag} (ab : a < b) (bc : b < c) : a < c :=
  UInt32.lt_trans ab bc

/-- Of two different flags one comes first. -/
theorem lt_of_not_lt {a b : Flag} (apart : a ≠ b) (notLess : ¬a < b) : b < a := by
  cases a
  cases b
  simp only [ne_eq, mk.injEq] at apart
  exact UInt32.lt_of_le_of_ne (UInt32.not_lt.1 notLess) (Ne.symm apart)

end Flag

/-- Each flag comes before all that follow it. -/
abbrev Ascending (flags : List Flag) : Prop :=
  flags.Pairwise (· < ·)

namespace Ascending

/-- The list with one more flag at its place. -/
def insert (flag : Flag) : List Flag → List Flag
  | [] => [flag]
  | first :: rest =>
    if flag = first then first :: rest
    else if flag < first then flag :: first :: rest
    else first :: insert flag rest

theorem mem_insert {flag other : Flag} {flags : List Flag} :
    other ∈ insert flag flags ↔ other = flag ∨ other ∈ flags := by
  induction flags with
  | nil => simp [insert]
  | cons first rest ih =>
    unfold insert
    split
    · simp_all
    · split
      · simp_all
      · simp_all only [List.mem_cons]
        grind

theorem pairwise_insert {flag : Flag} {flags : List Flag} (sorted : Ascending flags) :
    Ascending (insert flag flags) := by
  induction flags with
  | nil => simp [insert]
  | cons first rest ih =>
    obtain ⟨before, tail⟩ := List.pairwise_cons.1 sorted
    unfold insert
    split
    · exact sorted
    · next apart =>
      split
      · next less =>
        refine List.pairwise_cons.2 ⟨fun other within => ?_, sorted⟩
        rcases List.mem_cons.1 within with rfl | within
        · exact less
        · exact Flag.lt_trans less (before other within)
      · next notLess =>
        refine List.pairwise_cons.2 ⟨fun other within => ?_, ih tail⟩
        rcases mem_insert.1 within with rfl | within
        · exact Flag.lt_of_not_lt apart notLess
        · exact before other within

end Ascending

structure FlagSet where
  active : List Flag
  ascending : Ascending active
deriving DecidableEq, Repr

namespace FlagSet

def empty : FlagSet :=
  ⟨[], List.Pairwise.nil⟩

/-- Whether a flag is on. A flag that was never set is off. -/
def get (flags : FlagSet) (flag : Flag) : Bool :=
  flags.active.contains flag

def set (flags : FlagSet) (flag : Flag) : (value : Bool) → FlagSet
  | true => ⟨Ascending.insert flag flags.active, Ascending.pairwise_insert flags.ascending⟩
  | false => ⟨flags.active.filter (· ≠ flag), flags.ascending.filter _⟩

/-- Flip a flag, and give its new value. -/
def toggle (flags : FlagSet) (flag : Flag) : Bool × FlagSet :=
  (!flags.get flag, flags.set flag (!flags.get flag))

/-- The set in which exactly the listed flags are on. -/
def ofList (flags : List Flag) : FlagSet :=
  flags.foldl (fun found flag => found.set flag true) empty

/-! ### Changes -/

inductive Change where
  | set (flag : Flag) (value : Bool)
  | toggle (flag : Flag)
  | clear
  | collect (list : List Flag)
deriving DecidableEq, Repr

/-- The flags behind a change. -/
def change (flags : FlagSet) : Change → FlagSet
  | .set flag value => flags.set flag value
  | .toggle flag => (flags.toggle flag).2
  | .clear => empty
  | .collect list => ofList list

/-- The flags behind changes in a row. -/
def run (flags : FlagSet) (changes : List Change) : FlagSet :=
  changes.foldl change flags

end FlagSet

end WidgetStyle
