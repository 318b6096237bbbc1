import WidgetStyle.Flag
import WidgetStyle.Formula

/-!
# Formulas and switches by the state of the flags

A formula has a value where its flags have values, and it reads no flag but those in its leaves. A
switch selects one of several values by the state of the flags: the value of the first case whose
formula holds, or else the fallback.
-/

namespace WidgetStyle

/-! ### Evaluation -/

/-- The value of a run from the values of its terms: every one, at least one, or an odd number of
them is true. -/
def Operator.combine : Operator → List Bool → Bool
  | all, values => values.all id
  | any, values => values.any id
  | odd, values => values.count true % 2 == 1

namespace Formula

variable {α : Type}

mutual

/-- The value of a formula where `lookup` gives the values of the flags. -/
def holds (lookup : α → Bool) : Formula α → Bool
  | leaf flag negated => lookup flag ^^ negated
  | run operator terms => operator.combine (truths lookup terms)
  | not inner => !holds lookup inner

def truths (lookup : α → Bool) : List (Formula α) → List Bool
  | [] => []
  | term :: terms => holds lookup term :: truths lookup terms

end

/-! ### Flags -/

mutual

/-- The flags of a formula in the order of the text, as often as they occur. -/
def occurrences : Formula α → List α
  | leaf flag _ => [flag]
  | run _ terms => occurrencesAll terms
  | not inner => occurrences inner

def occurrencesAll : List (Formula α) → List α
  | [] => []
  | term :: terms => occurrences term ++ occurrencesAll terms

end

/-- The flags that a formula reads, in the order of first use. -/
def flags [DecidableEq α] (formula : Formula α) : List α :=
  formula.occurrences.eraseDups

mutual

def dependsOn [DecidableEq α] (flag : α) : Formula α → Bool
  | leaf read _ => read == flag
  | run _ terms => anyDependsOn flag terms
  | not inner => dependsOn flag inner

def anyDependsOn [DecidableEq α] (flag : α) : List (Formula α) → Bool
  | [] => false
  | term :: terms => dependsOn flag term || anyDependsOn flag terms

end

end Formula

/-! ### Switches -/

/-- Values with their conditions, in the order in which they are asked. -/
structure Switch (α : Type) where
  cases : List (Formula Flag × α)
  fallback : α

namespace Switch

variable {α : Type}

/-- The value where `lookup` gives the values of the flags. -/
def select (switch : Switch α) (lookup : Flag → Bool) : α :=
  ((switch.cases.find? fun (condition, _) => condition.holds lookup).map Prod.snd).getD
    switch.fallback

/-- The flags that some case reads, in the order of first use. -/
def flags (switch : Switch α) : List Flag :=
  (switch.cases.flatMap fun (condition, _) => condition.occurrences).eraseDups

end Switch

end WidgetStyle
