import WidgetStyle.Flag.Registry
import WidgetStyle.Switch

/-!
# Calls on a registry

A registry may be shared, behind a lock. Each operation is one step then, or two where a name is
first looked for with others reading, and only put into the table, under a second look, if it is not
there. A formula is bound in one step.

What can be asked of a registry while a program runs is a call, and the answer comes with the state
behind it. Names are put into the table by some calls only. A text with a fault puts none of its
names there, and an evaluation does not look at the registry at all. A shared registry takes the
same calls.
-/

namespace WidgetStyle

/-- A registry that several users share, as one of them sees it. -/
structure SharedRegistry where
  table : Registry

namespace SharedRegistry

def empty : SharedRegistry :=
  ⟨.empty⟩

def lookup (shared : SharedRegistry) (name : String) : Option Flag :=
  shared.table.lookup name

def name (shared : SharedRegistry) (flag : Flag) : Option String :=
  shared.table.name flag

def size (shared : SharedRegistry) : Nat :=
  shared.table.size

def snapshot (shared : SharedRegistry) : Registry :=
  shared.table

/-- The handle of a name: the one that is found at the first look, or else the one that the table
gives. -/
def intern (shared : SharedRegistry) (name : String) : Flag × SharedRegistry :=
  match shared.lookup name with
  | some flag => (flag, shared)
  | none =>
    match shared.table.intern name with
    | (flag, table) => (flag, ⟨table⟩)

def parse (shared : SharedRegistry) (text : String) (negate : Bool := false)
    (limit : Nat := Formula.defaultLimit) :
    Except Formula.FaultAt (Formula Flag × SharedRegistry) :=
  match shared.table.parse text negate limit with
  | .error e => .error e
  | .ok (formula, table) => .ok (formula, ⟨table⟩)

end SharedRegistry

/-! ### Calls -/

namespace Registry

/-- What is asked of a registry. -/
inductive Call where
  | intern (name : String)
  | lookup (name : String)
  | name (flag : Flag)
  | size
  | parse (text : String) (negate : Bool) (limit : Nat)
  | evaluate (formula : Formula Flag) (flags : FlagSet)
  | snapshot
deriving Repr

/-- What a registry says to a call. -/
inductive Answer where
  | handle (flag : Flag)
  | found (flag : Option Flag)
  | named (name : Option String)
  | size (size : Nat)
  | read (formula : Except Formula.FaultAt (Formula Flag))
  | truth (value : Bool)
  | table (registry : Registry)

/-- The answer to a call, and the registry behind it. -/
def call (registry : Registry) : Call → Answer × Registry
  | .intern name =>
    match registry.intern name with
    | (flag, registry) => (.handle flag, registry)
  | .lookup name => (.found (registry.lookup name), registry)
  | .name flag => (.named (registry.name flag), registry)
  | .size => (.size registry.size, registry)
  | .parse text negate limit =>
    match registry.parse text negate limit with
    | .error e => (.read (.error e), registry)
    | .ok (formula, registry) => (.read (.ok formula), registry)
  | .evaluate formula flags => (.truth (formula.holds flags.get), registry)
  | .snapshot => (.table registry, registry)

/-- The answers to calls in a row, and the registry behind all of them. -/
def run (registry : Registry) : List Call → List Answer × Registry
  | [] => ([], registry)
  | first :: calls =>
    match registry.call first with
    | (answer, registry) =>
      match registry.run calls with
      | (answers, registry) => (answer :: answers, registry)

end Registry

namespace SharedRegistry

open Registry (Call Answer)

/-- The answer to a call of the only user, and the registry behind it. -/
def call (shared : SharedRegistry) : Call → Answer × SharedRegistry
  | .intern name =>
    match shared.intern name with
    | (flag, shared) => (.handle flag, shared)
  | .lookup name => (.found (shared.lookup name), shared)
  | .name flag => (.named (shared.name flag), shared)
  | .size => (.size shared.size, shared)
  | .parse text negate limit =>
    match shared.parse text negate limit with
    | .error e => (.read (.error e), shared)
    | .ok (formula, shared) => (.read (.ok formula), shared)
  | .evaluate formula flags => (.truth (formula.holds flags.get), shared)
  | .snapshot => (.table shared.snapshot, shared)

/-- The answers to calls in a row of the only user, and the registry behind all of them. -/
def run (shared : SharedRegistry) : List Call → List Answer × SharedRegistry
  | [] => ([], shared)
  | first :: calls =>
    match shared.call first with
    | (answer, shared) =>
      match shared.run calls with
      | (answers, shared) => (answer :: answers, shared)

end SharedRegistry

end WidgetStyle
