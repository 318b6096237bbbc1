import Std.Data.TreeMap
import WidgetStyle.Flag
import WidgetStyle.Formula.Reading

/-!
# Flag registries

A registry gives each flag name a handle: the place of the name in a table that only grows. The
table keeps the names in the order in which they came, and a map leads from a name to its handle.

Binding gives the names in a formula their handles, in the order of the text. A text is bound only
after it has been read to its end, so that one with a fault leaves the registry as it was.
-/

namespace WidgetStyle

structure Registry where
  names : Array String
  handles : Std.TreeMap String Flag

namespace Registry

def empty : Registry :=
  ⟨#[], ∅⟩

def lookup (registry : Registry) (name : String) : Option Flag :=
  registry.handles[name]?

def name (registry : Registry) (flag : Flag) : Option String :=
  registry.names[flag.place]?

def size (registry : Registry) : Nat :=
  registry.names.size

/-- The handle of a name, and the registry in which it has one: a name that is not yet in the
table is put at its end. -/
def intern (registry : Registry) (name : String) : Flag × Registry :=
  match registry.lookup name with
  | some flag => (flag, registry)
  | none =>
    let flag := Flag.ofPlace registry.size
    (flag, ⟨registry.names.push name, registry.handles.insert name flag⟩)

def internAll (registry : Registry) : List String → List Flag × Registry
  | [] => ([], registry)
  | name :: names =>
    match registry.intern name with
    | (flag, registry) =>
      match registry.internAll names with
      | (flags, registry) => (flag :: flags, registry)

/-- The registry of some names, repeated ones left out. -/
def ofNames (names : List String) : Registry :=
  (empty.internAll names).2

/-- The name of a flag, or a text with its number where it has none. -/
def label (registry : Registry) (flag : Flag) : String :=
  (registry.name flag).getD flag.text

end Registry

/-! ### Formulas over handles -/

namespace Formula

mutual

/-- The formula over handles, and the registry that has all of its names. -/
def bind (registry : Registry) : Formula String → Formula Flag × Registry
  | leaf name negated =>
    match registry.intern name with
    | (flag, registry) => (leaf flag negated, registry)
  | run operator terms =>
    match bindAll registry terms with
    | (terms, registry) => (run operator terms, registry)
  | not inner =>
    match bind registry inner with
    | (inner, registry) => (not inner, registry)

/-- The terms of a run over handles, and the registry that has all of their names. -/
def bindAll (registry : Registry) : List (Formula String) → List (Formula Flag) × Registry
  | [] => ([], registry)
  | term :: terms =>
    match bind registry term with
    | (term, registry) =>
      match bindAll registry terms with
      | (terms, registry) => (term :: terms, registry)

end

def textIn (registry : Registry) (formula : Formula Flag) : String :=
  (formula.map registry.label).text

end Formula

namespace Registry

/-- Read a formula text, negated as a whole where `negate` is set, and give its names handles. -/
def parse (registry : Registry) (text : String) (negate : Bool := false)
    (limit : Nat := Formula.defaultLimit) : Except Formula.FaultAt (Formula Flag × Registry) :=
  match Formula.parse text limit with
  | .error e => .error e
  | .ok named =>
    match named.bind registry with
    | (formula, registry) => .ok (if negate then .not formula else formula, registry)

end Registry

end WidgetStyle
