/-!
# Selectors

A node of the widget tree has an element name and perhaps a class and an id. A simple selector
names some of the three; a chain is a row of simple selectors joined by combinators, read from the
root towards the node. Chains grow to the right, so the last selector, which the node itself has
to fit, is the one on the outside.

The specificity of a chain counts the ids, classes and element names in it, in 32-bit words, and
specificities are ordered lexicographically.
-/

namespace WidgetStyle

/-- An element name with an optional class and an optional id behind it. -/
def qualified (element : String) (className id : Option String) : String :=
  element ++ (className.elim "" fun name => "." ++ name) ++ (id.elim "" fun name => "#" ++ name)

/-- A node of the widget tree, as selectors see it. -/
structure Node where
  element : String
  className : Option String
  id : Option String
deriving DecidableEq, Repr

def Node.text (node : Node) : String :=
  qualified node.element node.className node.id

/-- The nodes from the root down to one node of the tree, which comes last. -/
abbrev Path := List Node

/-! ### Specificity -/

/-- How many ids, classes and element names a selector has. -/
structure Specificity where
  ids : UInt32
  classes : UInt32
  elements : UInt32
deriving DecidableEq, Repr

namespace Specificity

def zero : Specificity := ⟨0, 0, 0⟩

def add (a b : Specificity) : Specificity :=
  ⟨a.ids + b.ids, a.classes + b.classes, a.elements + b.elements⟩

/-- Ids weigh more than any number of classes, and classes more than any number of elements. -/
instance : LT Specificity where
  lt a b := a.ids < b.ids ∨ a.ids = b.ids ∧
    (a.classes < b.classes ∨ a.classes = b.classes ∧ a.elements < b.elements)

instance (a b : Specificity) : Decidable (a < b) :=
  inferInstanceAs (Decidable (a.ids < b.ids ∨ a.ids = b.ids ∧
    (a.classes < b.classes ∨ a.classes = b.classes ∧ a.elements < b.elements)))

instance : Ord Specificity where
  compare a b := compareOfLessAndEq a b

instance : Max Specificity where
  max a b := if a < b then b else a

def sum (list : List Specificity) : Specificity :=
  list.foldl add zero

def sort (list : List Specificity) : List Specificity :=
  list.mergeSort fun a b => !decide (b < a)

end Specificity

/-! ### Simple selectors -/

/-- The parts of a node that a selector names. -/
structure SimpleSelector where
  element : Option String
  className : Option String
  id : Option String
deriving DecidableEq, Repr

namespace SimpleSelector

def any : SimpleSelector := ⟨none, none, none⟩

/-- Whether the node has every part that the selector names. -/
def selects (selector : SimpleSelector) (node : Node) : Bool :=
  (selector.element.all fun name => node.element == name) &&
  (selector.className.all fun name => node.className == some name) &&
  (selector.id.all fun name => node.id == some name)

def specificity (selector : SimpleSelector) : Specificity where
  ids := if selector.id.isSome then 1 else 0
  classes := if selector.className.isSome then 1 else 0
  elements := if selector.element.isSome then 1 else 0

/-- The text of a selector: a star where no element is named. -/
def text (selector : SimpleSelector) : String :=
  qualified (selector.element.getD "*") selector.className selector.id

end SimpleSelector

/-! ### Chains -/

/-- How far above a node the node for the selector on the left may be. -/
inductive Combinator where
  | descendant
  | child
deriving DecidableEq, Repr

def Combinator.text : Combinator → String
  | descendant => " "
  | child => " > "

/-- Simple selectors joined by combinators; the outermost selector is the last one. -/
inductive Chain where
  | single (selector : SimpleSelector)
  | extend (left : Chain) (combinator : Combinator) (selector : SimpleSelector)
deriving DecidableEq, Repr

/-- A selector with the combinator on its left. -/
structure Link where
  combinator : Combinator
  selector : SimpleSelector
deriving DecidableEq, Repr

namespace Chain

def length : Chain → Nat
  | single _ => 1
  | extend left _ _ => left.length + 1

/-- The selector that the node itself has to fit. -/
def subject : Chain → SimpleSelector
  | single selector => selector
  | extend _ _ selector => selector

def specificity : Chain → Specificity
  | single selector => selector.specificity
  | extend left _ selector => left.specificity.add selector.specificity

/-- The links from left to right; the first one has nothing on its left and counts as a
descendant. -/
def links : Chain → List Link
  | single selector => [⟨.descendant, selector⟩]
  | extend left combinator selector => left.links ++ [⟨combinator, selector⟩]

def text : Chain → String
  | single selector => selector.text
  | extend left combinator selector => left.text ++ combinator.text ++ selector.text

end Chain

end WidgetStyle
