import Std.Data.TreeMap
import WidgetStyle.Attribute
import WidgetStyle.Selector.Matching

/-!
# Rules and their index

A rule gives values to attributes of the nodes that its selectors select. Its selectors are
alternatives: a rule weighs on a node as much as the weightiest of those that select it.

The index files each rule under the most selective part of the subject of each of its selectors.
A node looks under its own parts only, and finds every rule that could select it: a chain selects
nothing but nodes that have all parts of its subject, so also the one it is filed under.
-/

namespace WidgetStyle

structure Declaration where
  target : Attribute
  value : Value
deriving DecidableEq, Repr

/-- Selector alternatives with one block of declarations. `order` is the place of the rule in its
stylesheet. -/
structure Rule where
  selectors : List Chain
  declarations : List Declaration
  order : Nat
deriving DecidableEq, Repr

namespace Rule

def declaration (rule : Rule) (target : Attribute) : Option Value :=
  (rule.declarations.find? fun declared => declared.target == target).map Declaration.value

/-- The highest specificity among the selectors that select the last node of the path. -/
def matchingSpecificity (rule : Rule) (path : Path) : Option Specificity :=
  ((rule.selectors.filter fun chain => chain.selects path).map Chain.specificity).max?

end Rule

/-! ### The index -/

/-- The part of a subject under which a rule is filed. -/
inductive Key where
  | any
  | element (name : String)
  | className (name : String)
  | id (name : String)
deriving DecidableEq, Repr

namespace Key

def rank : Key → Nat
  | any => 0
  | element _ => 1
  | className _ => 2
  | id _ => 3

def name : Key → String
  | any => ""
  | element name | className name | id name => name

/-- Keys are in order by rank, then by name. -/
protected def compare : Key → Key → Ordering :=
  compareLex (compareOn rank) (compareOn name)

instance : Std.TransCmp Key.compare :=
  inferInstanceAs (Std.TransCmp (compareLex (compareOn rank) (compareOn name)))

instance : Std.LawfulEqCmp Key.compare where
  eq_of_compare {a b} same := by
    simp only [Key.compare, compareLex, compareOn, Ordering.then_eq_eq,
      Std.LawfulEqOrd.compare_eq_iff_eq] at same
    cases a <;> cases b <;> simp_all [rank, name]

end Key

/-- The most selective part of a selector. -/
def SimpleSelector.key (selector : SimpleSelector) : Key :=
  match selector.id, selector.className, selector.element with
  | some name, _, _ => .id name
  | none, some name, _ => .className name
  | none, none, some name => .element name
  | none, none, none => .any

/-- The keys under which a node looks. -/
def Node.keys (node : Node) : List Key :=
  [.any, .element node.element] ++ (node.className.map Key.className).toList ++
    (node.id.map Key.id).toList

/-- For each key the numbers of the rules filed under it, in ascending order. -/
structure Index where
  buckets : Std.TreeMap Key (List Nat) Key.compare

namespace Index

def empty : Index := ⟨∅⟩

def bucket (index : Index) (key : Key) : List Nat :=
  index.buckets.getD key []

/-- A number in front of a list, unless it stands there already. -/
def lead (number : Nat) (list : List Nat) : List Nat :=
  if list.head? = some number then list else number :: list

/-- File a rule, whose number is below those filed before, under a key. Several selectors of one
rule may have the same key. -/
def file (number : Nat) (index : Index) (key : Key) : Index :=
  ⟨index.buckets.insert key (lead number (index.bucket key))⟩

/-- The index of a list of rules, the first of which has the given number. -/
def ofRulesFrom (number : Nat) : List Rule → Index
  | [] => empty
  | rule :: rules =>
    (rule.selectors.map fun chain => chain.subject.key).foldl (file number)
      (ofRulesFrom (number + 1) rules)

def ofRules (rules : List Rule) : Index :=
  ofRulesFrom 0 rules

/-- The members of two ascending lists, ascending and each of them once. -/
def union : List Nat → List Nat → List Nat
  | [], ys => ys
  | xs, [] => xs
  | x :: xs, y :: ys =>
    if x < y then x :: union xs (y :: ys)
    else if y < x then y :: union (x :: xs) ys
    else x :: union xs ys
termination_by xs ys => xs.length + ys.length

/-- The numbers of the rules that could select a node, in ascending order. -/
def candidates (index : Index) (node : Node) : List Nat :=
  node.keys.foldl (fun found key => union found (index.bucket key)) []

end Index

end WidgetStyle
