import WidgetStyle.Sheet

/-!
# The cascade and computed styles

Of all rules that declare an attribute and select a node, the one of the greatest weight wins. A
rule weighs by the highest specificity of its selectors that select the node, then by the place of
its stylesheet, then by its place in the stylesheet, so that of two equally specific rules the
later one wins. The rules may be looked up in the index or gone through one by one. The style of a
node has every attribute of the catalog, resolved in this way.
-/

namespace WidgetStyle

/-- What a rule weighs at a node. -/
structure Weight where
  specificity : Specificity
  sheet : Nat
  order : Nat
deriving DecidableEq, Repr

namespace Weight

/-- Weights are compared lexicographically. -/
instance : LT Weight where
  lt a b := a.specificity < b.specificity ∨ a.specificity = b.specificity ∧
    (a.sheet < b.sheet ∨ a.sheet = b.sheet ∧ a.order < b.order)

instance (a b : Weight) : Decidable (a < b) :=
  inferInstanceAs (Decidable (a.specificity < b.specificity ∨ a.specificity = b.specificity ∧
    (a.sheet < b.sheet ∨ a.sheet = b.sheet ∧ a.order < b.order)))

end Weight

/-- A declared value with the weight of its rule. -/
structure Candidate where
  weight : Weight
  value : Value
deriving DecidableEq, Repr

/-- What a rule of a stylesheet puts forward for an attribute of the last node of a path: nothing,
if it does not declare the attribute or does not select the node. -/
def Rule.candidate? (rule : Rule) (sheet : Nat) (target : Attribute) (path : Path) :
    Option Candidate :=
  (rule.declaration target).bind fun value =>
    (rule.matchingSpecificity path).map fun specificity => ⟨⟨specificity, sheet, rule.order⟩, value⟩

/-- The heavier of the best candidate so far and the next one. -/
def Candidate.better (best : Option Candidate) (next : Candidate) : Option Candidate :=
  match best with
  | none => some next
  | some current => if current.weight < next.weight then some next else some current

/-- The rules of a stylesheet to visit for a path: all of them, or those that the index gives. -/
def Sheet.visited (sheet : Sheet) (indexed : Bool) (path : Path) : List Rule :=
  if indexed then (sheet.candidates path).filterMap fun number => sheet.rules[number]?
  else sheet.rules.toList

/-- What stylesheets put forward, the first of which has the given number. -/
def candidatesFrom (indexed : Bool) (target : Attribute) (path : Path) (number : Nat) :
    List Sheet → List Candidate
  | [] => []
  | sheet :: sheets =>
    ((sheet.visited indexed path).filterMap fun rule => rule.candidate? number target path) ++
      candidatesFrom indexed target path (number + 1) sheets

/-- The winning value of an attribute, if any rule puts one forward. -/
def winner (sheets : List Sheet) (indexed : Bool) (target : Attribute) (path : Path) :
    Option Value :=
  ((candidatesFrom indexed target path 0 sheets).foldl Candidate.better none).map Candidate.value

def Sheet.resolve {α : Type} [StyleValue α] (sheet : Sheet) (descriptor : Descriptor α)
    (path : Path) : α :=
  descriptor.typed (winner [sheet] true descriptor.target path)

/-- Stylesheets in the order of the cascade. -/
structure Resolver where
  sheets : List Sheet
  indexed : Bool := true

namespace Resolver

def empty : Resolver :=
  ⟨[], true⟩

/-- The resolver with one more stylesheet, which comes behind all others. -/
def add (resolver : Resolver) (sheet : Sheet) : Resolver :=
  { resolver with sheets := resolver.sheets ++ [sheet] }

/-- The winning declared value of an attribute for the last node of a path. -/
def winning (resolver : Resolver) (target : Attribute) (path : Path) : Option Value :=
  winner resolver.sheets resolver.indexed target path

def resolve {α : Type} [StyleValue α] (resolver : Resolver) (descriptor : Descriptor α)
    (path : Path) : α :=
  descriptor.typed (resolver.winning descriptor.target path)

end Resolver

/-! ### Computed styles -/

/-- The margins on the four sides. -/
structure Edges where
  top : Dimension
  right : Dimension
  bottom : Dimension
  left : Dimension
deriving DecidableEq, Repr

namespace Edges

def zero : Edges := ⟨.zero, .zero, .zero, .zero⟩

/-- Equal margins on each side. -/
def equals (a b : Edges) : Bool :=
  a.top.equals b.top && a.right.equals b.right && a.bottom.equals b.bottom && a.left.equals b.left

end Edges

structure Style where
  font : FontRole
  margin : Edges
  width : Size
  height : Size
deriving DecidableEq, Repr

namespace Style

def initial : Style where
  font := Descriptor.font.initial
  margin :=
    { top := Descriptor.marginTop.initial
      right := Descriptor.marginRight.initial
      bottom := Descriptor.marginBottom.initial
      left := Descriptor.marginLeft.initial }
  width := Descriptor.width.initial
  height := Descriptor.height.initial

/-- One font, equal margins and equal sizes. -/
def equals (a b : Style) : Bool :=
  a.font == b.font && a.margin.equals b.margin && a.width.equals b.width &&
    a.height.equals b.height

end Style

def Resolver.style (resolver : Resolver) (path : Path) : Style where
  font := resolver.resolve .font path
  margin :=
    { top := resolver.resolve .marginTop path
      right := resolver.resolve .marginRight path
      bottom := resolver.resolve .marginBottom path
      left := resolver.resolve .marginLeft path }
  width := resolver.resolve .width path
  height := resolver.resolve .height path

end WidgetStyle
