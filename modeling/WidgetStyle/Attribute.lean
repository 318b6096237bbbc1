import WidgetStyle.Value

/-!
# The attribute catalog

The closed set of attributes that a stylesheet may declare, with the type of each, the values it
accepts, and the value it has where no rule declares it. A type of attribute values is known by
how it reads a declared value; an attribute accepts what its type can read.
-/

namespace WidgetStyle

inductive Attribute where
  | font
  | marginLeft
  | marginRight
  | marginTop
  | marginBottom
  | width
  | height
deriving DecidableEq, Repr

namespace Attribute

/-- Every attribute, in the order of the catalog. -/
def all : List Attribute :=
  [font, marginLeft, marginRight, marginTop, marginBottom, width, height]

def name : Attribute → String
  | font => "font"
  | marginLeft => "margin-left"
  | marginRight => "margin-right"
  | marginTop => "margin-top"
  | marginBottom => "margin-bottom"
  | width => "width"
  | height => "height"

/-- The attribute with this name; names are case-sensitive. -/
def ofName? (name : String) : Option Attribute :=
  all.find? fun candidate => candidate.name == name

end Attribute

/-- A type of attribute values: how a declared value is read, if it lies in the type. -/
class StyleValue (α : Type) where
  ofValue? : Value → Option α

inductive FontRole where
  | default
  | link
  | heading
  | monospace
deriving DecidableEq, Repr

namespace FontRole

def all : List FontRole :=
  [default, link, heading, monospace]

def name : FontRole → String
  | default => "default"
  | link => "link"
  | heading => "heading"
  | monospace => "monospace"

/-- The role with this keyword; keywords are case-sensitive. -/
def ofName? (name : String) : Option FontRole :=
  all.find? fun role => role.name == name

end FontRole

/-- A length that may also be left to the layout. -/
inductive Size where
  | auto
  | length (d : Dimension)
deriving DecidableEq, Repr

namespace Size

def text : Size → String
  | auto => "auto"
  | length d => d.text

/-- Both `auto`, or equal lengths. -/
def equals : Size → Size → Bool
  | auto, auto => true
  | length a, length b => a.equals b
  | auto, length _ | length _, auto => false

end Size

instance : StyleValue FontRole where
  ofValue? value := value.keyword?.bind FontRole.ofName?

instance : StyleValue Dimension where
  ofValue? := Value.dimension?

instance : StyleValue Size where
  ofValue?
    | .auto => some .auto
    | value => value.dimension?.map .length

/-- Whether a declared value lies in the type of an attribute. -/
def Attribute.accepts (target : Attribute) (value : Value) : Bool :=
  match target with
  | .font => (StyleValue.ofValue? value : Option FontRole).isSome
  | .marginLeft | .marginRight | .marginTop | .marginBottom =>
    (StyleValue.ofValue? value : Option Dimension).isSome
  | .width | .height => (StyleValue.ofValue? value : Option Size).isSome

/-- An attribute with a type for its values and the value it starts from. -/
structure Descriptor (α : Type) where
  target : Attribute
  initial : α
deriving DecidableEq, Repr

namespace Descriptor

/-- The typed value of a winning declaration, or the initial value where no declaration won or the
declared value does not lie in the type. -/
def typed {α : Type} [StyleValue α] (descriptor : Descriptor α) (winning : Option Value) : α :=
  (winning.bind StyleValue.ofValue?).getD descriptor.initial

def font : Descriptor FontRole := ⟨.font, .default⟩

def marginLeft : Descriptor Dimension := ⟨.marginLeft, .zero⟩

def marginRight : Descriptor Dimension := ⟨.marginRight, .zero⟩

def marginTop : Descriptor Dimension := ⟨.marginTop, .zero⟩

def marginBottom : Descriptor Dimension := ⟨.marginBottom, .zero⟩

def width : Descriptor Size := ⟨.width, .auto⟩

def height : Descriptor Size := ⟨.height, .auto⟩

end Descriptor

end WidgetStyle
