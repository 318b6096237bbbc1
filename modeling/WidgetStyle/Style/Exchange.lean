import WidgetStyle.Json.Reading
import WidgetStyle.Number.Reading
import WidgetStyle.Style

/-!
# Exchanging styles

Styles and their parts are written as JSON values and read from them. Numbers are written with the
fewest digits that read back, and an infinite one as null, which is not accepted where a number is
read.
-/

namespace WidgetStyle

open Number (Single Layout)

/-- Numbers in an exchanged text: the fewest digits that read back, with a point even where the
number is whole, positionally from `0.000001` up to thirteen digits before the point; of two
equally near decimals the one with an even last digit. -/
def Number.Layout.exchange : Layout where
  tie := .even
  keepsPoint := true
  positional := some (-5, 13)

def Number.Single.json : Single → Json
  | .finite negative magnitude => .number (Layout.exchange.ofMagnitude negative magnitude)
  | .nan | .infinite _ => .null

def Number.Single.ofJson? : Json → Option Single
  | .number numeral => numeral.exchanged?
  | _ => none

namespace LengthUnit

def name : LengthUnit → String
  | px => "px"
  | percent => "percent"

def ofName? (name : String) : Option LengthUnit :=
  match name with
  | "px" => some px
  | "percent" => some percent
  | _ => none

def json (unit : LengthUnit) : Json :=
  .ofText unit.name

def ofJson? (json : Json) : Option LengthUnit :=
  json.plainChoice?.bind ofName?

end LengthUnit

namespace Dimension

def json (d : Dimension) : Json :=
  .ofFields [("value", d.value.json), ("unit", d.unit.json)]

def ofJson? (json : Json) : Option Dimension :=
  match json.fullRecord? ["value", "unit"] with
  | some [value, unit] =>
    (Single.ofJson? value).bind fun value => (LengthUnit.ofJson? unit).map fun unit => ⟨value, unit⟩
  | _ => none

end Dimension

namespace FontRole

def json (role : FontRole) : Json :=
  .ofText role.name

def ofJson? (json : Json) : Option FontRole :=
  json.plainChoice?.bind ofName?

end FontRole

namespace Size

def json : Size → Json
  | auto => .ofText "auto"
  | length d => .ofFields [("length", d.json)]

def ofJson? (json : Json) : Option Size :=
  match json.choice? with
  | some ("auto", none) | some ("auto", some .null) => some auto
  | some ("length", some value) => (Dimension.ofJson? value).map length
  | _ => none

end Size

namespace Edges

def json (edges : Edges) : Json :=
  .ofFields [("top", edges.top.json), ("right", edges.right.json), ("bottom", edges.bottom.json),
    ("left", edges.left.json)]

def ofJson? (json : Json) : Option Edges :=
  match (json.fullRecord? ["top", "right", "bottom", "left"]).bind fun values =>
      values.mapM Dimension.ofJson? with
  | some [top, right, bottom, left] => some ⟨top, right, bottom, left⟩
  | _ => none

end Edges

namespace Style

def json (style : Style) : Json :=
  .ofFields [("font", style.font.json), ("margin", style.margin.json),
    ("width", style.width.json), ("height", style.height.json)]

def ofJson? (json : Json) : Option Style :=
  match json.fullRecord? ["font", "margin", "width", "height"] with
  | some [font, margin, width, height] =>
    match FontRole.ofJson? font, Edges.ofJson? margin, Size.ofJson? width, Size.ofJson? height with
    | some font, some margin, some width, some height => some ⟨font, margin, width, height⟩
    | _, _, _, _ => none
  | _ => none

end Style

end WidgetStyle
