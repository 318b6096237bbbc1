import WidgetStyle.Proofs.Domain
import WidgetStyle.Proofs.JsonText
import WidgetStyle.Proofs.Overflow

/-!
# Exchanged styles are read back

What is written for a style is read as that style, if all of its numbers are finite: the fields of
a record are found by their names, a choice by its name, and a number by its numeral. An infinite
number has no numeral, and a style with one is not read at all.
-/

namespace WidgetStyle

open Number (Single Layout)

/-! ### Fields and choices -/

namespace Json

theorem textOf?_partsOf (text : String) : textOf? (partsOf text) = some text := by
  have hcharacters (cs : List Char) : characters? (cs.map .char) = some cs := by
    induction cs with
    | nil => rfl
    | cons c cs ih => rw [List.map_cons, characters?, ih, Option.map_some]
  rw [textOf?, partsOf, hcharacters, Option.map_some, String.ofList_toList]

theorem plainChoice?_ofText (text : String) : (ofText text).plainChoice? = some text := by
  rw [ofText, plainChoice?, choice?, textOf?_partsOf]
  rfl

theorem members?_ofFields (fields : List (String × Json)) :
    members? (fields.map fun (name, value) => (partsOf name, value)) = some fields := by
  induction fields with
  | nil => rfl
  | cons field fields ih => rw [List.map_cons, members?, textOf?_partsOf, ih]

theorem field?_of_mem {name : String} {value : Json} {fields : List (String × Json)}
    (hdistinct : (fields.map Prod.fst).Nodup) (hfield : (name, value) ∈ fields) :
    field? name fields = some (some value) := by
  have hfilter : (fields.filter fun (key, _) => key == name) = [(name, value)] := by
    induction fields with
    | nil => cases hfield
    | cons field fields ih =>
      rw [List.map_cons, List.nodup_cons] at hdistinct
      rcases List.mem_cons.mp hfield with rfl | hfield
      · have hnone : (fields.filter fun (key, _) => key == name) = [] := by
          rw [List.filter_eq_nil_iff]
          intro other hother hname
          exact hdistinct.1 (List.mem_map.mpr ⟨other, hother, beq_iff_eq.mp hname⟩)
        rw [List.filter_cons_of_pos, hnone]
        exact beq_self_eq_true name
      · have hother : field.1 ≠ name := by
          rintro rfl
          exact hdistinct.1 (List.mem_map.mpr ⟨_, hfield, rfl⟩)
        rw [List.filter_cons_of_neg (by simpa using hother), ih hdistinct.2 hfield]
  rw [field?, hfilter]

theorem mapM_eq_some {α β : Type} {f : α → Option β} {g : α → β} {list : List α}
    (hsome : ∀ a ∈ list, f a = some (g a)) : list.mapM f = some (list.map g) := by
  induction list with
  | nil => rfl
  | cons a list ih =>
    rw [List.forall_mem_cons] at hsome
    rw [List.mapM_cons, hsome.1, ih hsome.2]
    rfl

/-- The fields of a record as it is written. -/
theorem fullRecord?_ofFields {fields : List (String × Json)}
    (hdistinct : (fields.map Prod.fst).Nodup) :
    (ofFields fields).fullRecord? (fields.map Prod.fst) = some (fields.map Prod.snd) := by
  have hrecord : (ofFields fields).record? (fields.map Prod.fst) =
      some (fields.map fun field => some field.2) := by
    rw [ofFields, record?, members?_ofFields, Option.bind_some, List.mapM_map]
    exact mapM_eq_some fun field hfield => field?_of_mem hdistinct hfield
  rw [fullRecord?, hrecord, Option.bind_some, List.mapM_map]
  exact mapM_eq_some fun field _ => rfl

theorem proper_partsOf (text : String) : ∀ part ∈ partsOf text, part.Proper := by
  intro part hpart
  obtain ⟨c, -, rfl⟩ := List.mem_map.mp hpart
  exact .char c

theorem proper_ofText (text : String) : (ofText text).Proper :=
  .string (proper_partsOf text)

theorem proper_ofFields {fields : List (String × Json)}
    (hvalues : ∀ field ∈ fields, field.2.Proper) : (ofFields fields).Proper := by
  refine .object ?_ ?_
  · intro member hmember
    obtain ⟨field, -, rfl⟩ := List.mem_map.mp hmember
    exact proper_partsOf field.1
  · intro member hmember
    obtain ⟨field, hfield, rfl⟩ := List.mem_map.mp hmember
    exact hvalues field hfield

end Json

/-! ### Styles -/

namespace Number.Single

theorem ofJson?_json (number : Single) :
    ofJson? number.json = if number.isFinite then some number else none := by
  cases number with
  | nan => rfl
  | infinite negative => rfl
  | finite negative magnitude => exact exchanged?_ofMagnitude negative magnitude

theorem proper_json (number : Single) : number.json.Proper := by
  cases number with
  | nan => exact .null
  | infinite negative => exact .null
  | finite negative magnitude =>
    obtain ⟨digits, power, hwrites⟩ := exists_writes negative magnitude
    exact .number hwrites.proper

end Number.Single

namespace LengthUnit

theorem ofJson?_json (unit : LengthUnit) : ofJson? unit.json = some unit := by
  rw [ofJson?, json, Json.plainChoice?_ofText]
  cases unit <;> rfl

end LengthUnit

namespace FontRole

theorem ofJson?_json (role : FontRole) : ofJson? role.json = some role := by
  rw [ofJson?, json, Json.plainChoice?_ofText, Option.bind_some]
  exact ofName?_eq_some_iff.mpr rfl

end FontRole

namespace Dimension

/-- A dimension with a finite number. -/
def isFinite (d : Dimension) : Bool :=
  d.value.isFinite

theorem ofJson?_json (d : Dimension) :
    ofJson? d.json = if d.isFinite then some d else none := by
  have hfields : d.json.fullRecord? ["value", "unit"] = some [d.value.json, d.unit.json] :=
    Json.fullRecord?_ofFields (show ["value", "unit"].Nodup by decide)
  rw [ofJson?, hfields]
  by_cases hfinite : d.value.isFinite = true
  · simp [Single.ofJson?_json, LengthUnit.ofJson?_json, isFinite, hfinite]
  · simp [Single.ofJson?_json, isFinite, hfinite]

/-- In a row of dimensions all have to be read. -/
theorem mapM_ofJson?_json (list : List Dimension) :
    (list.map json).mapM ofJson? = if list.all isFinite then some list else none := by
  induction list with
  | nil => rfl
  | cons d list ih =>
    rw [List.map_cons, List.mapM_cons, ofJson?_json, ih, List.all_cons]
    by_cases hfirst : d.isFinite = true
    · by_cases hrest : list.all isFinite = true
      · simp [hfirst, hrest]
      · simp [hfirst, hrest]
    · simp [hfirst]

theorem proper_json (d : Dimension) : d.json.Proper := by
  apply Json.proper_ofFields
  simp only [List.forall_mem_cons]
  exact ⟨d.value.proper_json, Json.proper_ofText _, List.forall_mem_nil _⟩

end Dimension

namespace Size

def dimensions : Size → List Dimension
  | auto => []
  | length d => [d]

theorem ofJson?_json (size : Size) :
    ofJson? size.json = if size.dimensions.all Dimension.isFinite then some size else none := by
  cases size with
  | auto => rfl
  | length d =>
    have hchoice : (length d).json.choice? = some ("length", some d.json) := by
      simp only [json, Json.ofFields, List.map_cons, List.map_nil, Json.choice?,
        Json.textOf?_partsOf, Option.map_some]
    rw [ofJson?, hchoice]
    by_cases hfinite : d.isFinite = true
    · simp [Dimension.ofJson?_json, dimensions, hfinite]
    · simp [Dimension.ofJson?_json, dimensions, hfinite]

theorem proper_json (size : Size) : size.json.Proper := by
  cases size with
  | auto => exact Json.proper_ofText _
  | length d =>
    apply Json.proper_ofFields
    simp only [List.forall_mem_cons]
    exact ⟨d.proper_json, List.forall_mem_nil _⟩

end Size

namespace Edges

def dimensions (edges : Edges) : List Dimension :=
  [edges.top, edges.right, edges.bottom, edges.left]

theorem ofJson?_json (edges : Edges) :
    ofJson? edges.json = if edges.dimensions.all Dimension.isFinite then some edges else none := by
  have hfields : edges.json.fullRecord? ["top", "right", "bottom", "left"] =
      some (edges.dimensions.map Dimension.json) :=
    Json.fullRecord?_ofFields (show ["top", "right", "bottom", "left"].Nodup by decide)
  rw [ofJson?, hfields, Option.bind_some, Dimension.mapM_ofJson?_json]
  by_cases hfinite : edges.dimensions.all Dimension.isFinite = true
  · rw [if_pos hfinite, if_pos hfinite]
    rfl
  · rw [if_neg hfinite, if_neg hfinite]

theorem proper_json (edges : Edges) : edges.json.Proper := by
  apply Json.proper_ofFields
  simp only [List.forall_mem_cons]
  exact ⟨edges.top.proper_json, edges.right.proper_json, edges.bottom.proper_json,
    edges.left.proper_json, List.forall_mem_nil _⟩

end Edges

namespace Style

/-- The dimensions of a style, of its margin, its width and its height. -/
def dimensions (style : Style) : List Dimension :=
  style.margin.dimensions ++ style.width.dimensions ++ style.height.dimensions

theorem ofJson?_json (style : Style) :
    ofJson? style.json = if style.dimensions.all Dimension.isFinite then some style else none := by
  have hfields : style.json.fullRecord? ["font", "margin", "width", "height"] =
      some [style.font.json, style.margin.json, style.width.json, style.height.json] :=
    Json.fullRecord?_ofFields (show ["font", "margin", "width", "height"].Nodup by decide)
  rw [ofJson?, hfields]
  simp only [FontRole.ofJson?_json, Edges.ofJson?_json, Size.ofJson?_json, dimensions,
    List.all_append]
  by_cases hmargin : style.margin.dimensions.all Dimension.isFinite = true
  · by_cases hwidth : style.width.dimensions.all Dimension.isFinite = true
    · by_cases hheight : style.height.dimensions.all Dimension.isFinite = true
      · simp [hmargin, hwidth, hheight]
      · simp [hmargin, hwidth, hheight]
    · simp [hmargin, hwidth]
  · simp [hmargin]

theorem proper_json (style : Style) : style.json.Proper := by
  apply Json.proper_ofFields
  simp only [List.forall_mem_cons]
  exact ⟨Json.proper_ofText _, style.margin.proper_json, style.width.proper_json,
    style.height.proper_json, List.forall_mem_nil _⟩

/-- A style that was read from the text that another one has been written to. -/
def exchange? (style : Style) : Option Style :=
  (Json.ofText? style.json.text).bind ofJson?

/-- **Exchanging a style** gives the same style, or nothing if one of its numbers is not finite. -/
theorem exchange?_eq (style : Style) :
    style.exchange? = if style.dimensions.all Dimension.isFinite then some style else none := by
  rw [exchange?, Json.ofText?_text style.proper_json, Option.bind_some, ofJson?_json]

end Style

end WidgetStyle
