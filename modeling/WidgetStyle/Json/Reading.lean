import WidgetStyle.Json.Token

/-!
# Reading JSON texts

The tokens of a text are read one after the other. What has been read at any moment is the part of
a value, inside of arrays and objects that wait for it. Nesting is not limited.

A value is then taken for what it stands for. A record is an object with its fields in any order, or
an array with the fields in their order. In an object other members are ignored, and a field that
occurs twice is refused. A choice is a string with the name of the alternative, or an object with
the name as its only key.
-/

namespace WidgetStyle.Json

/-- An array or object that waits for a value, with what it has already. -/
inductive Waiting where
  | array (items : List Json)
  | object (members : List (List Part × Json)) (key : List Part)
deriving Repr

/-- All that has been read, by what may come next. Where a value or key is the `first` of its
container, the closing mark may come in its place. -/
inductive Progress where
  | value (waiting : List Waiting) (first : Bool)
  | key (waiting : List Waiting) (members : List (List Part × Json)) (first : Bool)
  | colon (waiting : List Waiting) (members : List (List Part × Json)) (key : List Part)
  | behindItem (waiting : List Waiting) (items : List Json)
  | behindMember (waiting : List Waiting) (members : List (List Part × Json))
  | done (value : Json)
deriving Repr

namespace Progress

/-- The progress when a value is complete. -/
def complete : List Waiting → Json → Progress
  | [], json => .done json
  | .array items :: waiting, json => .behindItem waiting (items ++ [json])
  | .object members name :: waiting, json => .behindMember waiting (members ++ [(name, json)])

def read : Progress → Token → Option Progress
  | .value waiting _, .scalar json => some (complete waiting json)
  | .value waiting _, .openArray => some (.value (.array [] :: waiting) true)
  | .value waiting _, .openObject => some (.key waiting [] true)
  | .value (.array _ :: waiting) true, .closeArray => some (complete waiting (.array []))
  | .key waiting members _, .scalar (.string name) => some (.colon waiting members name)
  | .key waiting _ true, .closeObject => some (complete waiting (.object []))
  | .colon waiting members name, .colon => some (.value (.object members name :: waiting) false)
  | .behindItem waiting items, .comma => some (.value (.array items :: waiting) false)
  | .behindItem waiting items, .closeArray => some (complete waiting (.array items))
  | .behindMember waiting members, .comma => some (.key waiting members false)
  | .behindMember waiting members, .closeObject => some (complete waiting (.object members))
  | _, _ => none

def readAll (progress : Progress) : List Token → Option Progress
  | [] => some progress
  | token :: tokens =>
    match progress.read token with
    | none => none
    | some progress => progress.readAll tokens

end Progress

def ofTokens? (tokens : List Token) : Option Json :=
  match Progress.readAll (.value [] false) tokens with
  | some (.done value) => some value
  | _ => none

def ofText? (text : String) : Option Json :=
  (tokens text.toList).bind ofTokens?

/-! ### Shapes -/

/-- The texts of the keys of an object, with their values; none if some key has no text. -/
def members? : List (List Part × Json) → Option (List (String × Json))
  | [] => some []
  | (key, value) :: members =>
    match textOf? key, members? members with
    | some key, some members => some ((key, value) :: members)
    | _, _ => none

/-- The value of a field: the outer none where it occurs twice, the inner one where it is
missing. -/
def field? (name : String) (members : List (String × Json)) : Option (Option Json) :=
  match members.filter fun (key, _) => key == name with
  | [] => some none
  | [(_, value)] => some (some value)
  | _ => none

/-- The values of the fields of a record, as far as they are present. -/
def record? (names : List String) : Json → Option (List (Option Json))
  | object members =>
    (members? members).bind fun members => names.mapM fun name => field? name members
  | array items =>
    if items.length ≤ names.length then
      some (items.map some ++ List.replicate (names.length - items.length) none)
    else none
  | _ => none

/-- The values of the fields of a record that has all of them. -/
def fullRecord? (names : List String) (json : Json) : Option (List Json) :=
  (record? names json).bind fun values => values.mapM id

/-- The name of a choice, with its value if it has one. -/
def choice? : Json → Option (String × Option Json)
  | string name => (textOf? name).map fun name => (name, none)
  | object [(name, value)] => (textOf? name).map fun name => (name, some value)
  | _ => none

/-- The name of a choice that has no value. -/
def plainChoice? (json : Json) : Option String :=
  match choice? json with
  | some (name, none) | some (name, some null) => some name
  | _ => none

def bool? : Json → Option Bool
  | bool value => some value
  | _ => none

end WidgetStyle.Json
