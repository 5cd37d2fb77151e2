import Offside.Json.Quoted

/-!
# JSON values

The values that templates and compiled nodes are written as. Objects keep the order of their
fields. There are two renderings: `compact` has no white space at all, `pretty` puts every item on a
line of its own, two columns deeper than what holds it.
-/

set_option autoImplicit false

namespace Offside

/-- A JSON value; the only numbers are line numbers. -/
inductive Json where
  | bool (b : Bool)
  | num (n : Nat)
  | str (s : String)
  | arr (items : List Json)
  | obj (fields : List (String × Json))

namespace Json

/-- A field that is left out when there is no value for it. -/
def field? (name : String) : Option Json → List (String × Json)
  | none => []
  | some v => [(name, v)]

/-- A string, if there is one. -/
def str? (s : Option String) : Option Json :=
  s.map .str

/-! ## Compact -/

mutual
/-- The value without any white space. -/
def compact : Json → String
  | .bool true => "true"
  | .bool false => "false"
  | .num n => n.repr
  | .str s => quote s
  | .arr items => "[" ++ ",".intercalate (compactItems items) ++ "]"
  | .obj fields => "\x7b" ++ ",".intercalate (compactFields fields) ++ "\x7d"

/-- The items of an array, each by itself. -/
def compactItems : List Json → List String
  | [] => []
  | v :: rest => compact v :: compactItems rest

/-- The fields of an object, each by itself. -/
def compactFields : List (String × Json) → List String
  | [] => []
  | (k, v) :: rest => (quote k ++ ":" ++ compact v) :: compactFields rest
end

/-! ## Pretty -/

/-- The indentation of a line at `depth`. -/
def pad (depth : Nat) : String :=
  String.ofList (List.replicate (2 * depth) ' ')

mutual
/-- The value over several lines, when it stands at `depth`. -/
def prettyAt (depth : Nat) : Json → String
  | .bool true => "true"
  | .bool false => "false"
  | .num n => n.repr
  | .str s => quote s
  | .arr [] => "[]"
  | .arr items =>
    "[\n" ++ ",\n".intercalate (prettyItems (depth + 1) items) ++ "\n" ++ pad depth ++ "]"
  | .obj [] => "\x7b\x7d"
  | .obj fields =>
    "\x7b\n" ++ ",\n".intercalate (prettyFields (depth + 1) fields) ++ "\n" ++ pad depth ++ "\x7d"

/-- The items of an array, each on lines of its own. -/
def prettyItems (depth : Nat) : List Json → List String
  | [] => []
  | v :: rest => (pad depth ++ prettyAt depth v) :: prettyItems depth rest

/-- The fields of an object, each on lines of its own. -/
def prettyFields (depth : Nat) : List (String × Json) → List String
  | [] => []
  | (k, v) :: rest => (pad depth ++ quote k ++ ": " ++ prettyAt depth v) :: prettyFields depth rest
end

/-- The value over several lines. -/
def pretty (v : Json) : String :=
  prettyAt 0 v

/-- The value in the rendering asked for. -/
def render (spread : Bool) (v : Json) : String :=
  if spread then pretty v else compact v

end Json

end Offside
