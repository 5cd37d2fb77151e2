import Offside.IR.Node
import Offside.Json.Quoted

/-!
# Listings

A listing renders nodes back into template source, as an expression for the runtime and not as the
text itself: every piece of text is a string literal, every dynamic value is wrapped in
`JSON.stringify(…)`, and the pieces are added up. Evaluating the expression gives source text into
which the values of that moment are written.

    tag          "  " + "name(" + props + ")\n" + children one level deeper
    expression   "  " + "= " + JSON.stringify(expr)
    statement    "  " + "import " + "text"        (export and var alike)
    text         "  " + "| " + literal

Other nodes, content in props and empty pieces are left out.
-/

set_option autoImplicit false

namespace Offside.IR

open Json

/-- Two pieces of an expression in a row. -/
def plus : String := " + "

/-- A line break between two pieces. -/
def plusNewline : String := " + \"\\n\" + "

/-- A space between two pieces. -/
def plusSpace : String := " + \" \" + "

/-- A dynamic value. -/
def stringified (expr : String) : String :=
  "JSON.stringify(" ++ expr ++ ")"

/-- The expression of a prop, unless it is content. -/
def propExpr? : PropEntry → Option String
  | .value v _ _ => some v.text
  | .content _ _ _ => none
  | .collected exprs => some (plusSpace.intercalate exprs)
  | .key _ expr => some expr

/-- The props of a tag. -/
def propsListing (props : Props) : String :=
  plusSpace.intercalate <| props.filterMap fun (key, entry) =>
    (propExpr? entry).map fun expr => quote (key ++ "=") ++ plus ++ stringified expr

/-- An atom, if it is listed. -/
def atomListing? : Atom → Option String
  | .text expr _ => some (quote "| " ++ plus ++ expr)
  | .expression expr _ _ => some (quote "= " ++ plus ++ stringified expr)
  | .statement .const _ => none
  | .statement keyword expr => some (quote (keyword.word ++ " ") ++ plus ++ quote expr)
  | _ => none

/-- The indentation at a depth. -/
def margin (depth : Nat) : String :=
  quote (String.ofList (List.replicate (2 * depth) ' '))

mutual
/-- A node at a depth, if it is listed. -/
def nodeListing? (depth : Nat) : IR → Option String
  | .atom a _ => (atomListing? a).map fun body => margin depth ++ plus ++ body
  | .group _ _ _ => none
  | .tag name props children _ _ =>
    let parts := [quote (name ++ "("), propsListing props, quote ")\n",
      plusNewline.intercalate (nodeListings (depth + 1) children)]
    some (margin depth ++ plus ++ plus.intercalate (parts.filter (!·.isEmpty)))

/-- The nodes of a list that are listed, each by itself. -/
def nodeListings (depth : Nat) : List IR → List String
  | [] => []
  | n :: rest =>
    match nodeListing? depth n with
    | none => nodeListings depth rest
    | some text => text :: nodeListings depth rest
end

/-- The listing of nodes that stand at `depth`. -/
def listing (depth : Nat) (nodes : List IR) : String :=
  plusNewline.intercalate (nodeListings depth nodes)

end Offside.IR
