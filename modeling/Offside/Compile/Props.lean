import Offside.IR.Node
import Offside.Json.Quoted

/-!
# Props

The attributes of a tag, and the content given to it under names, become its props. They are taken
in order. Classes and styles are collected and come after everything else, styles first; the spread
expressions come last.
-/

set_option autoImplicit false

namespace Offside.Props

/-- The name under which spread expressions are kept. -/
def spreadKey : String := "&props"

/-- An attribute on its way into the props. -/
def ofAttr (a : Attr) : String × PropEntry :=
  (a.name, .value a.value (some a.escaped) none)

/-- The expression that an entry adds to a collection; content adds none. -/
def collect? : PropEntry → Option String
  | .value v _ _ => some v.text
  | _ => none

/-- The expressions given under the names that `p` accepts. -/
def collected (p : String → Bool) (given : List (String × PropEntry)) : List String :=
  (given.filter fun e => p e.1).filterMap fun e => collect? e.2

/-- Add a collection, unless it is empty. -/
def insertCollected (key : String) (exprs : List String) (props : Props) : Props :=
  if exprs.isEmpty then props else Ordered.insert key (.collected exprs) props

/-- In a phrase a bare name in first place is the path under which the phrase is looked up. -/
def namePath : List (String × PropEntry) → List (String × PropEntry)
  | (name, .value (.flag true) escaped args) :: rest =>
    if Attr.collects name then (name, .value (.flag true) escaped args) :: rest
    else ("path", .value (.expr (Json.quote name)) escaped args) :: rest
  | given => given

/-- The props of what is given to a tag, in order, and of its spread expressions. -/
def gather (given : List (String × PropEntry)) (spreads : List String) : Props :=
  Ordered.ofPairs (given.filter fun e => !Attr.collects e.1)
    |> insertCollected "style" (collected (· == "style") given)
    |> insertCollected "class" (collected (fun n => n == "class" || n == "className") given)
    |> insertCollected spreadKey spreads

/-- The props of a phrase. -/
def gatherPhrase (given : List (String × PropEntry)) (spreads : List String) : Props :=
  gather (namePath given) spreads

end Offside.Props
