import Offside.Text.Digits
import Offside.Text.Fold
import Offside.Toml.Text
import Offside.Value

/-!
# Paths to settings

A setting is named by its path: names with dots between them, and indices in brackets where a list
is meant, as in `output.pretty` or `steps[0].name`. An index below zero counts from the end of the
list.

Setting a value makes way for it. Where the path needs a table or a list and there is none, one is
made, and what was there is gone. A table that is set is merged, name by name, into the table that
is there; every other value replaces what is there. Names are set in lower case.
-/

set_option autoImplicit false

namespace Offside

/-- A step on the path to a setting. -/
inductive Step where
  | field (name : String)
  | item (index : Int)
deriving DecidableEq, Repr

/-- The path to a setting, from the outside to the inside. -/
abbrev KeyPath := List Step

namespace KeyPath

open Scanner

/-! ## Reading paths -/

/-- A character of a name in a path. -/
def isNameChar (c : Char) : Bool :=
  Toml.isKeyChar c || c == ' '

/-- A name. -/
def name : Scanner Step := do
  pure (.field (String.ofList (← run1 isNameChar)))

/-- An index, which has to fit into 64 bits. -/
def index : Scanner Int := do
  let minus ← maybe (exactly '-')
  let n := Int.ofNat (Text.ofDigits 10 (← run1 Char.isDigit))
  let n := if minus.isSome then -n else n
  check (Int64.minValue.toInt ≤ n && n ≤ Int64.maxValue.toInt)
  pure n

/-- A step behind the first one. -/
def step : Scanner Step :=
  (do exactly '.'; name) <|>
  (do
    exactly '['
    Toml.blanks
    let i ← index
    Toml.blanks
    exactly ']'
    pure (.item i))

/-- Read a path. -/
def ofText? : String → Option KeyPath :=
  readAll do
    let first ← name
    let rest ← many step
    pure (first :: rest)

/-! ## Setting values -/

mutual
/-- Lay a value over what is there, if anything is. -/
def overlay (old : Option Value) : Value → Value
  | .table entries => mergeAll (old.getD (.table [])) entries
  | .nothing => .nothing
  | .bool b => .bool b
  | .int n => .int n
  | .double x => .double x
  | .text s => .text s
  | .list items => .list items

/-- Merge entries into a value; the first entry makes a table of it. -/
def mergeAll (old : Value) : List (String × Value) → Value
  | [] => old
  | (k, v) :: rest =>
    let name := Text.lowered k
    let value := overlay (Ordered.get? name old.entries) v
    mergeAll (.table (Ordered.insert name value old.entries)) rest
end

/-- Change the item at an index of a list, which grows as needed. There is no item in front of the
first one. -/
def changeItem (index : Int) (change : Value → Value) (items : List Value) : List Value :=
  let i := if index < 0 then index + Int.ofNat items.length else index
  if i < 0 then items
  else
    let filled := items ++ List.replicate (i.toNat + 1 - items.length) .nothing
    filled.modify i.toNat change

/-- Set the value at a path. -/
def set (v : Value) : KeyPath → Value → Value
  | [], old => old
  | [.field name], old => mergeAll old [(name, v)]
  | [.item i], old => .list (changeItem i (fun _ => v) old.items)
  | .field name :: path, old =>
    let inner := (Ordered.get? name old.entries).getD .nothing
    .table (Ordered.insert name (set v path inner) old.entries)
  | .item i :: path, old => .list (changeItem i (set v path) old.items)

end KeyPath

end Offside
