import Offside.Text.Space

/-!
# Loop headers

A header is split at the first `in` that stands by itself. What is in front of it names the value
and, after a comma, the key; what follows is what the loop goes through. A header without such an
`in` is handed on as it is, less the parentheses around it.

    item, i in items         value item, key i, expression items
    item in items            value item, expression items
    (i = 0; i < 5; i++)      i = 0; i < 5; i++
-/

set_option autoImplicit false

namespace Offside

open Text

/-- A loop header. -/
inductive LoopHeader where
  | each (value : String) (key : Option String) (expr : String)
  | plain (header : String)
deriving DecidableEq, Repr

namespace LoopHeader

/-- What follows an `in` with white space on both sides, when the text starts with that. -/
def afterIn? (s : List Char) : Option (List Char) :=
  if startsWithSpace s then
    match trimStart s with
    | 'i' :: 'n' :: rest => if startsWithSpace rest then some (trimStart rest) else none
    | _ => none
  else none

/-- The texts around the first `in` that stands by itself. -/
def splitIn? : List Char → Option (List Char × List Char)
  | [] => none
  | c :: rest =>
    ((afterIn? (c :: rest)).map fun after => ([], after)).or
      ((splitIn? rest).map fun (before, after) => (c :: before, after))

/-- The value and the key that are named in front of `in`. -/
def binding (s : List Char) : String × Option String :=
  match s.dropWhile (· != ',') with
  | [] => (trimmed s, none)
  | _ :: key =>
    (trimmed (s.takeWhile (· != ',')), if (trim key).isEmpty then none else some (trimmed key))

/-- The text without the parenthesis in front. -/
def dropOpening (s : List Char) : List Char :=
  match trimStart s with
  | '(' :: rest => rest
  | _ => s

/-- The text without the parenthesis at its end. -/
def dropClosing (s : List Char) : List Char :=
  match (trimEnd s).reverse with
  | ')' :: rest => rest.reverse
  | _ => s

/-- Read a loop header. -/
def read (header : String) : LoopHeader :=
  match splitIn? header.toList with
  | some (before, after) =>
    let (value, key) := binding before
    .each value key (trimmed after)
  | none => .plain (String.ofList (dropClosing (dropOpening header.toList)))

end LoopHeader

end Offside
