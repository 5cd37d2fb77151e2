import Offside.Toml.Moment
import Offside.Toml.Number
import Offside.Toml.Table
import Offside.Toml.Text

/-!
# TOML documents

Settings files are TOML documents: headers that open tables, and keys with values. A document that
is not well formed, or that defines anything twice, has no meaning at all.
-/

set_option autoImplicit false

namespace Offside.Toml

open Scanner

/-! ## Values -/

/-- A value that holds no others. -/
def scalar : Scanner Value :=
  Value.text <$> string <|>
  (do word "true"; pure (.bool true)) <|>
  (do word "false"; pure (.bool false)) <|>
  Value.text <$> moment <|>
  Value.double <$> double <|>
  Value.int <$> integer

/-- A list of what `item` reads. A comma may follow the last item. -/
def list (item : Scanner Value) : Scanner Value := do
  exactly '['
  let items ← separated (do gap; let v ← item; gap; pure v) ','
  if !items.isEmpty then
    let _ ← maybe (exactly ',')
  gap
  exactly ']'
  pure (.list items)

/-- A key and its value. -/
def pair (item : Scanner Value) : Scanner (List String × Value) := do
  let path ← key
  exactly '='
  blanks
  let v ← item
  pure (path, v)

/-- A table on one line, with values that `item` reads. -/
def inlineTable (item : Scanner Value) : Scanner Value := do
  exactly '\x7b'
  let pairs ← separated (do let p ← pair item; blanks; pure p) ','
  blanks
  exactly '\x7d'
  match pairs.foldlM (fun entries (path, v) => put v true path entries) [] with
  | some entries => pure (.table (entriesToValues entries))
  | none => failure

/-- A value in which others nest at most `depth` levels deep. -/
def value : Nat → Scanner Value
  | 0 => scalar
  | depth + 1 => list (value depth) <|> inlineTable (value depth) <|> scalar

/-! ## Documents -/

/-- What a line of a document does. -/
inductive Entry where
  | nothing
  | table (path : List String)
  | series (path : List String)
  | pair (path : List String) (v : Value)

/-- A header. -/
def header : Scanner Entry :=
  (do word "[["; let path ← key; word "]]"; lineEnd; pure (.series path)) <|>
  (do exactly '['; let path ← key; exactly ']'; lineEnd; pure (.table path))

/-- One entry of a document, with the line break behind it. -/
def entry : Scanner Entry :=
  (do comment; lineBreak; pure .nothing) <|>
  header <|>
  (do newline; pure .nothing) <|>
  (do let (path, v) ← pair (value nesting); lineEnd; pure (.pair path v))

/-- The entries of a document. A byte order mark in front does not count. -/
def entries : Scanner (List Entry) := do
  let _ ← maybe (exactly '\ufeff')
  blanks
  many (do let e ← entry; blanks; pure e)

/-- A document as far as it is read: its tables, and the path of the one that keys go into. -/
structure Document where
  root : Entries
  current : List String

/-- Add an entry to a document. -/
def Document.add (d : Document) : Entry → Option Document
  | .nothing => some d
  | .table path => (atLast define path d.root).map fun root => ⟨root, path⟩
  | .series path => (atLast extend path d.root).map fun root => ⟨root, path⟩
  | .pair path v => (within (put v true path) d.current d.root).map fun root => { d with root }

/-- The table that a document means. -/
def parse? (text : String) : Option Value := do
  let es ← readAll entries text
  let d ← es.foldlM Document.add ⟨[], []⟩
  some (.table (entriesToValues d.root))

end Offside.Toml
