import Offside.Ordered
import Offside.Value

/-!
# Tables in the making

While a TOML document is read, a table remembers how it came about, because that decides what may
still be added to it. A header defines a table once and for all. A table that a header only goes
through can be defined later. A table that a key with dots goes through belongs to the table where
the key stands, and no header may define it.
-/

set_option autoImplicit false

namespace Offside.Toml

/-- How a table came about. -/
inductive Origin where
  /-- A header defines it. -/
  | header
  /-- A header goes through it. -/
  | passed
  /-- A key with dots goes through it. -/
  | dotted
deriving DecidableEq, Repr

/-- What a name in a table stands for. -/
inductive Item where
  | value (v : Value)
  | table (origin : Origin) (entries : List (String × Item))
  /-- The tables of headers with double brackets, from the last one to the first. -/
  | series (latest : List (String × Item)) (earlier : List (List (String × Item)))

/-- The entries of a table. -/
abbrev Entries := Ordered Item

mutual
/-- An item as a value. -/
def Item.toValue : Item → Value
  | .value v => v
  | .table _ entries => .table (entriesToValues entries)
  | .series latest earlier =>
    .list ((seriesToValues earlier).reverse ++ [.table (entriesToValues latest)])

/-- Entries as values. -/
def entriesToValues : List (String × Item) → List (String × Value)
  | [] => []
  | (k, item) :: rest => (k, item.toValue) :: entriesToValues rest

/-- Tables as values. -/
def seriesToValues : List (List (String × Item)) → List Value
  | [] => []
  | entries :: rest => .table (entriesToValues entries) :: seriesToValues rest
end

/-- Give a value to a key, which may have dots. A value may go into the table where the key stands
(`here`), or into a table that was made by such keys. -/
def put (v : Value) (here : Bool) : List String → Entries → Option Entries
  | [], _ => none
  | [name], entries =>
    if here && (Ordered.get? name entries).isNone then some (Ordered.insert name (.value v) entries)
    else none
  | name :: path, entries =>
    match Ordered.get? name entries with
    | none =>
      (put v true path []).map fun inner => Ordered.insert name (.table .dotted inner) entries
    | some (.table .header _) => none
    | some (.table .passed inner) =>
      (put v false path inner).map fun inner => Ordered.insert name (.table .passed inner) entries
    | some (.table .dotted inner) =>
      (put v true path inner).map fun inner => Ordered.insert name (.table .dotted inner) entries
    | some (.series latest earlier) =>
      (put v false path latest).map fun latest =>
        Ordered.insert name (.series latest earlier) entries
    | some (.value _) => none

/-- Change the table that a header names, or the last one of that name. -/
def within (change : Entries → Option Entries) : List String → Entries → Option Entries
  | [], entries => change entries
  | name :: path, entries =>
    match Ordered.get? name entries with
    | none =>
      (within change path []).map fun inner => Ordered.insert name (.table .passed inner) entries
    | some (.table origin inner) =>
      (within change path inner).map fun inner => Ordered.insert name (.table origin inner) entries
    | some (.series latest earlier) =>
      (within change path latest).map fun latest =>
        Ordered.insert name (.series latest earlier) entries
    | some (.value _) => none

/-- Define a table by its header. -/
def define (name : String) (entries : Entries) : Option Entries :=
  match Ordered.get? name entries with
  | none => some (Ordered.insert name (.table .header []) entries)
  | some (.table .passed inner) => some (Ordered.insert name (.table .header inner) entries)
  | some _ => none

/-- Begin the next table of a series. -/
def extend (name : String) (entries : Entries) : Option Entries :=
  match Ordered.get? name entries with
  | none => some (Ordered.insert name (.series [] []) entries)
  | some (.series latest earlier) =>
    some (Ordered.insert name (.series [] (latest :: earlier)) entries)
  | some _ => none

/-- Apply a change to the table that a header's path leads to, given the last name of the path. -/
def atLast (change : String → Entries → Option Entries) (path : List String) (entries : Entries) :
    Option Entries :=
  match path.getLast? with
  | some name => within (change name) path.dropLast entries
  | none => none

end Offside.Toml
