/-!
# Ordered maps

A map from names to values that keeps the order in which names were first given. Giving a name a
second time replaces its value and leaves it where it stands.
-/

set_option autoImplicit false

namespace Offside

/-- A map from names to values, in the order of first insertion. -/
abbrev Ordered (α : Type) := List (String × α)

namespace Ordered

variable {α : Type}

/-- Give `key` the value `value`. -/
def insert (key : String) (value : α) : Ordered α → Ordered α
  | [] => [(key, value)]
  | (k, v) :: rest => if k = key then (k, value) :: rest else (k, v) :: insert key value rest

/-- The map of a list of pairs; the last value given to a name counts. -/
def ofPairs (pairs : List (String × α)) : Ordered α :=
  pairs.foldl (fun m p => insert p.1 p.2 m) []

/-- The value of `key`. -/
def get? (key : String) (m : Ordered α) : Option α :=
  (m.find? (·.1 == key)).map (·.2)

/-- The names, in order. -/
def keys (m : Ordered α) : List String :=
  m.map (·.1)

end Ordered

end Offside
