import Offside.Double
import Offside.Ordered

/-!
# Values of settings

What a setting can be given as. A place in a list that was never filled holds nothing.
-/

set_option autoImplicit false

namespace Offside

/-- The value of a setting, or of a group of settings. -/
inductive Value where
  | nothing
  | bool (b : Bool)
  | int (n : Int)
  | double (x : Double)
  | text (s : String)
  | list (items : List Value)
  | table (entries : List (String × Value))

namespace Value

/-- The entries of a table; other values have none. -/
def entries : Value → Ordered Value
  | .table es => es
  | _ => []

/-- The items of a list; other values have none. -/
def items : Value → List Value
  | .list vs => vs
  | _ => []

end Value

end Offside
