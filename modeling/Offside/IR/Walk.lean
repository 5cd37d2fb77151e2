import Offside.IR.Node

/-!
# Walking render trees

The order in which a tree is walked is: the node, the content handed to it in its props, its
children. `mapOrigin` changes the provenance of every node on the way and nothing else; shifting
lines, renaming files and forgetting lines are cases of it.
-/

set_option autoImplicit false

namespace Offside.IR

/-! ## Changing provenances -/

mutual
/-- The tree with `g` applied to the provenance of every node in it. -/
def mapOrigin (g : Provenance → Provenance) : IR → IR
  | .atom a o => .atom a (g o)
  | .group head children o => .group head (mapOrigins g children) (g o)
  | .tag name props children buffer o =>
    .tag name (mapOriginProps g props) (mapOrigins g children) buffer (g o)

/-- The trees of a list with `g` applied throughout. -/
def mapOrigins (g : Provenance → Provenance) : List IR → List IR
  | [] => []
  | n :: rest => mapOrigin g n :: mapOrigins g rest

/-- The props with `g` applied in all content. -/
def mapOriginProps (g : Provenance → Provenance) :
    List (String × PropEntry) → List (String × PropEntry)
  | [] => []
  | (k, .content nodes escaped args) :: rest =>
    (k, .content (mapOrigins g nodes) escaped args) :: mapOriginProps g rest
  | (k, .value v escaped args) :: rest => (k, .value v escaped args) :: mapOriginProps g rest
  | (k, .collected exprs) :: rest => (k, .collected exprs) :: mapOriginProps g rest
  | (k, .key name expr) :: rest => (k, .key name expr) :: mapOriginProps g rest
end

/-- The tree `offset` lines further down. -/
def shift (offset : UInt64) : IR → IR :=
  mapOrigin (Provenance.shift offset)

/-- The tree with every file name set, or removed. -/
def rename (filename : Option String) : IR → IR :=
  mapOrigin fun o => { o with filename }

/-- The tree without line numbers. -/
def forgetLines : IR → IR :=
  mapOrigin fun o => { o with line := none }

/-! ## The nodes of a tree -/

mutual
/-- All nodes of the tree, in the order they are walked. -/
def walk : IR → List IR
  | .atom a o => [.atom a o]
  | .group head children o => .group head children o :: walkAll children
  | .tag name props children buffer o =>
    .tag name props children buffer o :: (walkProps props ++ walkAll children)

/-- All nodes of a list of trees. -/
def walkAll : List IR → List IR
  | [] => []
  | n :: rest => walk n ++ walkAll rest

/-- All nodes in the content of props. -/
def walkProps : List (String × PropEntry) → List IR
  | [] => []
  | (_, .content nodes _ _) :: rest => walkAll nodes ++ walkProps rest
  | (_, .value _ _ _) :: rest => walkProps rest
  | (_, .collected _) :: rest => walkProps rest
  | (_, .key _ _) :: rest => walkProps rest
end

end Offside.IR
