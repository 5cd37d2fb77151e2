import Offside.Template.Node

/-!
# How much text a tree holds

The texts of a tree bound the text of every filter in it, and with it how deeply captures can lie
inside each other.
-/

set_option autoImplicit false

namespace Offside

mutual
/-- The bytes of all texts in the tree, each counted with a line feed behind it. -/
def Node.textSize : Node → Nat
  | .leaf (.text t) _ => t.utf8ByteSize + 1
  | .leaf _ _ => 0
  | .lead _ none _ => 0
  | .lead _ (some (.mk nodes _)) _ => Node.textSizes nodes
  | .frame _ (.mk nodes _) _ => Node.textSizes nodes
  | .block (.mk nodes _) _ => Node.textSizes nodes
  | .tag _ (.mk nodes _) none _ => Node.textSizes nodes
  | .tag _ (.mk nodes _) (some code) _ => Node.textSizes nodes + Node.textSize code

/-- The bytes of all texts in a list of trees. -/
def Node.textSizes : List Node → Nat
  | [] => 0
  | n :: rest => Node.textSize n + Node.textSizes rest
end

end Offside
