import Offside.Json.Quoted
import Offside.Template.Node
import Offside.Text.Upper

/-!
# Components and what they host

A tag whose name starts with a capital letter is a component. What is directly inside it gets a
class that names the component and the slot, so that components can style what they are given. Text
is wrapped in a `span` to have something to put the class on. Blocks, statements and loops are
transparent: what they hold counts as directly inside. Tags are not entered.
-/

set_option autoImplicit false

namespace Offside

/-- The tag of this name is a component. -/
def isComponent (name : String) : Bool :=
  name.toList.head?.any Text.isUpper

/-- The component, and the slot of it, that content is given to. -/
structure Host where
  component : String
  slot : Option String
deriving DecidableEq, Repr

/-- The host that a tag is to its content, if it is a component. -/
def Host.ofTag (name : String) : Option Host :=
  if isComponent name then some ⟨name, none⟩ else none

/-- The statement or loop is transparent: what it holds belongs to the host around it. -/
def Lead.isTransparent : Lead → Bool
  | .code _ _ _ | .each _ _ => true
  | .when _ | .mixin _ _ _ => false

namespace Host

/-- The same component, seen from inside a block. -/
def inBlock (h : Host) (label : BlockLabel) : Host :=
  { h with slot := label.name }

/-- The name of the class. -/
def className (h : Host) : String :=
  match h.slot with
  | some slot => h.component ++ "-block-" ++ slot
  | none => h.component ++ "-block"

/-- The class as an attribute. -/
def classAttr (h : Host) : Attr :=
  ⟨"class", .expr (Json.quote h.className), false⟩

/-- The tag that text is wrapped in. -/
def span (h : Host) : Tag :=
  ⟨"span", [h.classAttr], [], false⟩

mutual
/-- The node with the classes of its host. -/
def dress (h : Host) : Node → Node
  | .leaf (.text t) place => .tag h.span (.plain [.leaf (.text t) place]) none place
  | .leaf leaf place => .leaf leaf place
  | .lead lead none place => .lead lead none place
  | .lead lead (some (.mk nodes label)) place =>
    if lead.isTransparent then .lead lead (some (.mk (dressAll h nodes) label)) place
    else .lead lead (some (.mk nodes label)) place
  | .frame frame body place => .frame frame body place
  | .block (.mk nodes label) place => .block (.mk (dressAll (h.inBlock label) nodes) label) place
  | .tag tag body code place =>
    .tag { tag with attrs := tag.attrs ++ [h.classAttr] } body code place

/-- The nodes of a list with the classes of their host. -/
def dressAll (h : Host) : List Node → List Node
  | [] => []
  | n :: rest => dress h n :: dressAll h rest
end

end Host

/-- The node as its host wants it; without a host, as it is. -/
def Node.dressFor (host : Option Host) (node : Node) : Node :=
  match host with
  | some h => h.dress node
  | none => node

end Offside
