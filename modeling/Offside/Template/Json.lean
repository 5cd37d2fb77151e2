import Offside.Json
import Offside.Template.Node

/-!
# Template trees as JSON

A node is an object: its kind, the fields of the kind, its line, and its file name when it has one.
Optional fields are left out when they are not set.
-/

set_option autoImplicit false

namespace Offside

open Json

/-- The value of an attribute as JSON. -/
def AttrValue.toJson : AttrValue → Json
  | .expr text => .str text
  | .flag on => .bool on

/-- An attribute as JSON. -/
def Attr.toJson (a : Attr) : Json :=
  .obj [("name", .str a.name), ("val", a.value.toJson), ("escaped", .bool a.escaped)]

/-- What is said about a block, as fields. -/
def BlockLabel.fields (l : BlockLabel) : List (String × Json) :=
  field? "name" (str? l.name) ++ field? "args" (str? l.args) ++
    (if l.isSub then [("is_sub_block", .bool true)] else [])

/-- The fields of a leaf. -/
def Leaf.fields : Leaf → List (String × Json)
  | .text t => [("val", .str t)]
  | .comment t buffer => [("val", .str t), ("buffer", .bool buffer)]
  | .literal expr buffer escape =>
    [("value", .str expr), ("buffer", .bool buffer), ("escape", .bool escape)]
  | .yield name args => field? "val" (str? name) ++ field? "args" (str? args)
  | .mixinBlock => []
  | .doctype t => field? "val" (str? t)

/-- The fields of a lead, its block apart. -/
def Lead.fields : Lead → List (String × Json)
  | .code coded buffer escape =>
    [("val", .str coded), ("buffer", .bool buffer), ("escape", .bool escape)]
  | .each header key => [("val", .str header), ("key", .str key)]
  | .when expr => [("expr", .str expr)]
  | .mixin name args call =>
    [("name", .str name)] ++ field? "args" (str? args) ++ [("call", .bool call)]

/-- The fields of a frame, its block apart. -/
def Frame.fields : Frame → List (String × Json)
  | .comment t buffer => [("val", .str t), ("buffer", .bool buffer)]
  | .caseOf expr => [("expr", .str expr)]
  | .filter name attrs => [("name", .str name), ("attrs", .arr (attrs.map Attr.toJson))]

/-- The place of a node, as its last fields. -/
def Place.fields (p : Place) : List (String × Json) :=
  ("line", .num p.line.toNat) :: field? "filename" (str? p.filename)

mutual
/-- A node as JSON. -/
def Node.toJson : Node → Json
  | .leaf leaf place =>
    .obj (("type", .str (Node.kindName (.leaf leaf place))) :: leaf.fields ++ place.fields)
  | .lead lead body place =>
    .obj (("type", .str (Node.kindName (.lead lead body place))) :: lead.fields ++
      (match body with
        | none => []
        | some block => [("block", .obj (Block.fields block))]) ++ place.fields)
  | .frame frame body place =>
    .obj (("type", .str (Node.kindName (.frame frame body place))) :: frame.fields ++
      [("block", .obj (Block.fields body))] ++ place.fields)
  | .block body place => .obj (("type", .str "Block") :: Block.fields body ++ place.fields)
  | .tag tag body code place =>
    .obj ([("type", .str "Tag"), ("name", .str tag.name),
        ("attrs", .arr (tag.attrs.map Attr.toJson)),
        ("attribute_blocks", .arr (tag.spreads.map .str)),
        ("block", .obj (Block.fields body))] ++
      (match code with
        | none => []
        | some node => [("code", Node.toJson node)]) ++
      [("self_closing", .bool tag.selfClosing)] ++ place.fields)

/-- The fields of a block. -/
def Block.fields : Block → List (String × Json)
  | .mk nodes label => ("nodes", .arr (Node.listToJson nodes)) :: label.fields

/-- The nodes of a list as JSON. -/
def Node.listToJson : List Node → List Json
  | [] => []
  | n :: rest => Node.toJson n :: Node.listToJson rest
end

end Offside
