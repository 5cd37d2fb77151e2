import Offside.IR.Node
import Offside.Template.Json

/-!
# Render nodes as JSON

A node is an object: its type, the fields of the type in order, and its provenance as far as it is
known. Optional fields are left out when they are not set.
-/

set_option autoImplicit false

namespace Offside

open Json

/-- The provenance of a node, as its last fields. -/
def Provenance.fields (o : Provenance) : List (String × Json) :=
  field? "line" (o.line.map fun l => .num l.toNat) ++ field? "filename" (str? o.filename)

/-- The fields of an atom. -/
def Atom.fields : Atom → List (String × Json)
  | .text e buffer => [("expression", .str e), ("buffer", .bool buffer)]
  | .expression e escape buffer =>
    [("expression", .str e), ("escape", .bool escape), ("buffer", .bool buffer)]
  | .statement _ e => [("expression", .str e)]
  | .comment v => [("value", .str v)]
  | .codeComment v => [("value", .str v)]
  | .yield name args => field? "name" (str? name) ++ field? "args" (str? args)
  | .filter name attrs content =>
    [("name", .str name), ("attrs", .obj (attrs.map fun (k, v) => (k, v.toJson))),
      ("content", .str content)]

/-- The fields of a group around the JSON of its children. -/
def Group.fields (children : Json) : Group → List (String × Json)
  | .ifThen e | .ifNot e | .elseIf e => [("expression", .str e), ("children", children)]
  | .otherwise => [("children", children)]
  | .switch e buffer | .caseOf e buffer | .loop e buffer | .function e buffer =>
    [("expression", .str e), ("children", children), ("buffer", .bool buffer)]
  | .whenDefault buffer => [("children", children), ("buffer", .bool buffer)]
  | .each key value e buffer =>
    [("key", .str key), ("value", .str value), ("expression", .str e), ("children", children),
      ("buffer", .bool buffer)]
  | .slot name args =>
    [("name", .str name)] ++ field? "args" (str? args) ++ [("children", children)]

/-- The optional fields of an attribute. -/
def PropEntry.options (escaped : Option Bool) (args : Option String) : List (String × Json) :=
  field? "escaped" (escaped.map .bool) ++ field? "args" (str? args)

namespace IR

mutual
/-- A render node as JSON. -/
def toJson : IR → Json
  | .atom a o => .obj (("type", .str a.typeName) :: a.fields ++ o.fields)
  | .group head children o =>
    .obj (("type", .str head.typeName) :: head.fields (.arr (listToJson children)) ++ o.fields)
  | .tag name props children buffer o =>
    .obj ([("type", .str "tag"), ("name", .str name), ("props", .obj (propsToJson props)),
      ("children", .arr (listToJson children)), ("buffer", .bool buffer)] ++ o.fields)

/-- The nodes of a list as JSON. -/
def listToJson : List IR → List Json
  | [] => []
  | n :: rest => toJson n :: listToJson rest

/-- The props of a tag as JSON. -/
def propsToJson : List (String × PropEntry) → List (String × Json)
  | [] => []
  | (k, .value v escaped args) :: rest =>
    (k, .obj (("expression", v.toJson) :: PropEntry.options escaped args)) :: propsToJson rest
  | (k, .content nodes escaped args) :: rest =>
    (k, .obj (("expression", .arr (listToJson nodes)) :: PropEntry.options escaped args)) ::
      propsToJson rest
  | (k, .collected exprs) :: rest =>
    (k, .obj [("expressions", .arr (exprs.map .str))]) :: propsToJson rest
  | (k, .key name e) :: rest =>
    (k, .obj [("name", .str name), ("expression", .str e)]) :: propsToJson rest
end

/-- A list of render nodes as JSON. -/
def allToJson (nodes : List IR) : Json :=
  .arr (listToJson nodes)

end IR

end Offside
