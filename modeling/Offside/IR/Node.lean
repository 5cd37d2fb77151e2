import Offside.Ordered
import Offside.Template.Node

/-!
# Render nodes

What a template is compiled to: a tree for a rendering runtime. Expressions are texts that are
handed through untouched; literal text is quoted, so that the runtime can treat every expression
alike.

Like template nodes, render nodes are grouped by what they hold. An atom holds nothing, a group
holds children, and a tag holds children and props, some of which hold nodes again.
-/

set_option autoImplicit false

namespace Offside

/-- Where a render node comes from, as far as it is known. -/
structure Provenance where
  line : Option UInt64
  filename : Option String
deriving DecidableEq, Repr

namespace Provenance

/-- The provenance of what is compiled from a node at `place`. -/
def ofPlace (place : Place) : Provenance :=
  ⟨some place.line, place.filename⟩

/-- The provenance `offset` lines further down; an unknown line stays unknown. -/
def shift (offset : UInt64) (p : Provenance) : Provenance :=
  { p with line := p.line.map (· + offset) }

end Provenance

/-- The statements that are handed to the runtime as they are. -/
inductive Keyword where
  | imports
  | exports
  | var
  | const
deriving DecidableEq, Repr

/-- The word of the statement. -/
def Keyword.word : Keyword → String
  | .imports => "import"
  | .exports => "export"
  | .var => "var"
  | .const => "const"

/-- Render nodes that hold no other node. -/
inductive Atom where
  /-- Literal text, quoted. -/
  | text (expr : String) (buffer : Bool)
  | expression (expr : String) (escape buffer : Bool)
  | statement (keyword : Keyword) (expr : String)
  /-- A comment that is rendered. -/
  | comment (value : String)
  /-- A comment that is not. -/
  | codeComment (value : String)
  | yield (name args : Option String)
  | filter (name : String) (attrs : Ordered AttrValue) (content : String)
deriving DecidableEq, Repr

/-- Render nodes that hold children, without them. -/
inductive Group where
  | ifThen (expr : String)
  | ifNot (expr : String)
  | elseIf (expr : String)
  | otherwise
  | switch (expr : String) (buffer : Bool)
  | caseOf (expr : String) (buffer : Bool)
  | whenDefault (buffer : Bool)
  | loop (header : String) (buffer : Bool)
  | each (key value expr : String) (buffer : Bool)
  | function (signature : String) (buffer : Bool)
  /-- A slot of a layout. -/
  | slot (name : String) (args : Option String)
deriving DecidableEq, Repr

mutual
/-- A render node. -/
inductive IR where
  | atom (atom : Atom) (origin : Provenance)
  | group (head : Group) (children : List IR) (origin : Provenance)
  | tag (name : String) (props : List (String × PropEntry)) (children : List IR) (buffer : Bool)
      (origin : Provenance)

/-- One entry of a tag's props. -/
inductive PropEntry where
  /-- An attribute. -/
  | value (value : AttrValue) (escaped : Option Bool) (args : Option String)
  /-- Compiled content that is handed to the tag under a name. -/
  | content (nodes : List IR) (escaped : Option Bool) (args : Option String)
  /-- Expressions collected under one name, in order. -/
  | collected (exprs : List String)
  /-- The name under which a phrase finds this node. -/
  | key (name expr : String)
end

/-- The props of a tag. -/
abbrev Props := Ordered PropEntry

namespace IR

/-- Where the node comes from. -/
def origin : IR → Provenance
  | .atom _ o | .group _ _ o | .tag _ _ _ _ o => o

/-- The children, for the nodes that have a list of them. -/
def children? : IR → Option (List IR)
  | .atom _ _ => none
  | .group _ children _ | .tag _ _ children _ _ => some children

end IR

/-- The name of an atom's type. -/
def Atom.typeName : Atom → String
  | .text _ _ => "text"
  | .expression _ _ _ => "expression"
  | .statement keyword _ => keyword.word
  | .comment _ => "comment"
  | .codeComment _ => "js_comment"
  | .yield _ _ => "yield"
  | .filter _ _ _ => "filter"

/-- The name of a group's type. -/
def Group.typeName : Group → String
  | .ifThen _ => "if"
  | .ifNot _ => "unless"
  | .elseIf _ => "elseif"
  | .otherwise => "else"
  | .switch _ _ => "switch"
  | .caseOf _ _ => "case"
  | .whenDefault _ => "default"
  | .loop _ _ => "for"
  | .each _ _ _ _ => "each"
  | .function _ _ => "function"
  | .slot _ _ => "named_block"

/-- The name of a node's type. -/
def IR.typeName : IR → String
  | .atom a _ => a.typeName
  | .group g _ _ => g.typeName
  | .tag _ _ _ _ _ => "tag"

end Offside
