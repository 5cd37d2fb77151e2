import Offside.Tag

/-!
# The template tree

A front end turns template text into a tree of nodes, and compiling reads nothing but that tree.
Every node has its place, so that a fault found deep in the compiler still points at the template.

Nodes are grouped by what they hold: a leaf holds nothing, a lead may hold a block, a frame always
holds one; blocks and tags stand by themselves. What tells the kinds of one group apart is plain
data, so a walk over the tree has five cases and not one per kind.
-/

set_option autoImplicit false

namespace Offside

/-- Where a node stands: its line, counted from one, and the name of its template. Line numbers are
words of 64 bits, and adding to them wraps around. -/
structure Place where
  line : UInt64
  filename : Option String
deriving DecidableEq, Repr

/-- The place as it stands in front of a message. -/
def Place.label (p : Place) : String :=
  match p.filename with
  | some name => name ++ ":" ++ p.line.toNat.repr
  | none => "line " ++ p.line.toNat.repr

/-- The place `offset` lines further down. -/
def Place.shift (offset : UInt64) (p : Place) : Place :=
  { p with line := p.line + offset }

/-- What is said about a block besides its nodes. `block name` gives a block a name that a layout
can override; `@name` makes a sub-block, which hands named content to a tag. -/
structure BlockLabel where
  name : Option String
  args : Option String
  isSub : Bool
deriving DecidableEq, Repr

/-- Nothing is said about the block. -/
def BlockLabel.plain : BlockLabel := ⟨none, none, false⟩

/-- Nodes that hold no other node. -/
inductive Leaf where
  | text (text : String)
  | comment (text : String) (buffer : Bool)
  /-- An expression; raw markup arrives as the literal of its text. -/
  | literal (expr : String) (buffer escape : Bool)
  | yield (name args : Option String)
  | mixinBlock
  | doctype (text : Option String)
deriving DecidableEq, Repr

/-- Nodes that may hold a block. -/
inductive Lead where
  /-- A statement: a code of three letters, then an expression. -/
  | code (coded : String) (buffer escape : Bool)
  /-- A loop: its header, and the name of the key when the header gives none. -/
  | each (header key : String)
  | when (expr : String)
  | mixin (name : String) (args : Option String) (call : Bool)
deriving DecidableEq, Repr

/-- Nodes that always hold a block. -/
inductive Frame where
  | comment (text : String) (buffer : Bool)
  | caseOf (expr : String)
  /-- A filter; its block holds its lines as text. -/
  | filter (name : String) (attrs : List Attr)
deriving DecidableEq, Repr

mutual
/-- A node of the template tree. -/
inductive Node where
  | leaf (leaf : Leaf) (place : Place)
  | lead (lead : Lead) (body : Option Block) (place : Place)
  | frame (frame : Frame) (body : Block) (place : Place)
  | block (body : Block) (place : Place)
  /-- A tag, its block, and the code that follows it on its line. -/
  | tag (tag : Tag) (body : Block) (code : Option Node) (place : Place)

/-- An ordered list of nodes and what is said about it. -/
inductive Block where
  | mk (nodes : List Node) (label : BlockLabel)
end

namespace Block

/-- The nodes of a block. -/
def nodes : Block → List Node
  | .mk nodes _ => nodes

/-- What is said about a block. -/
def label : Block → BlockLabel
  | .mk _ label => label

/-- A block of which nothing is said. -/
def plain (nodes : List Node) : Block :=
  .mk nodes .plain

end Block

namespace Node

/-- Where the node stands. -/
def place : Node → Place
  | .leaf _ p | .lead _ _ p | .frame _ _ p | .block _ p | .tag _ _ _ p => p

/-- The text of a text node. -/
def text? : Node → Option String
  | .leaf (.text t) _ => some t
  | _ => none

/-- The name of the kind of a node, as diagnostics and JSON spell it. -/
def kindName : Node → String
  | .leaf (.text _) _ => "Text"
  | .leaf (.comment _ _) _ => "Comment"
  | .leaf (.literal _ _ _) _ => "Literal"
  | .leaf (.yield _ _) _ => "Yield"
  | .leaf .mixinBlock _ => "MixinBlock"
  | .leaf (.doctype _) _ => "Doctype"
  | .lead (.code _ _ _) _ _ => "Code"
  | .lead (.each _ _) _ _ => "Each"
  | .lead (.when _) _ _ => "When"
  | .lead (.mixin _ _ _) _ _ => "Mixin"
  | .frame (.comment _ _) _ _ => "BlockComment"
  | .frame (.caseOf _) _ _ => "Case"
  | .frame (.filter _ _) _ _ => "Filter"
  | .block _ _ => "Block"
  | .tag _ _ _ _ => "Tag"

end Node

end Offside
