import Offside.Compile.Error
import Offside.Compile.Host
import Offside.Compile.Loop
import Offside.Compile.Options
import Offside.Compile.Props
import Offside.IR.Listing
import Offside.IR.Walk
import Offside.Template.Statement

/-!
# Visiting template nodes

A visit turns one template node into nothing, one render node, or a list that the caller splices
into its own. The visit goes down the tree with the host of the content it is in, if that is a
component, and puts the classes of the host on what it meets.

Captured text is compiled by `embed`, which is a parameter here: how text becomes nodes again, and
how often, is not the visit's business. The visit runs in any monad with compile errors, since a
front end may have effects of its own.
-/

set_option autoImplicit false

namespace Offside

/-- What a visit gives. -/
inductive Visited where
  | skip
  | one (node : IR)
  | many (nodes : List IR)

/-- The nodes of a visit in order. -/
def Visited.toList : Visited → List IR
  | .skip => []
  | .one node => [node]
  | .many nodes => nodes

/-- Compiles captured text, given with the name of its template. -/
abbrev Embed (m : Type → Type) := String → Option String → m (List IR)

namespace Compile

/-! ## Nodes that hold nothing -/

/-- Text; empty text gives nothing. -/
def text (t : String) (place : Place) : Visited :=
  if t.isEmpty then .skip else .one (.atom (.text (Json.quote t) true) (.ofPlace place))

/-- Text that a component hosts, in its `span`. A `span` that is configured to stand for a
phrase cannot hold text. -/
def hostedText (o : Options) (host : Host) (t : String) (place : Place) :
    Except CompileError Visited :=
  if o.phraseTag = host.span.name then .error (.misplaced .notAFragment place)
  else
    .ok (.one (.tag host.span.name (Props.gather (host.span.attrs.map Props.ofAttr) [])
      (text t place).toList true (.ofPlace place)))

/-- A comment, rendered or not. -/
def comment (value : String) (buffer : Bool) (place : Place) : Visited :=
  .one (.atom (if buffer then .comment value else .codeComment value) (.ofPlace place))

/-- A leaf. -/
def leaf (o : Options) (host : Option Host) (place : Place) : Leaf → Except CompileError Visited
  | .text t =>
    match host with
    | some h => hostedText o h t place
    | none => .ok (text t place)
  | .comment value buffer => .ok (comment value buffer place)
  | .literal expr buffer escape =>
    .ok (.one (.atom (.expression expr escape buffer) (.ofPlace place)))
  | .yield name args => .ok (.one (.atom (.yield name args) (.ofPlace place)))
  | .mixinBlock => .error (.unsupported .mixins place)
  | .doctype _ => .error (.unsupported .doctypes place)

/-! ## Statements, loops and blocks -/

/-- What is made of a statement or a loop: a group around its children, or an atom, which has no
use for them. -/
inductive Shell where
  | group (head : Group)
  | atom (atom : Atom)

/-- The shell around children. -/
def Shell.fill (children : List IR) (place : Place) : Shell → IR
  | .group head => .group head children (.ofPlace place)
  | .atom a => .atom a (.ofPlace place)

/-- A coded statement. -/
def statement (expr : String) (buffer escape : Bool) : Statement → Shell
  | .condition .ifThen => .group (.ifThen expr)
  | .condition .ifNot => .group (.ifNot expr)
  | .condition .elseIf => .group (.elseIf expr)
  | .condition .otherwise => .group .otherwise
  | .expression => .atom (.expression expr escape buffer)

/-- A loop. -/
def loop (key : String) : LoopHeader → Group
  | .each value key? expr => .each (key?.getD key) value expr true
  | .plain header => .loop header true

/-- The shell of a lead; `node` is the whole node, for the error that shows it. -/
def lead (node : Node) : Lead → Except CompileError Shell
  | .code coded buffer escape =>
    match Statement.decode? coded with
    | some (s, expr) => .ok (statement expr buffer escape s)
    | none => .error (.violation (String.ofList (coded.toList.take 3)) node)
  | .each header key => .ok (.group (loop key (.read header)))
  | .when expr => .ok (.group (if expr = "default" then .whenDefault true else .caseOf expr true))
  | .mixin _ _ _ => .error (.unsupported .mixins node.place)

/-- The slot that a block stands for: it has a name that starts with the marker, and it is no
sub-block. -/
def slotName? (o : Options) (label : BlockLabel) : Option String :=
  match label.isSub, label.name.map String.toList with
  | false, some (c :: rest) => if c = o.blockMarker then some (String.ofList rest) else none
  | _, _ => none

/-- A block around its compiled nodes: a slot, or just the nodes. -/
def block (o : Options) (label : BlockLabel) (place : Place) (children : List IR) : Visited :=
  match slotName? o label with
  | some name => .one (.group (.slot name label.args) children (.ofPlace place))
  | none => .many children

/-! ## Filters and captures -/

/-- The text of nodes that are lines of text; other nodes count as empty lines. -/
def linesOf (nodes : List Node) : String :=
  "\n".intercalate (nodes.map fun n => n.text?.getD "")

/-- The first value given to an attribute. -/
def attr? (name : String) (attrs : List Attr) : Option AttrValue :=
  (attrs.find? (·.name == name)).map (·.value)

/-- A text without the quotes around it. -/
def unquote (s : List Char) : List Char :=
  match s with
  | q :: rest =>
    if q == '\x22' || q == '\x27' then
      match rest.reverse with
      | last :: inner => if last == q then inner.reverse else s
      | [] => s
    else s
  | [] => s

/-- The variable that a capture is assigned to. -/
def captureTarget (o : Options) (attrs : List Attr) : String :=
  match attr? "as" attrs with
  | some (.expr e) => String.ofList (unquote (Text.trim e.toList))
  | _ => o.captureVariable

/-- The capture is to be evaluated before it is assigned. -/
def isUnquoted (attrs : List Attr) : Bool :=
  match attr? "unquote" attrs with
  | none => false
  | some (.flag on) => on
  | some (.expr e) => Text.trim e.toList != "false".toList

/-- The assignment in front of a capture: the source text, or the listing of its nodes. -/
def assignment (o : Options) (attrs : List Attr) (source : String) (nodes : List IR) : String :=
  captureTarget o attrs ++ " = " ++
    (if isUnquoted attrs then IR.listing 0 nodes else Json.quote source) ++ ";"

section Monadic

variable {m : Type → Type} [Monad m] [MonadExceptOf CompileError m]

/-- A capture: the assignment, then the nodes of the text. Its lines, and the lines of errors in it,
are those of the template around it. -/
def capture (o : Options) (embed : Embed m) (attrs : List Attr) (source : String) (place : Place) :
    m Visited := do
  let nodes ← tryCatchThe CompileError (embed source (place.filename <|> o.filename)) fun e =>
    throw (e.shift place.line)
  let nodes := nodes.map (IR.shift place.line)
  pure (.many (.atom (.statement .var (assignment o attrs source nodes)) (.ofPlace place) :: nodes))

/-- A filter around its lines. -/
def filter (o : Options) (embed : Embed m) (name : String) (attrs : List Attr) (nodes : List Node)
    (place : Place) : m Visited :=
  if name = "capture" then capture o embed attrs (linesOf nodes) place
  else
    pure (.one (.atom
      (.filter name (Ordered.ofPairs (attrs.map fun a => (a.name, a.value))) (linesOf nodes))
      (.ofPlace place)))

end Monadic

/-! ## Tags -/

/-- The node is text of white space only. -/
def isBlankText (node : Node) : Bool :=
  node.text?.any fun t => t.toList.all Text.isSpace

/-- The statement of a statement tag. -/
def keyword (tag : String) : Keyword :=
  if tag = "import" then .imports
  else if tag = "export" then .exports
  else if tag = "const" then .const
  else .var

/-- The text of a line of a statement tag, which holds nothing but text. -/
def statementLine (tag : String) (node : Node) : Except CompileError String :=
  match node.text? with
  | some t => .ok t
  | none => .error (.misplaced (.statementContent tag) node.place)

/-- A statement tag around its lines. -/
def statementTag (tag : String) (nodes : List Node) (place : Place) :
    Except CompileError Visited := do
  let lines ← nodes.mapM (statementLine tag)
  .ok (.one (.atom (.statement (keyword tag) ("\n".intercalate lines)) (.ofPlace place)))

/-- The signature of a function, the first of its nodes. -/
def signature (nodes : List Node) (place : Place) : Except CompileError String :=
  match nodes with
  | [] => .error (.misplaced .missingSignature place)
  | first :: _ =>
    match first.text? with
    | some t => .ok t
    | none => .error (.misplaced .signatureElsewhere first.place)

/-- The name and the arguments under which a named block is handed to a tag. -/
def contentName? : Node → Option (String × Option String)
  | .block (.mk _ ⟨some name, args, _⟩) _ => some (name, args)
  | _ => none

/-- The named blocks among the visited nodes of a tag. -/
def namedContent (results : List (Node × Visited)) : List (String × PropEntry) :=
  results.filterMap fun (node, visited) =>
    (contentName? node).map fun (name, args) => (name, .content visited.toList none args)

/-- The children among the visited nodes of a tag. -/
def plainContent (results : List (Node × Visited)) : List IR :=
  results.flatMap fun (node, visited) => if (contentName? node).isSome then [] else visited.toList

/-- A tag with its attributes around its visited nodes. -/
def tag (name : String) (attrs : List Attr) (spreads : List String)
    (results : List (Node × Visited)) (place : Place) : IR :=
  .tag name (Props.gather (attrs.map Props.ofAttr ++ namedContent results) spreads)
    (plainContent results) true (.ofPlace place)

/-- The name of a fragment of the phrase at `place`. -/
def fragmentName (place : Place) : Node → Except CompileError String
  | .block (.mk _ ⟨some name, _, _⟩) _ => .ok name
  | .block _ _ => .error (.misplaced .unnamedFragment place)
  | _ => .error (.misplaced .notAFragment place)

/-- A fragment of a phrase. If it is one tag, the tag learns the name of the fragment. -/
def fragment (name : String) (visited : Visited) : String × PropEntry :=
  match visited.toList with
  | [.tag tagName props children buffer origin] =>
    let props := Ordered.insert "key" (.key name (Json.quote name)) props
    (name, .content [.tag tagName props children buffer origin] none none)
  | nodes => (name, .content nodes none none)

/-- A phrase with its fragments. -/
def phrase (name : String) (attrs : List Attr) (spreads : List String)
    (fragments : List (String × PropEntry)) (place : Place) : IR :=
  .tag name (Props.gatherPhrase (attrs.map Props.ofAttr ++ fragments) spreads) [] true
    (.ofPlace place)

/-- The attributes of a tag, with the class of its host. -/
def hostedAttrs (host : Option Host) (tag : Tag) : List Attr :=
  tag.attrs ++ host.toList.map Host.classAttr

/-! ## The visit -/

section Visit

variable {m : Type → Type} [Monad m] [MonadExceptOf CompileError m]

mutual
/-- Visit a node. -/
def visit (o : Options) (embed : Embed m) (host : Option Host) : Node → m Visited
  | .leaf l place => ofExcept (leaf o host place l)
  | .lead l body place => do
    let shell ← ofExcept (lead (Node.dressFor host (.lead l body place)) l)
    let children ← match body with
      | none => pure []
      | some (.mk nodes _) => visitEach o embed (if l.isTransparent then host else none) nodes
    pure (.one (shell.fill (children.flatMap fun r => r.2.toList) place))
  | .frame f (.mk nodes _) place =>
    match f with
    | .comment _ buffer =>
      pure (comment ("\n".intercalate (nodes.filterMap Node.text?)) buffer place)
    | .caseOf expr => do
      let children ← visitEach o embed none nodes
      pure (.one (.group (.switch expr true) (children.flatMap fun r => r.2.toList)
        (.ofPlace place)))
    | .filter name attrs => filter o embed name attrs nodes place
  | .block (.mk nodes label) place => do
    let children ← visitEach o embed (host.map fun h => h.inBlock label) nodes
    pure (block o label place (children.flatMap fun r => r.2.toList))
  | .tag t (.mk nodes _) code place => do
    if t.selfClosing && !nodes.all isBlankText then
      throw (.misplaced (.selfClosing t.name) place)
    else if t.name = o.phraseTag then
      let fragments ← visitFragments o embed place nodes
      let inline ← match code with
        | some c =>
          if nodes.isEmpty then do
            let name ← ofExcept (fragmentName place c)
            let visited ← visit o embed none c
            pure [fragment name visited]
          else pure []
        | none => pure []
      pure (.one (phrase t.name (hostedAttrs host t) t.spreads (fragments ++ inline) place))
    else if Tag.isStatement t.name then
      ofExcept (statementTag t.name nodes place)
    else if t.name = "function" then
      let sig ← ofExcept (signature nodes place)
      let children ← match nodes with
        | [] => pure []
        | _ :: body => visitEach o embed none body
      pure (.one (.group (.function sig false) (children.flatMap fun r => r.2.toList)
        (.ofPlace place)))
    else
      let results ← visitEach o embed (Host.ofTag t.name) nodes
      let inline ← match code with
        | some c =>
          if nodes.isEmpty then do
            let visited ← visit o embed (Host.ofTag t.name) c
            pure [(c, visited)]
          else pure []
        | none => pure []
      pure (.one (tag t.name (hostedAttrs host t) t.spreads (results ++ inline) place))

/-- Visit the nodes of a list in order, each with what it gives. -/
def visitEach (o : Options) (embed : Embed m) (host : Option Host) :
    List Node → m (List (Node × Visited))
  | [] => pure []
  | node :: rest => do
    let visited ← visit o embed host node
    let others ← visitEach o embed host rest
    pure ((node, visited) :: others)

/-- Visit the fragments of the phrase at `place`. -/
def visitFragments (o : Options) (embed : Embed m) (place : Place) :
    List Node → m (List (String × PropEntry))
  | [] => pure []
  | node :: rest => do
    let name ← ofExcept (fragmentName place node)
    let visited ← visit o embed none node
    let others ← visitFragments o embed place rest
    pure (fragment name visited :: others)
end

end Visit

end Compile

end Offside
