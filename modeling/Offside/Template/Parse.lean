import Offside.Source.Line
import Offside.Tag.Head
import Offside.Template.Error
import Offside.Template.Statement

/-!
# Parsing templates

Lines nest by the off-side rule: what is indented deeper than a line, up to the next line that is
not, lies below it. The lines right below a line share one width, the width of the first of them.
Each line is read by itself and becomes one node; what lies below it is either read as template
lines again, or taken verbatim as text, or not allowed at all, and the line decides which.

Verbatim lines lose the indentation that all of them have, and keep what goes deeper.
-/

set_option autoImplicit false

namespace Offside.Template

/-- The place of a line. -/
def placeOf (filename : Option String) (l : Line) : Place :=
  ⟨.ofNat l.number, filename⟩

/-! ## What lies below a line -/

/-- The lines without the blank ones at their end. -/
def dropBlankEnd (lines : List Line) : List Line :=
  (lines.reverse.dropWhile Line.isBlank).reverse

/-- The least width among the lines that are not blank. -/
def commonIndent (lines : List Line) : Nat :=
  (((lines.filter fun l => !l.isBlank).map Line.indent).min?).getD 0

/-- The text of a line in a verbatim body that is indented by `base`. -/
def verbatimText (base : Nat) (l : Line) : String :=
  if l.isBlank then "" else String.ofList (l.raw.toList.drop base)

/-- The lines as text nodes. -/
def verbatim (filename : Option String) (lines : List Line) : List Node :=
  let body := dropBlankEnd lines
  body.map fun l => .leaf (.text (verbatimText (commonIndent body) l)) (placeOf filename l)

/-- What lies below a line: the lines themselves, for a verbatim reading, and what they are as
template lines. -/
structure Below where
  lines : List Line
  nodes : Except ParseError (List Node)

namespace Below

/-- There is nothing below the line; blank lines do not count. -/
def isEmpty (b : Below) : Bool :=
  b.lines.all Line.isBlank

/-- The block below the line. -/
def block (b : Below) : Except ParseError Block :=
  b.nodes.map .plain

/-- The block below the line, if there is one. -/
def block? (b : Below) : Except ParseError (Option Block) :=
  if b.isEmpty then .ok none else b.block.map some

/-- The content of a tag: statement tags take it verbatim. -/
def content (b : Below) (filename : Option String) (tag : String) : Except ParseError (List Node) :=
  if Tag.isStatement tag then .ok (verbatim filename b.lines) else b.nodes

end Below

/-! ## One line -/

/-- A node that nothing may be nested below. -/
def bare (place : Place) (below : Below) (what : BareLine) (leaf : Leaf) :
    Except ParseError Node :=
  if below.isEmpty then .ok (.leaf leaf place) else .error ⟨place, .nested what⟩

/-- The attributes of a filter, which have to end its line. -/
def filterAttrs (name : String) (rest : List Char) : Except ParseFault (List Attr) :=
  let rest := Text.trim rest
  if rest.isEmpty then .ok []
  else
    match Attr.readList rest with
    | .error fault => .error (.filterAttributes fault)
    | .ok (attrs, after) =>
      if (Text.trim after).isEmpty then .ok attrs
      else .error (.afterFilter (String.ofList after) name)

/-- A conditional branch; an `else` takes no condition. -/
def branch (place : Place) (below : Below) (word : Condition) (expr : String) :
    Except ParseError Node :=
  if word = .otherwise ∧ expr ≠ "" then .error ⟨place, .elseWithCondition⟩
  else
    below.block.map fun body =>
      .lead (.code ((Statement.condition word).encode expr) false false) (some body) place

/-- The node of a line with the given content, its place and what lies below it. -/
def readLine (place : Place) (below : Below) (content : List Char) : Except ParseError Node :=
  match LineKind.ofContent content with
  | .comment text buffer =>
    if below.isEmpty then .ok (.leaf (.comment text buffer) place)
    else .ok (.frame (.comment text buffer) (.plain (verbatim place.filename below.lines)) place)
  | .text text => bare place below .pipedText (.text text)
  | .literal markup => bare place below .literalMarkup (.literal (Json.quote markup) true false)
  | .code expr buffer escape =>
    let coded := Statement.expression.encode expr
    below.block?.map fun body => .lead (.code coded buffer escape) body place
  | .condition word expr => branch place below word expr
  | .each header => below.block?.map fun body => .lead (.each header "$index") body place
  | .caseOf expr => below.block.map fun body => .frame (.caseOf expr) body place
  | .when expr => below.block?.map fun body => .lead (.when expr) body place
  | .whenDefault => below.block?.map fun body => .lead (.when "default") body place
  | .block none _ => bare place below .mixinBlock .mixinBlock
  | .block (some name) args =>
    below.nodes.map fun nodes => .block (.mk nodes ⟨some name, args, false⟩) place
  | .subBlock name args =>
    below.nodes.map fun nodes => .block (.mk nodes ⟨some name, args, true⟩) place
  | .yield name args => bare place below .yield (.yield name args)
  | .mixin name args call => below.block?.map fun body => .lead (.mixin name args call) body place
  | .doctype text => .ok (.leaf (.doctype text) place)
  | .filter name rest =>
    match filterAttrs name rest.toList with
    | .error fault => .error ⟨place, fault⟩
    | .ok attrs =>
      .ok (.frame (.filter name attrs) (.plain (verbatim place.filename below.lines)) place)
  | .tag =>
    match hread : TagHead.read content with
    | .error fault => .error ⟨place, .tag fault⟩
    | .ok head =>
      let tag nodes code := Node.tag head.toTag (.plain nodes) code place
      match htail : head.tail with
      | .none => (below.content place.filename head.name).map fun nodes => tag nodes none
      | .textBlock => .ok (tag (verbatim place.filename below.lines) none)
      | .text text =>
        let first := Node.leaf (.text text) place
        (below.content place.filename head.name).map fun nodes => tag (first :: nodes) none
      | .code expr escape =>
        let code := Node.lead (.code (Statement.expression.encode expr) true escape) none place
        below.nodes.map fun nodes => tag nodes (some code)
      | .expansion child =>
        have := TagHead.length_expansion hread htail
        (readLine place below child.toList).map fun node => tag [node] none
termination_by content.length

/-! ## Lines on one level -/

/-- The width of the first line that is not blank. -/
def levelOf (lines : List Line) : Nat :=
  ((lines.find? fun l => !l.isBlank).map Line.indent).getD 0

/-- The nodes of lines that stand on the level `level`, each with what lies below it. -/
def siblings (filename : Option String) (level : Nat) : List Line → Except ParseError (List Node)
  | [] => .ok []
  | l :: rest =>
    if l.isBlank then siblings filename level rest
    else if l.indent < level then .error ⟨placeOf filename l, .dedent l.indent⟩
    else if level < l.indent then .error ⟨placeOf filename l, .unexpectedIndent⟩
    else do
      let body := rest.takeWhile (Line.isBelow l.indent)
      let below := ⟨body, siblings filename (levelOf body) body⟩
      let node ← readLine (placeOf filename l) below l.content.toList
      let nodes ← siblings filename level (rest.dropWhile (Line.isBelow l.indent))
      .ok (node :: nodes)
termination_by lines => lines.length
decreasing_by
  all_goals simp only [List.length_cons]
  · exact Nat.lt_succ_self _
  · exact Nat.lt_succ_of_le (List.takeWhile_sublist _).length_le
  · exact Nat.lt_succ_of_le (List.dropWhile_sublist _).length_le

/-- The nodes of lines that stand below one line, or in no line's body at all. -/
def nodesOf (filename : Option String) (lines : List Line) : Except ParseError (List Node) :=
  siblings filename (levelOf lines) lines

/-- Parse template source; the root of a template is a block. -/
def parse (source : String) (filename : Option String) : Except ParseError Node :=
  (nodesOf filename (Line.ofSource source)).map fun nodes => .block (.plain nodes) ⟨1, filename⟩

end Offside.Template
