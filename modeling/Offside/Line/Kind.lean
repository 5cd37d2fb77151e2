import Offside.Text.Space
import Offside.Text.Word

/-!
# Line kinds

What a line is, read by itself, before anything below it is looked at. There is one rule per kind;
the rules are tried in order, the first that accepts the line wins, and a line that none accepts is
a tag line. A keyword has to be followed by white space or by the end of the line, so `iframe` and
`blockquote` are tags.
-/

set_option autoImplicit false

namespace Offside

/-- The words that open a conditional branch. -/
inductive Condition where
  | ifThen
  | ifNot
  | elseIf
  | otherwise
deriving DecidableEq, Repr

/-- What a line is, with the parts of its text that matter. -/
inductive LineKind where
  | comment (text : String) (buffer : Bool)
  | text (text : String)
  | literal (markup : String)
  | code (expr : String) (buffer escape : Bool)
  | condition (word : Condition) (expr : String)
  | each (header : String)
  | caseOf (expr : String)
  | when (expr : String)
  | whenDefault
  | block (name args : Option String)
  | subBlock (name : String) (args : Option String)
  | yield (name args : Option String)
  | mixin (name : String) (args : Option String) (call : Bool)
  | doctype (text : Option String)
  | filter (name rest : String)
  | tag
deriving DecidableEq, Repr

namespace LineKind

open Text

/-! ## What may follow a keyword -/

/-- The argument of a keyword that needs one: white space, then text on the same line. White space
alone counts as an empty argument when there is enough of it, one character to part it from the
keyword and one more that does not break the line. -/
def argument? (s : List Char) : Option String :=
  let body := trimStart s
  if !startsWithSpace s || body.contains '\n' then none
  else if body.isEmpty && (s.length < 2 || s.getLast? == some '\n') then none
  else some (trimmed body)

/-- The argument of a keyword that may stand alone. -/
def argumentOrEnd? (s : List Char) : Option (Option String) :=
  let body := trimStart s
  if s.isEmpty then some none
  else if !startsWithSpace s || body.contains '\n' then none
  else some (some (trimmed body))

theorem argument?_none {s : List Char} (h : startsWithSpace s = false) : argument? s = none := by
  simp [argument?, h]

theorem argumentOrEnd?_none {s : List Char} (h : startsWithSpace s = false) (hne : s ≠ []) :
    argumentOrEnd? s = none := by
  simp [argumentOrEnd?, h, hne]

/-- Optional arguments in parentheses that close the line. -/
def parenthesised? (s : List Char) : Option (Option String) :=
  match trimStart s with
  | [] => some none
  | '(' :: rest =>
    match (trimEnd rest).reverse with
    | ')' :: inner =>
      if inner.contains '\n' then none else some (some (String.ofList inner.reverse))
    | _ => none
  | _ => none

/-- A character of a block name: anything but white space and the parenthesis of the arguments. -/
def isBlockName (c : Char) : Bool :=
  !isSpace c && c != '('

/-- A name made of the characters `p`, then optional arguments. -/
def named? (p : Char → Bool) (s : List Char) : Option (String × Option String) :=
  let name := s.takeWhile p
  if name.isEmpty then none
  else (parenthesised? (s.dropWhile p)).map fun args => (String.ofList name, args)

/-! ## The rules -/

/-- A comment; with a hyphen it stays out of the rendered page. -/
def comment? (s : List Char) : Option LineKind :=
  match s with
  | '/' :: '/' :: '-' :: rest => some (.comment (String.ofList rest) false)
  | '/' :: '/' :: rest => some (.comment (String.ofList rest) true)
  | _ => none

/-- Piped text; one space behind the bar belongs to the bar. -/
def text? (s : List Char) : Option LineKind :=
  match s with
  | '|' :: ' ' :: rest => some (.text (String.ofList rest))
  | '|' :: rest => some (.text (String.ofList rest))
  | _ => none

/-- Literal markup, the whole line. -/
def literal? (s : List Char) : Option LineKind :=
  match s with
  | '<' :: _ => some (.literal (String.ofList s))
  | _ => none

/-- An expression whose value is written out, escaped unless it is marked with `!`. -/
def bufferedCode? (s : List Char) : Option LineKind :=
  match s with
  | '!' :: '=' :: rest => some (.code (trimmed rest) true false)
  | '=' :: rest => some (.code (trimmed rest) true true)
  | _ => none

/-- A loop; a hyphen in front of the keyword makes no difference. -/
def each? (s : List Char) : Option LineKind :=
  let start := match s with
    | '-' :: rest => trimStart rest
    | _ => s
  (["each", "for", "repeat"].findSome? fun word => (after? word start).bind argument?).map .each

/-- Code that writes nothing out. -/
def code? (s : List Char) : Option LineKind :=
  match s with
  | '-' :: rest => some (.code (trimmed rest) false false)
  | _ => none

/-- The condition of an `else if`; white space of any width parts the two words. -/
def elseIf? (s : List Char) : Option (Option String) :=
  match after? "else" s with
  | some rest =>
    if startsWithSpace rest then (after? "if" (trimStart rest)).bind argumentOrEnd? else none
  | none => none

/-- A branch. `else if` is tried before `else`, so `else iffy` is an `else` with a condition. -/
def condition? (s : List Char) : Option LineKind :=
  ((after? "if" s).bind argumentOrEnd?).map (fun e => .condition .ifThen (e.getD ""))
    <|> ((after? "unless" s).bind argumentOrEnd?).map (fun e => .condition .ifNot (e.getD ""))
    <|> (elseIf? s).map (fun e => .condition .elseIf (e.getD ""))
    <|> ((after? "else" s).bind argumentOrEnd?).map (fun e => .condition .otherwise (e.getD ""))

/-- The head of a switch. -/
def caseOf? (s : List Char) : Option LineKind :=
  ((after? "case" s).bind argument?).map .caseOf

/-- The default case; nothing may follow the word. -/
def whenDefault? (s : List Char) : Option LineKind :=
  if s = "default".toList then some .whenDefault else none

/-- A case. -/
def when? (s : List Char) : Option LineKind :=
  ((after? "when" s).bind argument?).map .when

/-- A block with a name and optional arguments; without a name, the place of a mixin's content. -/
def block? (s : List Char) : Option LineKind :=
  (after? "block" s).bind fun rest =>
    if rest.all isSpace then some (.block none none)
    else if startsWithSpace rest then
      (named? isBlockName (trimStart rest)).map fun (name, args) => .block (some name) args
    else none

/-- A block that is passed under its name to the tag above it. -/
def subBlock? (s : List Char) : Option LineKind :=
  match s with
  | '@' :: rest =>
    (named? (fun c => isNameChar c || c == '$') rest).map fun (name, args) => .subBlock name args
  | _ => none

/-- The place of a block. Arguments may follow without a name, and then also without white space. -/
def yield? (s : List Char) : Option LineKind :=
  (after? "yield" s).bind fun rest =>
    (if startsWithSpace rest then
        (named? isBlockName (trimStart rest)).map fun (name, args) => .yield (some name) args
      else none)
      <|> (parenthesised? rest).map fun args => .yield none args

/-- A mixin, called with `+` or defined with the word. -/
def mixin? (s : List Char) : Option LineKind :=
  match s with
  | '+' :: rest => (named? isNameChar rest).map fun (name, args) => .mixin name args true
  | _ =>
    (after? "mixin" s).bind fun rest =>
      if startsWithSpace rest then
        (named? isNameChar (trimStart rest)).map fun (name, args) => .mixin name args false
      else none

/-- A document type. -/
def doctype? (s : List Char) : Option LineKind :=
  ((after? "doctype" s <|> after? "!!!" s).bind argumentOrEnd?).map .doctype

/-- A filter: its name, and the rest of the line as it stands. -/
def filter? (s : List Char) : Option LineKind :=
  match s with
  | ':' :: rest =>
    let name := rest.takeWhile isNameChar
    let tail := rest.dropWhile isNameChar
    if name.isEmpty || tail.contains '\n' then none
    else some (.filter (String.ofList name) (String.ofList tail))
  | _ => none

/-- The rules, in the order they are tried. -/
def rules : List (List Char → Option LineKind) :=
  [comment?, text?, literal?, bufferedCode?, each?, code?, condition?, caseOf?, whenDefault?, when?,
    block?, subBlock?, yield?, mixin?, doctype?, filter?]

/-- The kind of a line with the content `s`. -/
def ofContent (s : List Char) : LineKind :=
  (rules.findSome? fun rule => rule s).getD .tag

end LineKind

end Offside
