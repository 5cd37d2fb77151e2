import Offside.Template.Node

/-!
# Parse errors

Why a text is no template, and where.
-/

set_option autoImplicit false

namespace Offside

/-- Lines below which nothing may be nested. -/
inductive BareLine where
  | pipedText
  | literalMarkup
  | mixinBlock
  | yield
deriving DecidableEq, Repr

/-- The line in words. -/
def BareLine.words : BareLine → String
  | .pipedText => "piped text"
  | .literalMarkup => "literal markup"
  | .mixinBlock => "a mixin block"
  | .yield => "yield"

/-- Why a line is not accepted. -/
inductive ParseFault where
  /-- The line goes back to a width that no open level has. -/
  | dedent (found : Nat)
  | unexpectedIndent
  | nested (below : BareLine)
  | elseWithCondition
  | filterAttributes (fault : AttrFault)
  | afterFilter (rest name : String)
  | tag (fault : TagFault)
  /-- A fault that a front end of another make reports in its own words. -/
  | reported (message : String)
deriving DecidableEq, Repr

/-- The fault in words. -/
def ParseFault.message : ParseFault → String
  | .dedent found =>
    "inconsistent indentation (dedent to column " ++ found.repr ++ " matches no enclosing level)"
  | .unexpectedIndent => "unexpected indentation"
  | .nested below => below.words ++ " cannot have nested content"
  | .elseWithCondition => "`else` cannot have a condition, perhaps you meant `else if`"
  | .filterAttributes fault => fault.message
  | .afterFilter rest name => "unexpected `" ++ rest ++ "` after filter `" ++ name ++ "`"
  | .tag fault => fault.message
  | .reported message => message

/-- A fault and its place. -/
structure ParseError where
  place : Place
  fault : ParseFault
deriving DecidableEq, Repr

namespace ParseError

/-- The whole message. -/
def message (e : ParseError) : String :=
  e.place.label ++ ": " ++ e.fault.message

/-- The same fault `offset` lines further down. -/
def shift (offset : UInt64) (e : ParseError) : ParseError :=
  { e with place := e.place.shift offset }

end ParseError

end Offside
