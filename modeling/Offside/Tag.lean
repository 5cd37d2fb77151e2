import Offside.Attribute

/-!
# Tags

What a tag line says about the tag itself: its name, its attributes in order, the expressions spread
into its attributes, and whether it is marked as self-closing.
-/

set_option autoImplicit false

namespace Offside

/-- A tag without its content. -/
structure Tag where
  name : String
  attrs : List Attr
  /-- The expressions of `&attributes(…)`, in order. -/
  spreads : List String
  selfClosing : Bool
deriving DecidableEq, Repr

namespace Tag

/-- The tags whose lines are statements for the runtime rather than markup. -/
def isStatement (name : String) : Bool :=
  name == "import" || name == "export" || name == "var" || name == "const"

end Tag

/-- What follows the head of a tag on its line. -/
inductive TagTail where
  /-- Nothing. -/
  | none
  /-- A dot: the lines below are verbatim text. -/
  | textBlock
  | code (expr : String) (escape : Bool)
  /-- A colon: the rest of the line is the only child. -/
  | expansion (child : String)
  | text (text : String)
deriving DecidableEq, Repr

/-- Everything a tag line says. -/
structure TagHead extends Tag where
  tail : TagTail
deriving DecidableEq, Repr

/-- Why a text is no tag line. -/
inductive TagFault where
  | unexpectedText (text : String)
  | attributes (fault : AttrFault)
  | spreadNotOpened
  | spreadUnterminated
  | expansionNotParted (child : String)
  | trailing (rest name : String)
  | duplicate (name : String)
deriving DecidableEq, Repr

/-- The fault in words. -/
def TagFault.message : TagFault → String
  | .unexpectedText text => "unexpected text `" ++ text ++ "`"
  | .attributes fault => fault.message
  | .spreadNotOpened => "expected `(` after &attributes"
  | .spreadUnterminated => "unterminated &attributes"
  | .expansionNotParted child => "unexpected `:" ++ child ++ "`"
  | .trailing rest name => "unexpected `" ++ rest ++ "` after tag `" ++ name ++ "`"
  | .duplicate name => "duplicate attribute \"" ++ name ++ "\" is not allowed"

end Offside
