/-!
# Attributes

An attribute of a tag or a filter: a name with an expression, or a bare name that stands for a flag.
Expressions are handed through as text and never looked into.
-/

set_option autoImplicit false

namespace Offside

/-- The value of an attribute: the text of an expression, or a flag. -/
inductive AttrValue where
  | expr (text : String)
  | flag (on : Bool)
deriving DecidableEq, Repr

/-- The value as the text of an expression. -/
def AttrValue.text : AttrValue → String
  | .expr e => e
  | .flag true => "true"
  | .flag false => "false"

/-- An attribute. `escaped` says whether its value is to be escaped when it is rendered. -/
structure Attr where
  name : String
  value : AttrValue
  escaped : Bool
deriving DecidableEq, Repr

/-- The names that may be given more than once; their values are collected. -/
def Attr.collects (name : String) : Bool :=
  name == "class" || name == "className" || name == "style"

/-- Why a text is no attribute list. -/
inductive AttrFault where
  | notOpened
  | unterminated
  | trailing (rest name : String)
  | missingValue (name : String)
  | openName (item : String)
  | missingName (item : String)
deriving DecidableEq, Repr

/-- The fault in words. -/
def AttrFault.message : AttrFault → String
  | .notOpened => "expected `(` to open an attribute list"
  | .unterminated => "unterminated attribute list"
  | .trailing rest name => "unexpected `" ++ rest ++ "` after attribute `" ++ name ++ "`"
  | .missingValue name => "attribute `" ++ name ++ "` is missing a value"
  | .openName item => "unterminated attribute name in `" ++ item ++ "`"
  | .missingName item => "missing attribute name in `" ++ item ++ "`"

end Offside
