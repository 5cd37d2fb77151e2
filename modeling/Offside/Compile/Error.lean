import Offside.Template.Error

/-!
# Compile errors

Why a template tree cannot be compiled. A tree that no template gives rise to, with a statement of
unknown code, is the fault of the front end that built it and an error of its own kind.
-/

set_option autoImplicit false

namespace Offside

/-- What templates may say and the compiler turns down. -/
inductive Unsupported where
  | mixins
  | doctypes
deriving DecidableEq, Repr

/-- What is turned down, in words. -/
def Unsupported.message : Unsupported → String
  | .mixins => "Mixins are not supported at this time"
  | .doctypes => "Doctypes are not supported at this time"

/-- How a well-formed node can be out of place. -/
inductive Misplaced where
  | selfClosing (tag : String)
  | statementContent (tag : String)
  | missingSignature
  | signatureElsewhere
  | notAFragment
  | unnamedFragment
deriving DecidableEq, Repr

/-- What is out of place, in words. -/
def Misplaced.message : Misplaced → String
  | .selfClosing tag => tag ++ " is self closing and should not have content."
  | .statementContent tag => tag ++ " statements may only contain text lines"
  | .missingSignature => "function is missing a signature"
  | .signatureElsewhere => "function signature must be on the function line"
  | .notAFragment => "Invalid child for translation"
  | .unnamedFragment => "Block missing name"

/-- Why compiling fails. -/
inductive CompileError where
  /-- The front end turned down captured text. -/
  | frontEnd (error : ParseError)
  | unsupported (what : Unsupported) (place : Place)
  | misplaced (what : Misplaced) (place : Place)
  /-- The front end built a statement that starts with `found`, which is no code. -/
  | violation (found : String) (node : Node)
  /-- Captures lie inside each other more deeply than is allowed. -/
  | tooDeep

namespace CompileError

/-- Why a statement cannot be read. -/
def unknownCode (found : String) : String :=
  "unknown statement prefix `" ++ found ++ "`"

/-- The whole message. -/
def message : CompileError → String
  | .frontEnd error => error.message
  | .unsupported what place => place.label ++ ": " ++ what.message
  | .misplaced what place => place.label ++ ": " ++ what.message
  | .violation found node =>
    node.place.label ++ ": front end protocol violation on " ++ node.kindName ++ " node: " ++
      unknownCode found
  | .tooDeep => "captures are nested too deeply"

/-- The place in the template, when the error is about one. -/
def place? : CompileError → Option Place
  | .frontEnd error => some error.place
  | .unsupported _ place | .misplaced _ place => some place
  | .violation _ _ | .tooDeep => none

/-- The error of captured text as an error of the template around it, in which the text starts
`offset` lines further down. -/
def shift (offset : UInt64) : CompileError → CompileError
  | .frontEnd error => .frontEnd (error.shift offset)
  | .unsupported what place => .unsupported what (place.shift offset)
  | .misplaced what place => .misplaced what (place.shift offset)
  | .violation found node => .violation found node
  | .tooDeep => .tooDeep

end CompileError

end Offside
