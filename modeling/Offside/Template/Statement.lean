import Offside.Line.Kind

/-!
# Coded statements

Conditions and plain expressions reach the compiler as one kind of node. Which statement it is, is
told by a code of three letters in front of the expression.
-/

set_option autoImplicit false

namespace Offside

/-- The statements that a code node can stand for. -/
inductive Statement where
  | condition (word : Condition)
  | expression
deriving DecidableEq, Repr

namespace Statement

/-- All statements. -/
def all : List Statement :=
  [.condition .ifThen, .condition .ifNot, .condition .elseIf, .condition .otherwise, .expression]

/-- The code of a statement. -/
def code : Statement → String
  | .condition .ifThen => "IFF"
  | .condition .ifNot => "NIF"
  | .condition .elseIf => "ELF"
  | .condition .otherwise => "ELS"
  | .expression => "EXP"

/-- The statement with a given code. -/
def ofCode? (code : String) : Option Statement :=
  all.find? (·.code == code)

/-- The statement and its expression as one text. -/
def encode (s : Statement) (expr : String) : String :=
  s.code ++ expr

/-- Take a coded text apart; there is nothing to take apart without a known code. -/
def decode? (coded : String) : Option (Statement × String) :=
  all.findSome? fun s => (Text.after? s.code coded.toList).map fun expr => (s, String.ofList expr)

end Statement

end Offside
