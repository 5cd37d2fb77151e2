import Offside.Text.Space

/-!
# Tokens

The coarsest reading of template source: line breaks, runs of spaces and tabs, and runs of
anything else. A token is a span of bytes. A carriage return that no line feed follows belongs to no
token.
-/

set_option autoImplicit false

namespace Offside

/-- What a token is made of. -/
inductive TokenKind where
  | newline
  | blank
  | text
deriving DecidableEq, Repr

/-- A token: its kind and the bytes from `start` up to `stop`. -/
structure Token where
  kind : TokenKind
  start : Nat
  stop : Nat
deriving DecidableEq, Repr

namespace Token

/-- Put a character of a run in front of the tokens that follow it: it joins the first of them when
that one is of the same kind and starts where the character stops. -/
def joinFront (kind : TokenKind) (start stop : Nat) : List Token → List Token
  | [] => [⟨kind, start, stop⟩]
  | t :: rest =>
    if t.kind = kind ∧ t.start = stop then ⟨kind, start, t.stop⟩ :: rest
    else ⟨kind, start, stop⟩ :: t :: rest

/-- The tokens of a text that starts at byte `pos`. -/
def scanFrom (pos : Nat) : List Char → List Token
  | [] => []
  | '\n' :: rest => ⟨.newline, pos, pos + 1⟩ :: scanFrom (pos + 1) rest
  | '\r' :: '\n' :: rest => ⟨.newline, pos, pos + 2⟩ :: scanFrom (pos + 2) rest
  | '\r' :: rest => scanFrom (pos + 1) rest
  | c :: rest =>
    let next := pos + c.utf8Size
    joinFront (if Text.isIndent c then .blank else .text) pos next (scanFrom next rest)

/-- The tokens of a source text. -/
def scan (source : String) : List Token :=
  scanFrom 0 source.toList

end Token

end Offside
