/-!
# Quoted text

A JSON string literal: the text between two quotation marks, with the quotation mark, the backslash
and the control characters below the space escaped and everything else as it is. Compiled templates
carry their literal text in this form, so that every expression of a node can be read the same way.
-/

set_option autoImplicit false

namespace Offside.Json

/-- The quotation mark. -/
def mark : Char := '\x22'

/-- The backslash. -/
def backslash : Char := '\x5c'

/-- A hexadecimal digit, letters in lower case. -/
def hexDigit (n : Nat) : Char :=
  if n < 10 then Char.ofNat (n + 48) else Char.ofNat (n + 87)

/-- One character as it stands inside a literal. The five control characters with a letter of
their own take it; the other ones are written by number. -/
def escape (c : Char) : List Char :=
  if c = mark ∨ c = backslash then [backslash, c]
  else if c.toNat < 32 then
    match c.toNat with
    | 8 => [backslash, 'b']
    | 9 => [backslash, 't']
    | 10 => [backslash, 'n']
    | 12 => [backslash, 'f']
    | 13 => [backslash, 'r']
    | n => [backslash, 'u', '0', '0', hexDigit (n / 16), hexDigit (n % 16)]
  else [c]

/-- The literal of a text, as characters. -/
def quoteChars (s : List Char) : List Char :=
  mark :: (s.flatMap escape ++ [mark])

/-- The literal of a text. -/
def quote (s : String) : String :=
  String.ofList (quoteChars s.toList)

end Offside.Json
