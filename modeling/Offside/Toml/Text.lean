import Offside.Text.Digits

/-!
# Strings, keys and white space in TOML

A basic string stands between quotation marks and knows escapes; a literal string stands between
apostrophes and knows none. Three marks in a row open a string that may span lines: a line break
right behind them does not count, and up to two marks may stand in front of the closing ones.
-/

set_option autoImplicit false

namespace Offside.Toml

open Scanner

/-! ## White space, line breaks, comments -/

/-- A character that may stand in a comment or a string as it is. -/
def isPlain (c : Char) : Bool :=
  c == '\t' || (32 ≤ c.toNat && c.toNat != 127)

/-- Spaces and tabs, perhaps none. -/
def blanks : Scanner Unit := do
  let _ ← run Text.isIndent

/-- A line break; a carriage return belongs to the line feed behind it. -/
def newline : Scanner Unit :=
  word "\n" <|> word "\r\n"

/-- A comment, up to the end of its line. -/
def comment : Scanner Unit := do
  exactly '#'
  let _ ← run isPlain

/-- The end of a line. -/
def lineBreak : Scanner Unit :=
  newline <|> finished

/-- The end of a line, behind white space and a comment. -/
def lineEnd : Scanner Unit := do
  blanks
  let _ ← maybe comment
  lineBreak

/-- White space, line breaks and comments, perhaps none. -/
def gap : Scanner Unit := do
  let _ ← many ((do let _ ← run1 Text.isIndent) <|> newline <|> comment)

/-! ## Strings -/

/-- The character with a code point of `n` hexadecimal digits. -/
def codePoint (n : Nat) : Scanner Char := do
  let code := Text.ofDigits 16 (← exactRun (Text.isDigitOf 16) n)
  check (decide code.isValidChar)
  pure (Char.ofNat code)

/-- An escape. -/
def escape : Scanner Char := do
  exactly '\x5c'
  match ← char fun _ => true with
  | 'b' => pure '\x08'
  | 't' => pure '\t'
  | 'n' => pure '\n'
  | 'f' => pure '\x0c'
  | 'r' => pure '\r'
  | '\x22' => pure '\x22'
  | '\x5c' => pure '\x5c'
  | 'u' => codePoint 4
  | 'U' => codePoint 8
  | _ => failure

/-- A character that stands for itself in a string that ends with `mark`; in a basic string the
backslash does not. -/
def plainChar (mark : Char) : Scanner Char :=
  char fun c => isPlain c && c != mark && (mark == '\x27' || c != '\x5c')

/-- A basic string on one line. -/
def basic : Scanner String := do
  exactly '\x22'
  let text ← many (plainChar '\x22' <|> escape)
  exactly '\x22'
  pure (String.ofList text)

/-- A literal string on one line. -/
def literal : Scanner String := do
  exactly '\x27'
  let text ← many (plainChar '\x27')
  exactly '\x27'
  pure (String.ofList text)

/-- A string on one line. -/
def lineString : Scanner String :=
  basic <|> literal

/-- A backslash at the end of a line: it takes the line break with it, and all white space up to the
next text. -/
def foldedBreak : Scanner (List Char) := do
  exactly '\x5c'
  blanks
  newline
  let _ ← many ((do let _ ← run1 Text.isIndent) <|> newline)
  pure []

/-- One or two marks inside a string that spans lines. -/
def innerMarks (mark : Char) : Scanner (List Char) := do
  let marks ← run (· == mark)
  check (1 ≤ marks.length && marks.length ≤ 2)
  pure marks

/-- The marks that close a string that spans lines, and up to two in front that belong to it. -/
def closingMarks (mark : Char) : Scanner (List Char) := do
  let marks ← run (· == mark)
  check (3 ≤ marks.length && marks.length ≤ 5)
  pure (marks.drop 3)

/-- A string that spans lines, made of plain characters and of what `extra` reads. -/
def block (mark : Char) (extra : Scanner (List Char)) : Scanner String := do
  let _ ← exactRun (· == mark) 3
  let _ ← maybe newline
  let parts ← many ((List.singleton <$> plainChar mark) <|> (do newline; pure ['\n']) <|>
    innerMarks mark <|> extra)
  let last ← closingMarks mark
  pure (String.ofList (parts.flatten ++ last))

/-- A string of any kind. -/
def string : Scanner String :=
  block '\x22' (foldedBreak <|> List.singleton <$> escape) <|> block '\x27' failure <|> lineString

/-! ## Keys -/

/-- A character of a bare key. -/
def isKeyChar (c : Char) : Bool :=
  c.isAlphanum || c == '_' || c == '-'

/-- One part of a key, with the white space around it. -/
def keyPart : Scanner String := do
  blanks
  let part ← lineString <|> String.ofList <$> run1 isKeyChar
  blanks
  pure part

/-- How deep keys and values may nest. -/
def nesting : Nat := 79

/-- A key: parts with dots between them. -/
def key : Scanner (List String) := do
  let parts ← separated1 keyPart '.'
  check (parts.length ≤ nesting)
  pure parts

end Offside.Toml
