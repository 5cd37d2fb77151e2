import Offside.Text.Space

/-!
# Source lines

A template is read line by line. A line knows its number, the width of its indentation, its content
without indentation, and its raw text with it. White space at the end of a line never counts, so a
carriage return in front of the line feed needs no rule of its own.

Lines with nothing but white space are kept as blank lines: they open and close no level of
indentation, but verbatim bodies have to reproduce them.
-/

set_option autoImplicit false

namespace Offside

/-- One line of source. -/
structure Line where
  /-- Counted from one. -/
  number : Nat
  /-- How many spaces and tabs stand in front. -/
  indent : Nat
  /-- The text after the indentation; empty for a blank line. -/
  content : String
  /-- The text with the indentation. -/
  raw : String
deriving DecidableEq, Repr

namespace Line

/-- The line is blank: it holds nothing but white space. -/
def isBlank (l : Line) : Bool :=
  l.content.isEmpty

/-- The line belongs below a line indented by `width`: it is deeper, or blank. -/
def isBelow (width : Nat) (l : Line) : Bool :=
  l.isBlank || width < l.indent

/-- The line of a given number whose text is `s`. -/
def ofText (number : Nat) (s : List Char) : Line where
  number
  indent := (s.takeWhile Text.isIndent).length
  content := String.ofList (Text.trimEnd (s.dropWhile Text.isIndent))
  raw := String.ofList (Text.trimEnd s)

/-- The texts between the line feeds; after the last line feed only if there is some. -/
def segments : List Char → List (List Char)
  | [] => []
  | '\n' :: rest => [] :: segments rest
  | c :: rest =>
    match segments rest with
    | [] => [[c]]
    | s :: more => (c :: s) :: more

/-- The lines of texts, numbered from `number` on. -/
def numberFrom (number : Nat) : List (List Char) → List Line
  | [] => []
  | s :: rest => ofText number s :: numberFrom (number + 1) rest

/-- The lines of a source text. -/
def ofSource (source : String) : List Line :=
  numberFrom 1 (segments source.toList)

end Line

end Offside
