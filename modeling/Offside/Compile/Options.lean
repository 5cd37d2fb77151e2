/-!
# Compile options

Everything besides the template that has a say in what it is compiled to. Captured text is compiled
with the same options.
-/

set_option autoImplicit false

namespace Offside

/-- Options of a compilation. -/
structure Options where
  /-- The name of the template. -/
  filename : Option String := none
  /-- The variable that a capture is assigned to when it names none. -/
  captureVariable : String := "capture"
  /-- The character that makes a named block a slot of a layout. -/
  blockMarker : Char := '!'
  /-- The tag that stands for a phrase, whose wording depends on the language of the reader. -/
  phraseTag : String := "t"
  /-- Spread the JSON of the output over several lines. -/
  pretty : Bool := false
deriving DecidableEq, Repr

end Offside
