/-!
# Letter case

Names of settings are compared without regard to case. The names that count are ASCII, so it is
enough to know which characters have an ASCII letter as their lower case.
-/

set_option autoImplicit false

namespace Offside.Text

/-- A character in lower case, where that is an ASCII letter; any other character stays. Besides the
ASCII capitals it is the Kelvin sign that has such a lower case. -/
def lower (c : Char) : Char :=
  if c == '\u212a' then 'k' else c.toLower

/-- A text in lower case, character by character. -/
def lowered (s : String) : String :=
  String.ofList (s.toList.map lower)

end Offside.Text
