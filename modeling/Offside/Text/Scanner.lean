import Offside.Text.Space

/-!
# Scanners

A scanner reads something from the front of a text and leaves the rest, or fails. When one of two
alternatives fails, the other one starts again where the first one started, so alternatives need no
care about what was looked at.
-/

set_option autoImplicit false

namespace Offside

/-- Reads a value from the front of a text, or fails. -/
abbrev Scanner : Type → Type := StateT (List Char) Option

namespace Scanner

variable {α : Type}

/-- One character that `p` accepts. -/
def char (p : Char → Bool) : Scanner Char := fun s =>
  match s with
  | c :: rest => if p c then some (c, rest) else none
  | [] => none

/-- The character `c`. -/
def exactly (c : Char) : Scanner Unit := do
  let _ ← char (· == c)

/-- The characters of a word. -/
def word (w : String) : Scanner Unit := fun s =>
  (Text.after? w s).map fun rest => ((), rest)

/-- As many characters as `p` accepts, perhaps none. -/
def run (p : Char → Bool) : Scanner (List Char) := fun s =>
  some (s.takeWhile p, s.dropWhile p)

/-- As many characters as `p` accepts, at least one. -/
def run1 (p : Char → Bool) : Scanner (List Char) := do
  let first ← char p
  let rest ← run p
  pure (first :: rest)

/-- The text is used up. -/
def finished : Scanner Unit := fun s =>
  if s.isEmpty then some ((), s) else none

/-- Go on only if `ok` holds. -/
def check (ok : Bool) : Scanner Unit :=
  if ok then pure () else failure

/-- The value of `p`, or nothing where `p` fails. -/
def maybe (p : Scanner α) : Scanner (Option α) :=
  (some <$> p) <|> pure none

/-- `p` again and again until it fails, at most `n` times. -/
def manyUpTo (p : Scanner α) : Nat → Scanner (List α)
  | 0 => pure []
  | n + 1 =>
    (do
      let x ← p
      let rest ← manyUpTo p n
      pure (x :: rest)) <|> pure []

/-- `p` again and again until it fails. It has to use up something each time; then the length of the
text is bound enough. -/
def many (p : Scanner α) : Scanner (List α) := do
  manyUpTo p (← get).length

/-- `p` at least once, with `separator` in between. -/
def separated1 (p : Scanner α) (separator : Char) : Scanner (List α) := do
  let first ← p
  let rest ← many do
    exactly separator
    p
  pure (first :: rest)

/-- `p` any number of times, with `separator` in between. -/
def separated (p : Scanner α) (separator : Char) : Scanner (List α) :=
  separated1 p separator <|> pure []

/-- Exactly `n` characters that `p` accepts. -/
def exactRun (p : Char → Bool) : Nat → Scanner (List Char)
  | 0 => pure []
  | n + 1 => do
    let first ← char p
    let rest ← exactRun p n
    pure (first :: rest)

/-- Read a whole text. -/
def readAll (p : Scanner α) (text : String) : Option α :=
  (do
    let x ← p
    finished
    pure x : Scanner α).run' text.toList

end Scanner

end Offside
