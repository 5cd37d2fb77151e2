/-!
# Brackets and quotes

Expressions are not parsed, but the scanners have to know where one ends. `Scan` follows a text one
character at a time: inside a quoted string nothing counts but its closing mark, and a backslash
hides the character after it; outside, brackets raise and lower the depth. The three kinds of
brackets are counted together.
-/

set_option autoImplicit false

namespace Offside

/-- The marks that open and close a quoted string. -/
def isQuoteMark (c : Char) : Bool :=
  c == '\x22' || c == '\x27' || c == '\x60'

/-- An opening bracket. -/
def isOpening (c : Char) : Bool :=
  c == '(' || c == '[' || c == '\x7b'

/-- A closing bracket. -/
def isClosing (c : Char) : Bool :=
  c == ')' || c == ']' || c == '\x7d'

/-- Where a scan stands with respect to quoted strings. -/
inductive Quoting where
  | outside
  | inside (mark : Char)
  | escaped (mark : Char)
deriving DecidableEq, Repr

/-- Where the scan stands after one more character. -/
def Quoting.next : Quoting → Char → Quoting
  | .outside, c => if isQuoteMark c then .inside c else .outside
  | .inside mark, c =>
    if c == '\x5c' then .escaped mark else if c == mark then .outside else .inside mark
  | .escaped mark, _ => .inside mark

/-- The state of a scan: its quoting, and how many brackets are open. -/
structure Scan where
  quoting : Quoting
  depth : Nat
deriving DecidableEq, Repr

namespace Scan

/-- Outside quotes and brackets. -/
def start : Scan := ⟨.outside, 0⟩

/-- The state is that of the start. -/
def isTop (s : Scan) : Bool :=
  s.quoting == .outside && s.depth == 0

/-- The state after one more character. -/
def next (s : Scan) (c : Char) : Scan :=
  if s.quoting == .outside && isOpening c then { s with depth := s.depth + 1 }
  else if s.quoting == .outside && isClosing c then { s with depth := s.depth - 1 }
  else { s with quoting := s.quoting.next c }

/-- Cut a text at the bracket that closes the one in front of it: what stands inside, and what
comes after. There is no such cut when a quoted string or a bracket stays open. -/
def inside (s : Scan) : List Char → Option (List Char × List Char)
  | [] => none
  | c :: rest =>
    if s.isTop && isClosing c then some ([], rest)
    else (inside (s.next c) rest).map fun (inner, after) => (c :: inner, after)

theorem length_inside {s : Scan} {text inner after : List Char}
    (h : s.inside text = some (inner, after)) : inner.length + after.length + 1 = text.length := by
  induction text generalizing s inner with
  | nil => simp [inside] at h
  | cons c rest ih =>
    unfold inside at h
    split at h
    · simp only [Option.some.injEq, Prod.mk.injEq] at h
      obtain ⟨rfl, rfl⟩ := h
      simp
    · simp only [Option.map_eq_some_iff, Prod.mk.injEq, Prod.exists] at h
      obtain ⟨inner', after', h', rfl, rfl⟩ := h
      have := ih h'
      simp only [List.length_cons]
      omega

end Scan

end Offside
