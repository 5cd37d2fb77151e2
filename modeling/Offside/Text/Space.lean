/-!
# White space

White space is the Unicode property `White_Space`. Text under scan is a list of characters; this
file has the ways to trim it and to measure it in bytes.
-/

set_option autoImplicit false

namespace Offside.Text

/-- White space: tab to carriage return, the space, and the Unicode spaces and separators. -/
def isSpace (c : Char) : Bool :=
  let n := c.toNat
  (9 ≤ n && n ≤ 13) || n == 0x20 || n == 0x85 || n == 0xa0 || n == 0x1680 ||
    (0x2000 ≤ n && n ≤ 0x200a) || n == 0x2028 || n == 0x2029 || n == 0x202f || n == 0x205f ||
    n == 0x3000

/-- The characters that make up indentation; a tab counts as one column. -/
def isIndent (c : Char) : Bool :=
  c == ' ' || c == '\t'

/-- The text starts with white space. -/
def startsWithSpace : List Char → Bool
  | [] => false
  | c :: _ => isSpace c

/-- The text without the white space in front. -/
def trimStart (s : List Char) : List Char :=
  s.dropWhile isSpace

/-- The text without the white space at its end. -/
def trimEnd (s : List Char) : List Char :=
  (s.reverse.dropWhile isSpace).reverse

/-- The text without the white space around it. -/
def trim (s : List Char) : List Char :=
  trimEnd (trimStart s)

/-- The trimmed text as a string. -/
def trimmed (s : List Char) : String :=
  String.ofList (trim s)

/-- The number of bytes of the text in UTF-8. -/
def bytes : List Char → Nat
  | [] => 0
  | c :: rest => c.utf8Size + bytes rest

/-- What follows the characters `word` at the start of a text. -/
def afterChars? : List Char → List Char → Option (List Char)
  | [], s => some s
  | _ :: _, [] => none
  | c :: word, d :: s => if c = d then afterChars? word s else none

/-- What follows `word`, when the text starts with it. -/
def after? (word : String) (s : List Char) : Option (List Char) :=
  afterChars? word.toList s

/-! ## Lengths -/

theorem length_trimStart_le (s : List Char) : (trimStart s).length ≤ s.length :=
  (List.dropWhile_sublist isSpace).length_le

theorem length_trimEnd_le (s : List Char) : (trimEnd s).length ≤ s.length := by
  have h := (List.dropWhile_sublist (l := s.reverse) isSpace).length_le
  simpa [trimEnd] using h

theorem length_trim_le (s : List Char) : (trim s).length ≤ s.length :=
  Nat.le_trans (length_trimEnd_le _) (length_trimStart_le s)

theorem eq_append_of_afterChars? {word s rest : List Char} (h : afterChars? word s = some rest) :
    s = word ++ rest := by
  fun_induction afterChars? word s with
  | case1 s => simpa using h
  | case2 => simp at h
  | case3 word d s ih => simp [ih h]
  | case4 => simp at h

theorem eq_append_of_after? {word : String} {s rest : List Char} (h : after? word s = some rest) :
    s = word.toList ++ rest :=
  eq_append_of_afterChars? h

theorem after?_append (word : String) (rest : List Char) :
    after? word (word.toList ++ rest) = some rest := by
  have hchars (w : List Char) : afterChars? w (w ++ rest) = some rest := by
    induction w with
    | nil => rfl
    | cons c w ih => rw [List.cons_append, afterChars?, if_pos rfl, ih]
  exact hchars word.toList

end Offside.Text
