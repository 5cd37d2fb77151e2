import Offside.Text.Space

/-!
# Places in a text, counted in bytes

Spans are counted in bytes, and a text is a list of characters. A number of bytes is a place in a
text if it is the size of a start of it, and then of only one (`Text.eq_of_bytes_eq`). `Text.slice?`
cuts out what stands between two places; at any other number there is nothing to cut.
-/

set_option autoImplicit false

namespace Offside.Text

theorem bytes_append (a b : List Char) : bytes (a ++ b) = bytes a + bytes b := by
  induction a with
  | nil => simp [bytes]
  | cons c a ih => simp [bytes, ih, Nat.add_assoc]

theorem eq_nil_of_bytes_eq_zero {s : List Char} (h : bytes s = 0) : s = [] := by
  cases s with
  | nil => rfl
  | cons c rest =>
    have := c.utf8Size_pos
    simp only [bytes] at h
    omega

/-- A text has one start of a given number of bytes. -/
theorem eq_of_bytes_eq {a b rest rest' : List Char} (h : a ++ rest = b ++ rest')
    (hbytes : bytes a = bytes b) : a = b := by
  -- Every character has at least one byte, so neither start can end before the other.
  induction a generalizing b with
  | nil =>
    cases b with
    | nil => rfl
    | cons d b =>
      have := d.utf8Size_pos
      simp only [bytes] at hbytes
      omega
  | cons c a ih =>
    have hpos := c.utf8Size_pos
    cases b with
    | nil =>
      simp only [bytes] at hbytes
      omega
    | cons d b =>
      rw [List.cons_append, List.cons_append, List.cons.injEq] at h
      obtain ⟨rfl, h⟩ := h
      rw [bytes, bytes, Nat.add_left_cancel_iff] at hbytes
      rw [ih h hbytes]

/-! ## Slices -/

/-- The first `n` bytes of a text and what follows them, if they are whole characters. -/
def splitBytes? (n : Nat) : List Char → Option (List Char × List Char)
  | [] => if n = 0 then some ([], []) else none
  | c :: rest =>
    if n = 0 then some ([], c :: rest)
    else if n < c.utf8Size then none
    else (splitBytes? (n - c.utf8Size) rest).map fun p => (c :: p.1, p.2)

/-- The bytes of a text from `start` up to `stop`, if both are places in it. -/
def slice? (start stop : Nat) (s : List Char) : Option (List Char) :=
  if start ≤ stop then do
    let cut ← splitBytes? start s
    let cut ← splitBytes? (stop - start) cut.2
    return cut.1
  else none

theorem splitBytes?_append (a b : List Char) : splitBytes? (bytes a) (a ++ b) = some (a, b) := by
  induction a with
  | nil => cases b <;> rfl
  | cons c a ih =>
    have hpos := c.utf8Size_pos
    rw [List.cons_append, splitBytes?, bytes, if_neg (by omega), if_neg (by omega),
      Nat.add_sub_cancel_left, ih]
    rfl

/-- What stands between two places is cut out. -/
theorem slice?_append (pre mid post : List Char) :
    slice? (bytes pre) (bytes (pre ++ mid)) (pre ++ (mid ++ post)) = some mid := by
  have hle : bytes pre ≤ bytes (pre ++ mid) := by
    rw [bytes_append]
    omega
  have hsize : bytes (pre ++ mid) - bytes pre = bytes mid := by
    rw [bytes_append, Nat.add_sub_cancel_left]
  rw [slice?, if_pos hle, splitBytes?_append, hsize]
  simp [splitBytes?_append]

end Offside.Text
