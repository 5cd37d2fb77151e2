import Offside.Attribute.Listing
import Offside.Proofs.Template.Tree
import Offside.Proofs.Text.Bytes

/-!
# How a scan goes through a text

A scan is looked at from two sides. Where it stands after a text is a fold over its characters
(`Scan.after`), and whether the text closes a bracket that was opened before it is a test along the
way (`Scan.stays`). Both together say where `Scan.inside` cuts (`Scan.inside_eq_some_iff`), and with
it what an attribute list is: a parenthesis, a closed text and some closing bracket
(`Attr.readList_eq_ok_iff`).

As long as nothing opened before is closed, it makes no difference how many brackets that is: one
more of them is one more all along (`Scan.after_deeper`).
-/

set_option autoImplicit false

namespace Offside

namespace Scan

variable {s : Scan} {c : Char} {xs ys inner rest : List Char}

/-! ## Where a scan stands -/

/-- The state after a text. -/
def after (s : Scan) (text : List Char) : Scan :=
  text.foldl next s

@[simp] theorem after_nil (s : Scan) : s.after [] = s := rfl

@[simp] theorem after_cons (s : Scan) (c : Char) (rest : List Char) :
    s.after (c :: rest) = (s.next c).after rest := rfl

@[simp] theorem after_append (s : Scan) (xs ys : List Char) :
    s.after (xs ++ ys) = (s.after xs).after ys :=
  List.foldl_append

theorem isTop_iff : s.isTop = true ↔ s = start := by
  obtain ⟨quoting, depth⟩ := s
  simp [isTop, start]

/-- A character that is no quotation mark and no bracket changes nothing outside quotes. -/
theorem next_of_plain (hs : s.quoting = .outside) (hquote : isQuoteMark c = false)
    (hopening : isOpening c = false) (hclosing : isClosing c = false) : s.next c = s := by
  obtain ⟨quoting, depth⟩ := s
  obtain rfl : quoting = .outside := hs
  simp [next, hopening, hclosing, Quoting.next, hquote]

theorem next_of_opening (hs : s.quoting = .outside) (hc : isOpening c = true) :
    s.next c = { s with depth := s.depth + 1 } := by
  simp [next, hs, hc]

theorem not_isOpening_of_isClosing (hc : isClosing c = true) : isOpening c = false := by
  simp only [isClosing, Bool.or_eq_true, beq_iff_eq] at hc
  rcases hc with (rfl | rfl) | rfl <;> rfl

theorem next_of_closing (hs : s.quoting = .outside) (hc : isClosing c = true) :
    s.next c = { s with depth := s.depth - 1 } := by
  simp [next, hs, hc, not_isOpening_of_isClosing hc]

/-- In quotes only the quoting changes. -/
theorem next_of_quoted (hs : s.quoting ≠ .outside) :
    s.next c = { s with quoting := s.quoting.next c } := by
  simp [next, hs]

/-! ## Texts that close nothing opened before -/

/-- Outside quotes and brackets the text has no closing bracket. -/
def stays (s : Scan) : List Char → Bool
  | [] => true
  | c :: rest => !(s.isTop && isClosing c) && (s.next c).stays rest

@[simp] theorem stays_append (s : Scan) (xs ys : List Char) :
    s.stays (xs ++ ys) = (s.stays xs && (s.after xs).stays ys) := by
  induction xs generalizing s with
  | nil => rfl
  | cons c xs ih => simp [stays, ih, Bool.and_assoc]

/-- The cut is at the first closing bracket that is met outside quotes and brackets. -/
theorem inside_eq_some_iff :
    s.inside xs = some (inner, rest) ↔
      ∃ c, isClosing c = true ∧ xs = inner ++ c :: rest ∧ s.stays inner = true ∧
        s.after inner = start := by
  induction xs generalizing s inner with
  | nil => simp [inside]
  | cons d xs ih =>
    unfold inside
    by_cases hstop : (s.isTop && isClosing d) = true
    · rw [if_pos hstop]
      obtain ⟨htop, hd⟩ := Bool.and_eq_true_iff.mp hstop
      constructor
      · rintro ⟨⟩
        exact ⟨d, hd, rfl, rfl, isTop_iff.mp htop⟩
      · rintro ⟨c, hc, heq, hstays, hafter⟩
        -- A cut further on would have passed this bracket.
        cases inner with
        | nil =>
          obtain ⟨rfl, rfl⟩ := List.cons.inj heq
          rfl
        | cons x inner =>
          obtain ⟨rfl, -⟩ := List.cons.inj heq
          simp [stays, hstop] at hstays
    · rw [if_neg hstop]
      simp only [Option.map_eq_some_iff, Prod.mk.injEq, Prod.exists]
      constructor
      · rintro ⟨inner', rest', hin, rfl, rfl⟩
        obtain ⟨c, hc, rfl, hstays, hafter⟩ := ih.mp hin
        refine ⟨c, hc, rfl, ?_, hafter⟩
        rw [stays, hstays, Bool.and_true, Bool.not_eq_true']
        exact Bool.not_eq_true _ ▸ hstop
      · rintro ⟨c, hc, heq, hstays, hafter⟩
        cases inner with
        | nil =>
          obtain ⟨rfl, -⟩ := List.cons.inj heq
          exact absurd (Bool.and_eq_true_iff.mpr ⟨isTop_iff.mpr hafter, hc⟩) hstop
        | cons x inner =>
          obtain ⟨rfl, rfl⟩ := List.cons.inj heq
          rw [stays, Bool.and_eq_true] at hstays
          exact ⟨inner, rest, ih.mpr ⟨c, hc, rfl, hstays.2, hafter⟩, rfl, rfl⟩

/-- There is no cut when the text closes nothing opened before it. -/
theorem inside_eq_none_iff : s.inside xs = none ↔ s.stays xs = true := by
  induction xs generalizing s with
  | nil => simp [inside, stays]
  | cons c xs ih =>
    unfold inside stays
    by_cases hstop : (s.isTop && isClosing c) = true <;> simp [hstop, ih]

/-! ## One bracket more -/

/-- The same state below one more open bracket. -/
def deeper (s : Scan) : Scan :=
  { s with depth := s.depth + 1 }

theorem isTop_deeper (s : Scan) : s.deeper.isTop = false := by
  simp [isTop, deeper]

theorem next_deeper (h : (s.isTop && isClosing c) = false) :
    s.deeper.next c = (s.next c).deeper := by
  obtain ⟨quoting, depth⟩ := s
  by_cases hquoted : quoting = .outside
  · subst hquoted
    by_cases hclosing : isClosing c = true
    · -- At depth 0 the bracket would close nothing, which is what `h` rules out.
      have hdepth : depth ≠ 0 := by
        rintro rfl
        simp [isTop, hclosing] at h
      rw [next_of_closing rfl hclosing, next_of_closing rfl hclosing]
      simp only [deeper, Scan.mk.injEq, true_and]
      omega
    · simp only [next, deeper, hclosing]
      split <;> rfl
  · rw [next_of_quoted hquoted, next_of_quoted hquoted]
    rfl

/-- One more open bracket makes no difference to a text that does not close it. -/
theorem after_deeper (h : s.stays xs = true) : s.deeper.after xs = (s.after xs).deeper := by
  induction xs generalizing s with
  | nil => rfl
  | cons c xs ih =>
    rw [stays, Bool.and_eq_true, Bool.not_eq_true'] at h
    rw [after_cons, next_deeper h.1, ih h.2, after_cons]

/-! ## Closed texts -/

/-- Scanned from outside quotes and brackets, the text closes what it opens and nothing else. -/
structure Closed (text : List Char) : Prop where
  stays : start.stays text = true
  ends : start.after text = start

instance (text : List Char) : Decidable (Closed text) :=
  decidable_of_iff (start.stays text = true ∧ start.after text = start)
    ⟨fun h => ⟨h.1, h.2⟩, fun h => ⟨h.stays, h.ends⟩⟩

namespace Closed

theorem nil : Closed [] := ⟨rfl, rfl⟩

theorem append (hx : Closed xs) (hy : Closed ys) : Closed (xs ++ ys) where
  stays := by rw [stays_append, hx.stays, hx.ends, hy.stays]; rfl
  ends := by rw [after_append, hx.ends, hy.ends]

/-- What stands in brackets is closed, and a closed text can stand there. -/
theorem inside_iff :
    start.inside xs = some (inner, rest) ↔
      ∃ c, isClosing c = true ∧ xs = inner ++ c :: rest ∧ Closed inner := by
  rw [inside_eq_some_iff]
  constructor
  · rintro ⟨c, hc, heq, hstays, hends⟩
    exact ⟨c, hc, heq, hstays, hends⟩
  · rintro ⟨c, hc, heq, hstays, hends⟩
    exact ⟨c, hc, heq, hstays, hends⟩

end Closed

end Scan

/-! ## Attribute lists -/

namespace Attr

variable {s after : List Char} {attrs : List Attr}

/-- An attribute list is a closed text in a parenthesis and some closing bracket, whose items can be
read. -/
theorem readList_eq_ok_iff :
    readList s = .ok (attrs, after) ↔
      ∃ inner c, isClosing c = true ∧ s = '(' :: (inner ++ c :: after) ∧ Scan.Closed inner ∧
        (splitItems .start [] inner).mapM readItem = .ok attrs := by
  constructor
  · intro h
    unfold readList at h
    split at h
    · split at h
      · cases h
      · rename_i rest _ inner after' hcut
        obtain ⟨items, hitems, h⟩ := exists_of_bind_eq_ok h
        cases h
        obtain ⟨c, hc, rfl, hinner⟩ := Scan.Closed.inside_iff.mp hcut
        exact ⟨inner, c, hc, rfl, hinner, hitems⟩
    · cases h
  · rintro ⟨inner, c, hc, rfl, hinner, hitems⟩
    rw [readList, Scan.Closed.inside_iff.mpr ⟨c, hc, rfl, hinner⟩]
    simp only [hitems]
    rfl

theorem scanList_eq_ok_iff {n : Nat} :
    scanList s = .ok (attrs, n) ↔
      ∃ inner c rest, isClosing c = true ∧ s = '(' :: (inner ++ c :: rest) ∧ Scan.Closed inner ∧
        (splitItems .start [] inner).mapM readItem = .ok attrs ∧
        n = Text.bytes ('(' :: (inner ++ [c])) := by
  -- The length of a list is what is left of the text's length without the rest.
  have hbytes (inner : List Char) (c : Char) (rest : List Char) :
      Text.bytes ('(' :: (inner ++ c :: rest)) - Text.bytes rest =
        Text.bytes ('(' :: (inner ++ [c])) := by
    simp only [Text.bytes, Text.bytes_append]
    omega
  constructor
  · intro h
    obtain ⟨⟨attrs', rest⟩, hread, h⟩ := exists_of_bind_eq_ok h
    cases h
    obtain ⟨inner, c, hc, rfl, hinner, hitems⟩ := readList_eq_ok_iff.mp hread
    exact ⟨inner, c, rest, hc, rfl, hinner, hitems, hbytes inner c rest⟩
  · rintro ⟨inner, c, rest, hc, rfl, hinner, hitems, rfl⟩
    rw [scanList, readList_eq_ok_iff.mpr ⟨inner, c, hc, rfl, hinner, hitems⟩, ← hbytes inner c rest]
    rfl

/-- A list that takes all of its text ends with its bracket. -/
theorem exists_of_scanList_bytes (h : scanList s = .ok (attrs, Text.bytes s)) :
    ∃ inner c, isClosing c = true ∧ s = '(' :: (inner ++ [c]) ∧ Scan.Closed inner ∧
      (splitItems .start [] inner).mapM readItem = .ok attrs := by
  obtain ⟨inner, c, rest, hc, rfl, hinner, hitems, hbytes⟩ := scanList_eq_ok_iff.mp h
  obtain rfl : rest = [] := by
    refine Text.eq_nil_of_bytes_eq_zero ?_
    simp only [Text.bytes, Text.bytes_append] at hbytes
    omega
  exact ⟨inner, c, hc, rfl, hinner, hitems⟩

/-- Such a list is read from any longer text too. -/
theorem readList_append (h : scanList s = .ok (attrs, Text.bytes s)) (rest : List Char) :
    readList (s ++ rest) = .ok (attrs, rest) := by
  obtain ⟨inner, c, hc, rfl, hinner, hitems⟩ := exists_of_scanList_bytes h
  exact readList_eq_ok_iff.mpr ⟨inner, c, hc, by simp, hinner, hitems⟩

end Attr

end Offside
