import Mathlib.Data.List.DropRight
import Mathlib.Data.List.TakeWhile
import Offside.Source.Line

/-!
# What a line makes of its text

The three readings of a line's text (its width, its content and its raw text) fit together: for a
line that is not blank the raw text is the indentation followed by the content. A blank line is one
of white space only, and has nothing to it but its number.
-/

set_option autoImplicit false

namespace Offside

namespace Text

open List

/-! ## Trimming at the end -/

theorem trimEnd_eq_rdropWhile (s : List Char) : trimEnd s = s.rdropWhile isSpace := rfl

theorem trimEnd_isPrefix (s : List Char) : trimEnd s <+: s :=
  rdropWhile_prefix isSpace s

@[simp] theorem trimEnd_trimEnd (s : List Char) : trimEnd (trimEnd s) = trimEnd s :=
  rdropWhile_idempotent isSpace s

/-- Only what is behind the last character that is not white space is trimmed. -/
theorem trimEnd_append (a : List Char) {b : List Char} (hb : trimEnd b ≠ []) :
    trimEnd (a ++ b) = a ++ trimEnd b := by
  unfold trimEnd at hb ⊢
  have hne : (b.reverse.dropWhile isSpace).isEmpty = false := by
    rw [isEmpty_eq_false_iff]
    exact fun h => hb (by rw [h]; rfl)
  rw [reverse_append, dropWhile_append, hne, if_neg Bool.false_ne_true, reverse_append,
    reverse_reverse]

/-- The text is white space. -/
def IsSpaces (w : List Char) : Prop :=
  ∀ c ∈ w, isSpace c = true

theorem trimEnd_eq_nil_iff {s : List Char} : trimEnd s = [] ↔ IsSpaces s := by
  rw [trimEnd_eq_rdropWhile, rdropWhile_eq_nil_iff]
  rfl

theorem IsSpaces.trimEnd_append {w : List Char} (hw : IsSpaces w) (s : List Char) :
    trimEnd (s ++ w) = trimEnd s := by
  rw [trimEnd, reverse_append, dropWhile_append_of_pos fun c hc => hw c (mem_reverse.mp hc)]
  rfl

theorem isSpaces_nil : IsSpaces [] :=
  fun _ hc => absurd hc not_mem_nil

theorem IsSpaces.append {a b : List Char} (ha : IsSpaces a) (hb : IsSpaces b) :
    IsSpaces (a ++ b) := by
  intro c hc
  rcases mem_append.mp hc with hc | hc
  · exact ha c hc
  · exact hb c hc

end Text

namespace Line

open List Text

variable {number : Nat} {s : List Char}

/-- A line is blank when its text behind the indentation is white space. -/
theorem isBlank_ofText_eq_true :
    (ofText number s).isBlank = true ↔ trimEnd (s.dropWhile isIndent) = [] := by
  simp [isBlank, ofText]

theorem isBlank_ofText_eq_false :
    (ofText number s).isBlank = false ↔ trimEnd (s.dropWhile isIndent) ≠ [] := by
  rw [← Bool.not_eq_true, isBlank_ofText_eq_true]

theorem trimEnd_of_not_isBlank (hb : (ofText number s).isBlank = false) :
    trimEnd s = s.takeWhile isIndent ++ trimEnd (s.dropWhile isIndent) := by
  rw [← trimEnd_append _ (isBlank_ofText_eq_false.mp hb), takeWhile_append_dropWhile]

/-- The raw text of a line that is not blank is its indentation and then its content. -/
theorem raw_ofText (hb : (ofText number s).isBlank = false) :
    (ofText number s).raw.toList =
      s.takeWhile isIndent ++ (ofText number s).content.toList := by
  simp [ofText, trimEnd_of_not_isBlank hb]

theorem content_of_isBlank {l : Line} (hb : l.isBlank = true) : l.content = "" := by
  simpa [isBlank] using hb

/-- White space at the end of a line that is not blank does not matter. -/
theorem ofText_trimEnd (hb : (ofText number s).isBlank = false) :
    ofText number (trimEnd s) = ofText number s := by
  have hs := trimEnd_of_not_isBlank hb
  have hpad : ∀ c ∈ s.takeWhile isIndent, isIndent c = true := fun c hc => mem_takeWhile_imp hc
  -- The content starts with a character that is no indentation, trimmed or not.
  have hhead : ∀ c ∈ (trimEnd (s.dropWhile isIndent)).head?, isIndent c = false := by
    intro c hc
    obtain ⟨t, ht⟩ := trimEnd_isPrefix (s.dropWhile isIndent)
    have hnot := head?_dropWhile_not isIndent s
    rw [← ht, head?_append, Option.mem_def.mp hc] at hnot
    exact hnot
  have htake : (trimEnd (s.dropWhile isIndent)).takeWhile isIndent = [] := by
    cases htrim : trimEnd (s.dropWhile isIndent) with
    | nil => rfl
    | cons c cs => exact takeWhile_cons_of_neg (by simp [hhead c (by rw [htrim]; rfl)])
  have hdrop : (trimEnd (s.dropWhile isIndent)).dropWhile isIndent =
      trimEnd (s.dropWhile isIndent) := by
    cases htrim : trimEnd (s.dropWhile isIndent) with
    | nil => rfl
    | cons c cs => exact dropWhile_cons_of_neg (by simp [hhead c (by rw [htrim]; rfl)])
  have hindent : (trimEnd s).takeWhile isIndent = s.takeWhile isIndent := by
    rw [hs, takeWhile_append_of_pos hpad, htake, append_nil]
  have hcontent : (trimEnd s).dropWhile isIndent = trimEnd (s.dropWhile isIndent) := by
    rw [hs, dropWhile_append_of_pos hpad, hdrop]
  simp [ofText, hindent, hcontent]

end Line

end Offside
