import Offside.Proofs.Source.Segments
import Offside.Proofs.Template.Reread

/-!
# The ends of lines

How a line ends does not matter. White space at the end of a line is trimmed wherever the line is
read, and a carriage return is white space, so it makes no difference whether a line ends in a line
feed or in a carriage return and a line feed. Where white space is all there is, it may show in the
width of the line, but the line is blank, and nobody asks for the width of a blank line. So a source
can be respaced at the end of any of its lines and parses as before, places and verbatim texts
included (`parse_respaced`).

Behind the last line feed white space makes a line where there was none. That line is blank, and
blank lines at the end of a source can be left out.
-/

set_option autoImplicit false

namespace Offside

open List

namespace Text

/-- White space that stays on its line. -/
def IsGap (w : List Char) : Prop :=
  IsSpaces w ∧ '\n' ∉ w

theorem IsGap.trimEnd_eq {w : List Char} (hw : IsGap w) : trimEnd w = [] :=
  trimEnd_eq_nil_iff.mpr hw.1

theorem IsGap.concat_return {w : List Char} (hw : IsGap w) : IsGap (w ++ ['\r']) := by
  have hreturn : IsSpaces ['\r'] := forall_mem_singleton.mpr rfl
  exact ⟨hw.1.append hreturn, by simp [hw.2]⟩

theorem isSpace_of_isIndent {c : Char} (hc : isIndent c = true) : isSpace c = true := by
  simp only [isIndent, Bool.or_eq_true, beq_iff_eq] at hc
  rcases hc with rfl | rfl <;> rfl

/-- What is trimmed at the end of a text depends on its own end only. -/
theorem trimEnd_append_congr (a : List Char) {b b' : List Char} (h : trimEnd b = trimEnd b') :
    trimEnd (a ++ b) = trimEnd (a ++ b') := by
  by_cases hb : trimEnd b = []
  · have hb' : trimEnd b' = [] := h.symm.trans hb
    rw [(trimEnd_eq_nil_iff.mp hb).trimEnd_append, (trimEnd_eq_nil_iff.mp hb').trimEnd_append]
  · rw [trimEnd_append a hb, trimEnd_append a (h ▸ hb), h]

end Text

namespace Line

open Text

/-! ## One line -/

/-- A line is blank if all of its text is white space. -/
theorem isBlank_ofText_iff {n : Nat} {s : List Char} :
    (ofText n s).isBlank = true ↔ trimEnd s = [] := by
  rw [isBlank_ofText_eq_true, trimEnd_eq_nil_iff, trimEnd_eq_nil_iff]
  constructor
  · intro h c hc
    rw [← takeWhile_append_dropWhile (p := isIndent) (l := s), mem_append] at hc
    rcases hc with hc | hc
    · exact isSpace_of_isIndent (mem_takeWhile_imp hc)
    · exact h c hc
  · exact fun h c hc => h c ((dropWhile_suffix _).subset hc)

end Line

namespace Template

open Text

variable {f : Option String}

/-- Texts that differ in the white space at their end make the same line, but for the width of a
blank one. -/
theorem moved_of_trimEnd_eq (n : Nat) {s s' : List Char} (h : trimEnd s = trimEnd s') :
    Moved f f id 0 (.ofText n s) (.ofText n s') := by
  -- A blank line may change its width, and any other line is the same line.
  cases hb : (Line.ofText n s).isBlank with
  | true =>
    have hb' : (Line.ofText n s').isBlank = true :=
      Line.isBlank_ofText_iff.mpr (h ▸ Line.isBlank_ofText_iff.mp hb)
    refine ⟨rfl, ?_, fun hne => ?_, fun hne => ?_⟩
    · rw [Line.content_of_isBlank hb, Line.content_of_isBlank hb']
    · exact absurd (hb.symm.trans hne) (by decide)
    · exact absurd (hb.symm.trans hne) (by decide)
  | false =>
    have hb' : (Line.ofText n s').isBlank = false := by
      rw [← Bool.not_eq_true, Line.isBlank_ofText_iff, ← h, ← Line.isBlank_ofText_iff (n := n), hb]
      decide
    have hline : Line.ofText n s' = Line.ofText n s := by
      rw [← Line.ofText_trimEnd hb', ← h, Line.ofText_trimEnd hb]
    rw [hline]
    exact ⟨rfl, rfl, fun _ => rfl, fun _ => rfl⟩

theorem moved_numberFrom_of_trimEnd_eq (n : Nat) {texts texts' : List (List Char)}
    (h : Forall₂ (fun s s' => trimEnd s = trimEnd s') texts texts') :
    Forall₂ (Moved f f id 0) (Line.numberFrom n texts) (Line.numberFrom n texts') := by
  induction h generalizing n with
  | nil => exact .nil
  | cons hs _ ih => exact .cons (moved_of_trimEnd_eq n hs) (ih (n + 1))

end Template

/-! ## Whole sources -/

namespace Line

open Text

/-- The second text is the first with other ends of lines: there may be more white space at the end
of any line, also behind the last line feed, and any line feed may have become a carriage return and
a line feed. -/
inductive Respaced : List Char → List Char → Prop
  | last {w : List Char} (hw : IsGap w) : Respaced [] w
  | feed {w s s' : List Char} (hw : IsGap w) (h : Respaced s s') :
      Respaced ('\n' :: s) (w ++ '\n' :: s')
  | toReturn {w s s' : List Char} (hw : IsGap w) (h : Respaced s s') :
      Respaced ('\n' :: s) (w ++ '\r' :: '\n' :: s')
  /-- In a line that ends in a carriage return already, the white space is put in front of it. -/
  | atReturn {w s s' : List Char} (hw : IsGap w) (h : Respaced s s') :
      Respaced ('\r' :: '\n' :: s) (w ++ '\r' :: '\n' :: s')
  | char {c : Char} {s s' : List Char} (hc : c ≠ '\n') (h : Respaced s s') :
      Respaced (c :: s) (c :: s')

theorem Respaced.line {t s s' : List Char} (ht : '\n' ∉ t) (h : Respaced s s') :
    Respaced (t ++ s) (t ++ s') := by
  induction t with
  | nil => exact h
  | cons c t ih =>
    rw [mem_cons, not_or] at ht
    exact .char (Ne.symm ht.1) (ih ht.2)

/-- The texts of lines but for the white space at their ends, and blank texts behind them. -/
def SameEnds (texts texts' : List (List Char)) : Prop :=
  ∃ same blank, texts' = same ++ blank ∧ Forall₂ (fun s s' => trimEnd s = trimEnd s') texts same ∧
    ∀ w ∈ blank, trimEnd w = []

theorem SameEnds.cons {s s' : List Char} {texts texts' : List (List Char)}
    (hs : trimEnd s = trimEnd s') (h : SameEnds texts texts') :
    SameEnds (s :: texts) (s' :: texts') := by
  obtain ⟨same, blank, rfl, hsame, hblank⟩ := h
  exact ⟨s' :: same, blank, rfl, .cons hs hsame, hblank⟩

theorem sameEnds_gap {w : List Char} (hw : IsGap w) : SameEnds [] (segments w) := by
  refine ⟨[], segments w, rfl, .nil, fun s hs => ?_⟩
  by_cases hne : w = []
  · rw [hne] at hs
    cases hs
  · rw [segments_last hw.2 hne, mem_singleton] at hs
    rw [hs, hw.trimEnd_eq]

/-- A respaced text falls into the same lines but for the white space at their ends. -/
theorem Respaced.segments {s s' : List Char} (h : Respaced s s') :
    SameEnds (segments s) (segments s') := by
  have hblank {s w : List Char} (hs : IsGap s) (hw : IsGap w) : trimEnd s = trimEnd w := by
    rw [hs.trimEnd_eq, hw.trimEnd_eq]
  have hnil : IsGap [] := ⟨isSpaces_nil, not_mem_nil⟩
  induction h with
  | last hw => exact sameEnds_gap hw
  | feed hw _ ih =>
    rw [segments_newline, segments_line hw.2]
    exact ih.cons (hblank hnil hw)
  | toReturn hw _ ih =>
    rw [append_cons, segments_newline, segments_line hw.concat_return.2]
    exact ih.cons (hblank hnil hw.concat_return)
  | atReturn hw _ ih =>
    have hreturn : IsGap ['\r'] := hnil.concat_return
    rw [append_cons, ← singleton_append, segments_line hreturn.2,
      segments_line hw.concat_return.2]
    exact ih.cons (hblank hreturn hw.concat_return)
  | @char c s s' hc h ih =>
    have hchar {t t' : List Char} (ht : trimEnd t = trimEnd t') :
        trimEnd (c :: t) = trimEnd (c :: t') := trimEnd_append_congr [c] ht
    cases hs : Line.segments s with
    | nil =>
      -- There is nothing behind the character, so all that can follow it is white space.
      obtain rfl : s = [] := by
        by_contra hne
        exact segments_ne_nil hne hs
      cases h with
      | last hw =>
        have hline : '\n' ∉ c :: s' := by
          rw [mem_cons, not_or]
          exact ⟨hc.symm, hw.2⟩
        rw [segments_last hline (cons_ne_nil c s'), segments_cons_of_ne hc]
        exact SameEnds.cons (hchar (hblank hnil hw)) ⟨[], [], rfl, .nil, by simp⟩
    | cons t more =>
      obtain ⟨same, blank, hsegments, hsame, hblank⟩ := ih
      rw [hs] at hsame
      obtain ⟨t', more', ht, hmore, rfl⟩ := forall₂_cons_left_iff.mp hsame
      rw [segments_cons_of_ne hc, segments_cons_of_ne hc, hs, hsegments]
      exact ⟨(c :: t') :: more', blank, rfl, .cons (hchar ht) hmore, hblank⟩

end Line

namespace Template

/-- The lines of a respaced source are read like those of the source. -/
theorem nodesOf_respaced {f : Option String} {s s' : String}
    (h : Line.Respaced s.toList s'.toList) :
    nodesOf f (Line.ofSource s') = nodesOf f (Line.ofSource s) := by
  obtain ⟨same, blank, hsegments, hsame, hblank⟩ := h.segments
  have hlines : Line.ofSource s' =
      Line.numberFrom 1 same ++ Line.numberFrom (1 + same.length) blank := by
    rw [Line.ofSource, hsegments, Line.numberFrom_append]
  rw [hlines, nodesOf_append_blank _ fun l hl => ?_,
    nodesOf_moved (moved_numberFrom_of_trimEnd_eq 1 hsame), mapBoth_move_id, Line.ofSource]
  obtain ⟨n, w, hw, rfl⟩ := Line.exists_of_mem_numberFrom hl
  exact Line.isBlank_ofText_iff.mpr (hblank w hw)

/-- How lines end does not matter. A source with more white space at the end of any of its lines,
and with carriage returns in front of any of its line feeds, parses to the same tree, or fails with
the same error. -/
theorem parse_respaced {s s' : String} (h : Line.Respaced s.toList s'.toList)
    (f : Option String) : parse s' f = parse s f := by
  rw [parse, parse, nodesOf_respaced h]

/-- A verbatim body with a blank line in it, a carriage return inside a line and one at its end, and
white space behind the last line feed. -/
theorem parse_respaced_verbatim :
    let s := "p.\n  a\n\n   b\rc\r\nul\n"
    let s' := "p.\t\r\n  a\n \u00a0\r\n   b\rc \r\nul\r\n\t\u2003"
    Line.Respaced s.toList s'.toList ∧ (parse s none).isOk = true ∧
      parse s' none = parse s none := by
  intro s s'
  have hgap (w : List Char) (hw : w.all Text.isSpace = true) (hline : '\n' ∉ w) : Text.IsGap w :=
    ⟨all_eq_true.mp hw, hline⟩
  have hrespaced : Line.Respaced s.toList s'.toList := by
    have hs : s.toList = "p.".toList ++ '\n' :: ("  a".toList ++ '\n' :: '\n' ::
        ("   b\rc".toList ++ '\r' :: '\n' :: ("ul".toList ++ '\n' :: []))) := by
      decide +kernel
    have hs' : s'.toList = "p.".toList ++ (['\t'] ++ '\r' :: '\n' :: ("  a".toList ++
        ([] ++ '\n' :: ([' ', '\u00a0'] ++ '\r' :: '\n' :: ("   b\rc".toList ++
          ([' '] ++ '\r' :: '\n' :: ("ul".toList ++
            ([] ++ '\r' :: '\n' :: ['\t', '\u2003'])))))))) := by
      decide +kernel
    rw [hs, hs']
    refine .line (by decide) (.toReturn (hgap _ rfl (by decide)) ?_)
    refine .line (by decide) (.feed (hgap _ rfl (by decide)) ?_)
    refine .toReturn (hgap _ rfl (by decide)) ?_
    refine .line (by decide) (.atReturn (hgap _ rfl (by decide)) ?_)
    exact .line (by decide) (.toReturn (hgap _ rfl (by decide)) (.last (hgap _ rfl (by decide))))
  exact ⟨hrespaced, by decide +kernel, parse_respaced hrespaced none⟩

end Template

end Offside
