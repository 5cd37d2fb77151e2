import Offside.Proofs.Template.Capture

/-!
# Indenting a whole template

Only differences of widths count. When the same indentation is put in front of every line of a
source, all lines move to the right together, and the source parses to the same tree, places
included, or fails with the same error. The one thing that shows is the column of a line that goes
back to a width no open level has (`parse_indented`).

What a line is, is clear except at the end: behind a last line feed there is an empty text, which
may be taken for a line or not. Indentation alone is a blank line, so it makes no difference.
-/

set_option autoImplicit false

namespace Offside

open List

namespace Line

/-- The text with `w` in front and behind each of its line feeds, the last one included. -/
def indentEach (w s : List Char) : List Char :=
  w ++ s.flatMap fun c => if c = '\n' then '\n' :: w else [c]

/-- The text `t` is `s` with `w` in front of each of its lines; the empty text behind a last line
feed counts as a line or not. -/
def Indented (w s t : String) : Prop :=
  t.toList = indentLines w.toList s.toList ∨ t.toList = indentEach w.toList s.toList

/-- The last line feed of a text is where the two ways to indent differ. -/
theorem flatMap_eq_indentAfter (w s : List Char) :
    (s.flatMap fun c => if c = '\n' then '\n' :: w else [c]) =
      indentAfter w s ++ if s.getLast? = some '\n' then w else [] := by
  -- A line feed with nothing behind it is the case that `indentAfter` leaves alone.
  fun_induction indentAfter w s with
  | case1 => rfl
  | case2 => simp
  | case3 rest hrest ih =>
    have hne : rest ≠ [] := fun h => hrest (by rw [h])
    simp [ih, getLast?_cons_of_ne_nil hne]
  | case4 c rest hlast hc ih =>
    have hc' : c ≠ '\n' := fun h => hc h
    cases rest with
    | nil => simp [indentAfter, hc']
    | cons d rest => simp [ih, hc', getLast?_cons_cons]

theorem getLast?_indentAfter (w : List Char) {s : List Char} (h : s.getLast? = some '\n') :
    (indentAfter w s).getLast? = some '\n' := by
  fun_induction indentAfter w s with
  | case1 => simp at h
  | case2 => rfl
  | case3 rest hrest ih =>
    have hne : rest ≠ [] := fun h => hrest (by rw [h])
    have hlast := ih (by simpa [getLast?_cons_of_ne_nil hne] using h)
    simp [getLast?_append, getLast?_cons, hlast]
  | case4 c rest hlast hc ih =>
    cases rest with
    | nil => exact absurd (by simpa using h) hc
    | cons d rest =>
      have hlast := ih (by simpa [getLast?_cons_cons] using h)
      simp [getLast?_cons, hlast]

/-- Behind the lines of an indented text there is at most a line of indentation only. -/
theorem segments_indentEach {w : List Char} (hw : '\n' ∉ w) (s : List Char) :
    segments (indentEach w s) = (segments s).map (w ++ ·) ∨
      segments (indentEach w s) = (segments s).map (w ++ ·) ++ [w] := by
  have hlast : segments w = [] ∨ segments w = [w] := by
    by_cases hne : w = []
    · exact .inl (by rw [hne]; rfl)
    · exact .inr (segments_last hw hne)
  by_cases hs : s = []
  · subst hs
    simpa [indentEach] using hlast
  have hlines : indentLines w s = w ++ indentAfter w s := if_neg (by simpa using hs)
  have heach : indentEach w s = indentLines w s ++ if s.getLast? = some '\n' then w else [] := by
    rw [indentEach, flatMap_eq_indentAfter, hlines, append_assoc]
  rw [heach]
  split
  · rename_i hend
    -- The indented text ends with a line feed as well, so what follows is a line by itself.
    obtain ⟨init, hinit⟩ : ∃ init, indentLines w s = init ++ ['\n'] := by
      have hafter := getLast?_indentAfter w hend
      refine ⟨w ++ (indentAfter w s).dropLast, ?_⟩
      rw [hlines, append_assoc, dropLast_append_getLast? _ (Option.mem_def.mpr hafter)]
    have hsegments :
        segments (indentLines w s ++ w) = segments (indentLines w s) ++ segments w := by
      rw [hinit, append_assoc, singleton_append, segments_append_newline]
    rw [hsegments, segments_indentLines hw]
    exact hlast.imp (by simp +contextual) (by simp +contextual)
  · rw [append_nil]
    exact .inl (segments_indentLines hw s)

/-- Indentation alone is a blank line. -/
theorem isBlank_ofText_indent (n : Nat) {w : List Char} (hw : ∀ c ∈ w, Text.isIndent c = true) :
    (ofText n w).isBlank = true := by
  rw [isBlank_ofText_eq_true, dropWhile_eq_nil_iff.mpr hw]
  rfl

end Line

namespace Template

/-- The lines of an indented source, without a blank one that may follow, are those of the source
further right. -/
theorem nodesOf_indented {f : Option String} {w s t : String}
    (hw : ∀ c ∈ w.toList, Text.isIndent c = true) (h : Line.Indented w s t) :
    nodesOf f (Line.ofSource t) =
      mapBoth (ParseError.move id w.toList.length) id (nodesOf f (Line.ofSource s)) := by
  have hnl : '\n' ∉ w.toList := fun hmem => absurd (hw _ hmem) (by decide)
  have hmoved : nodesOf f (Line.numberFrom 1 ((Line.segments s.toList).map (w.toList ++ ·))) =
      mapBoth (ParseError.move id w.toList.length) id (nodesOf f (Line.ofSource s)) := by
    rw [nodesOf_moved (moved_indented hw 1 (Line.segments s.toList))]
    congr 1
    funext nodes
    rw [map_congr_left fun n _ => Node.mapPlace_id n, map_id', id]
  rw [← hmoved, Line.ofSource]
  rcases h with h | h
  · rw [h, Line.segments_indentLines hnl]
  · rw [h]
    rcases Line.segments_indentEach hnl s.toList with hseg | hseg
    · rw [hseg]
    · rw [hseg, Line.numberFrom_append]
      refine nodesOf_append_blank _ fun l hl => ?_
      obtain rfl := mem_singleton.mp hl
      exact Line.isBlank_ofText_indent _ hw

/-- Uniform indentation does not matter. If every line of a source is indented by the same spaces
and tabs, the source parses to the same tree, lines and texts included; if it does not parse, the
error is the same, except that a line that goes back to no open level is found that much further to
the right. -/
theorem parse_indented {w s t : String} (hw : ∀ c ∈ w.toList, c = ' ' ∨ c = '\t')
    (h : Line.Indented w s t) (f : Option String) :
    match parse s f with
    | .ok root => parse t f = .ok root
    | .error ⟨place, .dedent found⟩ => parse t f = .error ⟨place, .dedent (found + w.length)⟩
    | .error e => parse t f = .error e := by
  have hindent : ∀ c ∈ w.toList, Text.isIndent c = true := by
    intro c hc
    rcases hw c hc with rfl | rfl <;> rfl
  have hnodes := nodesOf_indented (f := f) hindent h
  rw [parse, parse, hnodes, String.length_toList]
  cases nodesOf f (Line.ofSource s) with
  | ok nodes => rfl
  | error e =>
    obtain ⟨place, fault⟩ := e
    cases fault <;> rfl

/-- A line below a capture goes back to a width that no level has. -/
theorem parse_indented_dedent :
    (∀ c ∈ "\t ".toList, c = ' ' ∨ c = '\t') ∧
      Line.Indented "\t " "ul\n    :capture\n      b\n  li\n"
        "\t ul\n\t     :capture\n\t       b\n\t   li\n" ∧
      parse "ul\n    :capture\n      b\n  li\n" none = .error ⟨⟨4, none⟩, .dedent 2⟩ ∧
      parse "\t ul\n\t     :capture\n\t       b\n\t   li\n" none =
        .error ⟨⟨4, none⟩, .dedent 4⟩ := by
  have hw : ∀ c ∈ "\t ".toList, c = ' ' ∨ c = '\t' := by simp
  have hindented : Line.Indented "\t " "ul\n    :capture\n      b\n  li\n"
      "\t ul\n\t     :capture\n\t       b\n\t   li\n" := .inl (by decide +kernel)
  have hparse : parse "ul\n    :capture\n      b\n  li\n" none =
      .error ⟨⟨4, none⟩, .dedent 2⟩ := by
    have hfault : (parse "ul\n    :capture\n      b\n  li\n" none).map (fun _ => ()) =
        .error ⟨⟨4, none⟩, .dedent 2⟩ := by
      decide +kernel
    exact eq_error_of_map hfault
  have hmoved := parse_indented hw hindented none
  rw [hparse] at hmoved
  exact ⟨hw, hindented, hparse, hmoved⟩

end Template

end Offside
