import Offside.Proofs.Compile.Nested
import Offside.Proofs.Template.Capture

/-!
# Concatenated templates

Two templates, one below the other, are one template if their lines agree on the level they stand
on. Nothing at the end of the first one reaches into the second, whatever its last line is: a line
takes what lies below it, and nothing of the second template does. So the nodes of the whole are
those of the first and, further down, those of the second (`nodesOf_concat`), and it compiles
accordingly (`source_concat`).
-/

set_option autoImplicit false

namespace Offside

open List

namespace Line

/-- A line feed at the end of a text ends its last line or is a blank line of its own. -/
theorem segments_concat_newline (s : List Char) :
    segments (s ++ ['\n']) = segments s ∨ segments (s ++ ['\n']) = segments s ++ [[]] := by
  induction s with
  | nil => exact .inr rfl
  | cons c s ih =>
    -- By the first character, which does not matter for the end unless nothing follows it.
    by_cases hc : c = '\n'
    · subst hc
      simpa using ih
    · rw [cons_append, segments_cons_of_ne hc, segments_cons_of_ne hc]
      rcases ih with ih | ih
      · exact .inl (by rw [ih])
      · cases hs : segments s with
        | nil => exact .inl (by simp [ih, hs])
        | cons y more => exact .inr (by simp [ih, hs])

/-- How many lines further down a source starts that is put below `s`. -/
def rowsOf (s : String) : Nat :=
  1 + s.toList.count '\n'

/-- The lines of a source and of one below it. -/
theorem ofSource_concat (s t : String) :
    ∃ blanks, (∀ l ∈ blanks, l.isBlank = true) ∧
      ofSource (s ++ "\n" ++ t) =
        (ofSource s ++ blanks) ++ numberFrom (1 + rowsOf s) (segments t.toList) := by
  have hlines : ofSource (s ++ "\n" ++ t) =
      numberFrom 1 (segments (s.toList ++ ['\n'])) ++
        numberFrom (1 + rowsOf s) (segments t.toList) := by
    have hlist : (s ++ "\n" ++ t).toList = s.toList ++ '\n' :: t.toList := by simp
    rw [ofSource, hlist, segments_append_newline, numberFrom_append, length_segments_newline,
      rowsOf, Nat.add_comm (s.toList.count '\n')]
  -- Whether there is a blank line in between depends on how `s` ends.
  rcases segments_concat_newline s.toList with hs | hs
  · exact ⟨[], by simp, by rw [hlines, hs, append_nil]; rfl⟩
  · refine ⟨[.ofText (1 + (segments s.toList).length) []], ?_, ?_⟩
    · simp [isBlank, ofText, Text.trimEnd]
    rw [hlines, hs, numberFrom_append]
    rfl

end Line

namespace Template

variable {f : Option String}

/-- One of the two has only blank lines, or their first lines that are not blank are indented
alike. -/
def SameLevel (xs ys : List Line) : Prop :=
  (∀ l ∈ xs, l.isBlank = true) ∨ (∀ l ∈ ys, l.isBlank = true) ∨ levelOf xs = levelOf ys

/-- Lines on the same level are read one after the other. -/
theorem nodesOf_append {xs ys : List Line} (h : SameLevel xs ys) :
    nodesOf f (xs ++ ys) =
      (nodesOf f xs).bind fun a => (nodesOf f ys).bind fun b => .ok (a ++ b) := by
  rcases h with hxs | hys | hlevel
  · have hlevel : levelOf (xs ++ ys) = levelOf ys := by
      rw [levelOf_eq_widths, levelOf_eq_widths, widths_append,
        widths_eq_nil_iff.mpr hxs, nil_append]
    simp only [nodesOf]
    rw [hlevel, siblings_append (Nat.le_refl _), siblings_of_blank _ hxs, siblings_of_blank _ hxs]
  · have hnil : nodesOf f ys = .ok [] := siblings_of_blank _ hys
    rw [nodesOf_append_blank xs hys, hnil]
    cases nodesOf f xs <;> simp [Except.bind]
  · have happend : levelOf (xs ++ ys) = levelOf xs := by
      rw [levelOf_eq_widths, levelOf_eq_widths] at hlevel
      rw [levelOf_eq_widths, levelOf_eq_widths, widths_append]
      cases hw : widths xs with
      | nil => simpa [hw] using hlevel.symm
      | cons w ws => simp
    simp only [nodesOf]
    rw [happend, siblings_append (Nat.le_of_eq hlevel.symm), ← hlevel]

/-- The lines of a source stay what they are further down. -/
theorem moved_below (rows n : Nat) (texts : List (List Char)) :
    Forall₂ (Moved f f (Place.shift (.ofNat rows)) 0) (Line.numberFrom n texts)
      (Line.numberFrom (n + rows) texts) := by
  induction texts generalizing n with
  | nil => exact .nil
  | cons s rest ih =>
    refine .cons (moved_ofText n (w := []) (by simp) s) ?_
    rw [Nat.add_right_comm]
    exact ih (n + 1)

/-- The nodes of two sources, one below the other. -/
theorem nodesOf_concat {s t : String} (h : SameLevel (Line.ofSource s) (Line.ofSource t)) :
    nodesOf f (Line.ofSource (s ++ "\n" ++ t)) =
      (nodesOf f (Line.ofSource s)).bind fun a =>
        (mapBoth (ParseError.move (Place.shift (.ofNat (Line.rowsOf s))) 0)
          (map (Node.shift (.ofNat (Line.rowsOf s)))) (nodesOf f (Line.ofSource t))).bind fun b =>
            .ok (a ++ b) := by
  obtain ⟨blanks, hblanks, hlines⟩ := Line.ofSource_concat s t
  have hmoved : Forall₂ (Moved f f (Place.shift (.ofNat (Line.rowsOf s))) 0) (Line.ofSource t)
      (Line.numberFrom (1 + Line.rowsOf s) (Line.segments t.toList)) := moved_below _ 1 _
  -- Further down the lines are as wide as before, so the level they are on is the same too.
  have hwidths : widths (Line.numberFrom (1 + Line.rowsOf s) (Line.segments t.toList)) =
      widths (Line.ofSource t) := by
    simpa using widths_moved hmoved
  have hlevel : SameLevel (Line.ofSource s ++ blanks)
      (Line.numberFrom (1 + Line.rowsOf s) (Line.segments t.toList)) := by
    rcases h with hs | ht | heq
    · exact .inl fun l hl => (mem_append.mp hl).elim (hs l) (hblanks l)
    · exact .inr (.inl (widths_eq_nil_iff.mp (hwidths.trans (widths_eq_nil_iff.mpr ht))))
    · refine .inr (.inr ?_)
      rw [levelOf_append_blank _ hblanks, heq, levelOf_eq_widths, levelOf_eq_widths, hwidths]
  rw [hlines, nodesOf_append hlevel, nodesOf_append_blank _ hblanks, nodesOf_moved hmoved]
  rfl

end Template

namespace Compile

/-- Concatenating templates concatenates their output. If two sources parse and stand on the same
level, the first above the second parses to the nodes of both, the second ones further down; and it
compiles to what both compile to, the second further down again. It fails as the first does and, if
that does not fail, as the second does, there too further down. -/
theorem source_concat (o : Options) {s t : String} {root root' : Node}
    (hs : Template.parse s o.filename = .ok root) (ht : Template.parse t o.filename = .ok root')
    (h : Template.SameLevel (Line.ofSource s) (Line.ofSource t)) :
    Template.parse (s ++ "\n" ++ t) o.filename =
        .ok (.block (.plain (root.children ++
          root'.children.map (Node.shift (.ofNat (1 + s.toList.count '\n'))))) ⟨1, o.filename⟩) ∧
      Compile.source o (s ++ "\n" ++ t) =
        (Compile.source o s).bind fun a =>
          (mapBoth (CompileError.shift (.ofNat (1 + s.toList.count '\n')))
            (map (IR.shift (.ofNat (1 + s.toList.count '\n')))) (Compile.source o t)).bind fun b =>
              .ok (a ++ b) := by
  obtain ⟨nodes, hnodes, rfl⟩ := exists_of_map_eq_ok hs
  obtain ⟨nodes', hnodes', rfl⟩ := exists_of_map_eq_ok ht
  have hconcat := Template.nodesOf_concat (f := o.filename) h
  rw [hnodes, hnodes'] at hconcat
  constructor
  · rw [Template.parse, hconcat]
    rfl
  · -- The nodes of the second source are compiled further down, captured text included.
    have hground := Template.grounded_of_nodesOf hnodes'
    simp only [source_eq, nested_eq_visitLines, visitLines, hnodes, hnodes', hconcat]
    exact (visitAll_append nodes _).trans (by rw [visitAll_shift hground]; rfl)

/-- A source that ends in the body of a capture, above one that captures text under a name. -/
theorem source_concat_captures :
    Template.parse ":capture\n  b" none =
        .ok (.block (.plain [.frame (.filter "capture" []) (.plain [.leaf (.text "b") ⟨2, none⟩])
          ⟨1, none⟩]) ⟨1, none⟩) ∧
      Template.parse ":capture(as='x')\n i\n" none =
        .ok (.block (.plain [.frame (.filter "capture" [⟨"as", .expr "'x'", true⟩])
          (.plain [.leaf (.text "i") ⟨2, none⟩]) ⟨1, none⟩]) ⟨1, none⟩) ∧
      Template.SameLevel (Line.ofSource ":capture\n  b") (Line.ofSource ":capture(as='x')\n i\n") ∧
      Template.parse (":capture\n  b" ++ "\n" ++ ":capture(as='x')\n i\n") none =
        .ok (.block (.plain [.frame (.filter "capture" []) (.plain [.leaf (.text "b") ⟨2, none⟩])
            ⟨1, none⟩, .frame (.filter "capture" [⟨"as", .expr "'x'", true⟩])
            (.plain [.leaf (.text "i") ⟨4, none⟩]) ⟨3, none⟩]) ⟨1, none⟩) ∧
      Compile.source {} (":capture\n  b" ++ "\n" ++ ":capture(as='x')\n i\n") =
        (Compile.source {} ":capture\n  b").bind fun a =>
          (mapBoth (CompileError.shift 2) (map (IR.shift 2))
            (Compile.source {} ":capture(as='x')\n i\n")).bind fun b => .ok (a ++ b) := by
  have hs : Template.parse ":capture\n  b" none =
      .ok (.block (.plain [.frame (.filter "capture" []) (.plain [.leaf (.text "b") ⟨2, none⟩])
        ⟨1, none⟩]) ⟨1, none⟩) :=
    congrArg (Except.map _) (Template.nodesOf_captured (w := [' ', ' ']) (.inl ⟨rfl, rfl⟩)
      (all_eq_true.mp rfl) (by decide) "b".toList)
  have ht : Template.parse ":capture(as='x')\n i\n" none =
      .ok (.block (.plain [.frame (.filter "capture" [⟨"as", .expr "'x'", true⟩])
        (.plain [.leaf (.text "i") ⟨2, none⟩]) ⟨1, none⟩]) ⟨1, none⟩) :=
    congrArg (Except.map _) (Template.nodesOf_captured (w := [' '])
      (.inr ⟨"(as='x')".toList, rfl, by decide, rfl⟩) (all_eq_true.mp rfl) (by decide) "i\n".toList)
  have hlevel : Template.SameLevel (Line.ofSource ":capture\n  b")
      (Line.ofSource ":capture(as='x')\n i\n") := .inr (.inr (by decide))
  obtain ⟨hparse, hsource⟩ := source_concat {} hs ht hlevel
  exact ⟨hs, ht, hlevel, hparse, hsource⟩

end Compile

end Offside
