import Offside.Compile.Visit
import Offside.Proofs.Source.Line
import Offside.Proofs.Source.Segments
import Offside.Proofs.Template.Append

/-!
# Reading a verbatim body again

The text of a verbatim body is a source of its own, and a capture compiles it as such. Its lines are
the lines of the body, moved to the left by the width that all of them have, and numbered from one
(`ofSource_linesOf`). So the body, had it been read where it stands, would have given the same
nodes further down (`nodesOf_eq_reread`).
-/

set_option autoImplicit false

namespace Offside

open List

namespace Line

/-- Lines in a row, numbered from `n` on, each with a text of its own. -/
def Consecutive : Nat → List Line → Prop
  | _, [] => True
  | n, l :: rest => (∃ s, '\n' ∉ s ∧ l = ofText n s) ∧ Consecutive (n + 1) rest

theorem consecutive_append {n : Nat} {xs ys : List Line} :
    Consecutive n (xs ++ ys) ↔ Consecutive n xs ∧ Consecutive (n + xs.length) ys := by
  induction xs generalizing n with
  | nil => simp [Consecutive]
  | cons x xs ih =>
    simp only [cons_append, Consecutive, ih, length_cons, and_assoc]
    rw [Nat.add_right_comm, Nat.add_assoc]

theorem Consecutive.exists_text {n : Nat} {lines : List Line} (h : Consecutive n lines) {l : Line}
    (hl : l ∈ lines) : ∃ k s, '\n' ∉ s ∧ l = ofText k s := by
  induction lines generalizing n with
  | nil => simp at hl
  | cons x rest ih =>
    obtain ⟨⟨s, hs, hx⟩, hrest⟩ := h
    rcases mem_cons.mp hl with rfl | hl
    · exact ⟨n, s, hs, hx⟩
    · exact ih hrest hl

theorem consecutive_numberFrom (n : Nat) {texts : List (List Char)}
    (h : ∀ s ∈ texts, '\n' ∉ s) : Consecutive n (numberFrom n texts) := by
  induction texts generalizing n with
  | nil => trivial
  | cons s rest ih =>
    exact ⟨⟨s, h s mem_cons_self, rfl⟩, ih (n + 1) fun t ht => h t (mem_cons_of_mem _ ht)⟩

theorem consecutive_ofSource (source : String) : Consecutive 1 (ofSource source) :=
  consecutive_numberFrom 1 fun _ => not_mem_of_mem_segments

end Line

namespace Template

variable {f : Option String} {rows : Nat}

theorem placeOf_shift {l l' : Line} (h : l'.number = l.number + rows) :
    placeOf f l' = (placeOf f l).shift (.ofNat rows) := by
  simp [placeOf, Place.shift, h, UInt64.ofNat_add]

/-! ## One line -/

/-- Indentation in front of a text moves its line to the right. -/
theorem moved_ofText (n : Nat) {w : List Char} (hw : ∀ c ∈ w, Text.isIndent c = true)
    (s : List Char) :
    Moved f f (Place.shift (.ofNat rows)) w.length (.ofText n s) (.ofText (n + rows) (w ++ s)) := by
  -- The indentation in front is taken with that of the text, and the content starts behind both.
  have hcontent : (Line.ofText (n + rows) (w ++ s)).content = (Line.ofText n s).content := by
    simp [Line.ofText, dropWhile_append_of_pos hw]
  refine ⟨placeOf_shift rfl, hcontent, fun _ => ?_, fun hb => ?_⟩
  · simp [Line.ofText, takeWhile_append_of_pos hw, Nat.add_comm]
  · have hb' : (Line.ofText (n + rows) (w ++ s)).isBlank = false := by
      rw [Line.isBlank, hcontent]
      exact hb
    rw [Line.raw_ofText hb', Line.raw_ofText hb, hcontent, takeWhile_append_of_pos hw,
      append_assoc, drop_left']
    rfl

/-- A line of a verbatim body, read again by itself. -/
theorem moved_verbatimText {m base : Nat} {s : List Char} {l : Line}
    (hl : l = .ofText (m + rows) s) (hbase : l.isBlank = false → base ≤ l.indent) :
    Moved f f (Place.shift (.ofNat rows)) base (.ofText m (verbatimText base l).toList) l := by
  subst hl
  cases hb : (Line.ofText (m + rows) s).isBlank with
  | true =>
    -- Nothing is kept of a blank line but that it is one.
    have hempty : verbatimText base (Line.ofText (m + rows) s) = "" := by simp [verbatimText, hb]
    have hblank : (Line.ofText m []).isBlank = true := rfl
    rw [hempty]
    refine ⟨placeOf_shift rfl, (Line.content_of_isBlank hb).trans rfl, fun h => ?_, fun h => ?_⟩
    · exact absurd (hblank.symm.trans h) (by simp)
    · exact absurd (hblank.symm.trans h) (by simp)
  | false =>
    have hle : base ≤ (s.takeWhile Text.isIndent).length := hbase hb
    have hlen : (s.take base).length = base :=
      length_take_of_le (hle.trans (takeWhile_sublist _).length_le)
    have hw : ∀ c ∈ s.take base, Text.isIndent c = true := by
      intro c hc
      rw [← takeWhile_append_dropWhile (p := Text.isIndent) (l := s),
        take_append_of_le_length hle] at hc
      exact mem_takeWhile_imp (mem_of_mem_take hc)
    -- The text is the indentation that goes and the rest; what is read again is the rest, trimmed.
    have hmoved : Moved f f (Place.shift (.ofNat rows)) (s.take base).length
        (.ofText m (s.drop base)) (.ofText (m + rows) (s.take base ++ s.drop base)) :=
      moved_ofText m hw (s.drop base)
    rw [take_append_drop, hlen] at hmoved
    have hb' : (Line.ofText m (s.drop base)).isBlank = false := hmoved.isBlank.symm.trans hb
    have htext :
        (verbatimText base (.ofText (m + rows) s)).toList = Text.trimEnd (s.drop base) := by
      simp only [verbatimText, hb, hmoved.raw hb']
      simp [Line.ofText]
    rw [htext, Line.ofText_trimEnd hb']
    exact hmoved

/-! ## The whole body -/

theorem moved_numberFrom {m base : Nat} {body : List Line} (h : Line.Consecutive (m + rows) body)
    (hbase : ∀ l ∈ body, l.isBlank = false → base ≤ l.indent) :
    Forall₂ (Moved f f (Place.shift (.ofNat rows)) base)
      (Line.numberFrom m (body.map fun l => (verbatimText base l).toList)) body := by
  induction body generalizing m with
  | nil => exact .nil
  | cons l rest ih =>
    obtain ⟨⟨s, _, hl⟩, hrest⟩ := h
    refine .cons (moved_verbatimText hl (hbase l mem_cons_self)) ?_
    refine ih ?_ fun x hx => hbase x (mem_cons_of_mem _ hx)
    rwa [Nat.add_right_comm] at hrest

theorem commonIndent_le {lines : List Line} {l : Line} (hl : l ∈ lines) (hb : l.isBlank = false) :
    commonIndent lines ≤ l.indent := by
  have hmem : l.indent ∈ widths lines := mem_map_of_mem (mem_filter.mpr ⟨hl, by simp [hb]⟩)
  rw [commonIndent_eq_widths]
  obtain ⟨w, hw⟩ := Option.isSome_iff_exists.mp (isSome_min?_of_mem hmem)
  rw [hw]
  exact (min?_eq_some_iff.mp hw).2 _ hmem

theorem not_mem_verbatimText {n base : Nat} {s : List Char} (hs : '\n' ∉ s) :
    '\n' ∉ (verbatimText base (.ofText n s)).toList := by
  unfold verbatimText
  split
  · simp
  · rw [String.toList_ofList]
    intro h
    have hraw : '\n' ∈ Text.trimEnd s := by simpa [Line.ofText] using mem_of_mem_drop h
    exact hs ((Text.trimEnd_isPrefix s).mem hraw)

theorem not_isBlank_of_getLast? {lines : List Line} {l : Line}
    (h : (dropBlankEnd lines).getLast? = some l) : l.isBlank = false := by
  have hne : dropBlankEnd lines ≠ [] := fun hnil => by simp [hnil] at h
  rw [← (getLast_eq_iff_getLast?_eq_some hne).mpr h]
  exact Bool.eq_false_iff.mpr (rdropWhile_last_not Line.isBlank lines hne)

theorem dropBlankEnd_isPrefix (lines : List Line) : dropBlankEnd lines <+: lines :=
  rdropWhile_prefix Line.isBlank lines

theorem toList_linesOf_verbatim (lines : List Line) :
    (Compile.linesOf (verbatim f lines)).toList =
      ['\n'].intercalate ((dropBlankEnd lines).map fun l =>
        (verbatimText (commonIndent (dropBlankEnd lines)) l).toList) := by
  simp [Compile.linesOf, verbatim, Node.text?, Function.comp_def]

/-- The text of a verbatim body falls into the lines of the body, without the indentation that all
of them have. -/
theorem ofSource_linesOf {lines : List Line} (h : Line.Consecutive (1 + rows) lines) :
    Forall₂ (Moved f f (Place.shift (.ofNat rows)) (commonIndent (dropBlankEnd lines)))
      (Line.ofSource (Compile.linesOf (verbatim f lines))) (dropBlankEnd lines) := by
  obtain ⟨z, hz⟩ := dropBlankEnd_isPrefix lines
  have hbody : Line.Consecutive (1 + rows) (dropBlankEnd lines) := by
    rw [← hz, Line.consecutive_append] at h
    exact h.1
  have hbase : ∀ l ∈ dropBlankEnd lines, l.isBlank = false →
      commonIndent (dropBlankEnd lines) ≤ l.indent := fun l hl hb => commonIndent_le hl hb
  rw [Line.ofSource, toList_linesOf_verbatim, Line.segments_intercalate]
  · exact moved_numberFrom hbody hbase
  · intro t ht
    obtain ⟨l, hl, rfl⟩ := mem_map.mp ht
    obtain ⟨n, s, hs, rfl⟩ := hbody.exists_text hl
    exact not_mem_verbatimText hs
  · -- The last line of the body is not blank, so it is a line also when it is read again.
    intro t ht hnil
    rw [getLast?_map, Option.map_eq_some_iff] at ht
    obtain ⟨l, hlast, rfl⟩ := ht
    have hb := not_isBlank_of_getLast? hlast
    obtain ⟨n, s, _, hl⟩ := hbody.exists_text (mem_of_getLast? hlast)
    have hmoved : Moved none none (Place.shift (.ofNat 0)) _ (.ofText n _) l :=
      moved_verbatimText hl (hbase l (mem_of_getLast? hlast))
    rw [hnil] at hmoved
    exact absurd (hmoved.isBlank.symm.trans hb) (by simp [Line.isBlank, Line.ofText, Text.trimEnd])

/-- What lines would be as template lines, they are after their text has been read by itself, apart
from where they stand. -/
theorem nodesOf_eq_reread {lines : List Line} (h : Line.Consecutive (1 + rows) lines) :
    nodesOf f lines =
      mapBoth (ParseError.move (Place.shift (.ofNat rows)) (commonIndent (dropBlankEnd lines)))
        (map (Node.shift (.ofNat rows)))
        (nodesOf f (Line.ofSource (Compile.linesOf (verbatim f lines)))) := by
  rw [← nodesOf_dropBlankEnd, nodesOf_moved (ofSource_linesOf h)]
  rfl

end Template

end Offside
