import Offside.Proofs.Attribute.Scan
import Offside.Proofs.Line.Printed
import Offside.Proofs.Template.Reread

/-!
# Lines that are captured

A capture is a head line and the lines below it, which are indented. Read as a template it is one
node around the text of all of them (`nodesOf_captured`).
-/

set_option autoImplicit false

namespace Offside

open List

/-! ## Head lines of captures -/

namespace Text

theorem isSpace_of_isClosing {c : Char} (hc : isClosing c = true) : isSpace c = false := by
  simp only [isClosing, Bool.or_eq_true, beq_iff_eq] at hc
  rcases hc with (rfl | rfl) | rfl <;> decide

end Text

/-- The text with `k` spaces in front of each of its lines. -/
def Text.indented (k : Nat) (s : String) : String :=
  String.ofList (Line.indentLines (replicate k ' ') s.toList)

/-- The line captures what lies below it, with the attributes `attrs`: behind the word there is
nothing, or an attribute list that ends the line. -/
def CaptureHead (head : List Char) (attrs : List Attr) : Prop :=
  head = ":capture".toList ∧ attrs = [] ∨
    ∃ list, head = ":capture".toList ++ list ∧ '\n' ∉ list ∧
      Attr.scanList list = .ok (attrs, Text.bytes list)

/-- An attribute list that takes all of its text starts and ends with a bracket. -/
theorem Attr.readList_of_scanList {list : List Char} {attrs : List Attr}
    (h : scanList list = .ok (attrs, Text.bytes list)) :
    readList list = .ok (attrs, []) ∧
      ∃ inner c, isClosing c = true ∧ list = '(' :: (inner ++ [c]) := by
  have hread := readList_append h []
  rw [append_nil] at hread
  obtain ⟨inner, c, hc, hlist, -⟩ := exists_of_scanList_bytes h
  exact ⟨hread, inner, c, hc, hlist⟩

namespace CaptureHead

variable {head : List Char} {attrs : List Attr}

/-- In all head lines the rest is one that can follow a name, and what is read from it are the
attributes. -/
theorem exists_rest (h : CaptureHead head attrs) :
    ∃ rest, head = ":capture".toList ++ rest ∧ '\n' ∉ rest ∧
      rest.head?.any Text.isNameChar = false ∧
      Template.filterAttrs "capture" rest = .ok attrs ∧ Text.trimEnd head = head := by
  rcases h with ⟨rfl, rfl⟩ | ⟨list, rfl, hline, hscan⟩
  · exact ⟨[], by simp, by simp, by simp, rfl, by decide⟩
  · obtain ⟨hread, inner, c, hc, rfl⟩ := Attr.readList_of_scanList hscan
    have hspace := Text.isSpace_of_isClosing hc
    -- The list starts and ends with a bracket, so there is nothing to trim.
    have htrim : Text.trim ('(' :: (inner ++ [c])) = '(' :: (inner ++ [c]) := by
      have hstart : Text.trimStart ('(' :: (inner ++ [c])) = '(' :: (inner ++ [c]) := by
        simp [Text.trimStart, show Text.isSpace '(' = false by decide]
      rw [Text.trim, hstart]
      exact Text.trimEnd_concat (s := '(' :: inner) hspace
    refine ⟨_, rfl, hline, rfl, ?_, ?_⟩
    · simp only [Template.filterAttrs, htrim, hread]
      rfl
    · exact Text.trimEnd_concat (s := ":capture".toList ++ '(' :: inner) hspace

theorem not_mem_newline (h : CaptureHead head attrs) : '\n' ∉ head := by
  obtain ⟨rest, rfl, hline, -⟩ := h.exists_rest
  simpa using hline

/-- The plan of a capture. -/
theorem plan (h : CaptureHead head attrs) :
    Template.Plan.ofContent head = .ok (.filter "capture" attrs) := by
  obtain ⟨rest, rfl, hline, hrest, hattrs, -⟩ := h.exists_rest
  have hkind : LineKind.ofContent (":capture".toList ++ rest) =
      .filter "capture" (String.ofList rest) := by
    have hfits : (LineKind.filter "capture" (String.ofList rest)).Fits :=
      ⟨⟨by decide, all_eq_true.mp rfl⟩, by simpa using hrest⟩
    simpa using LineKind.ofContent_filter _ _ hfits (by simpa using hline)
  rw [Template.Plan.ofContent.eq_def]
  simp only [hkind, String.toList_ofList, hattrs]
  rfl

/-- The head line stands at the left margin, and its content is the whole line. -/
theorem ofText (h : CaptureHead head attrs) (n : Nat) :
    Line.ofText n head = ⟨n, 0, String.ofList head, String.ofList head⟩ := by
  obtain ⟨rest, rfl, -, -, -, htrim⟩ := h.exists_rest
  have hindent : Text.isIndent ':' = false := by decide
  have htake : (":capture".toList ++ rest).takeWhile Text.isIndent = [] := by simp [hindent]
  have hdrop : (":capture".toList ++ rest).dropWhile Text.isIndent = ":capture".toList ++ rest := by
    simp [hindent]
  rw [Line.ofText, htake, hdrop, htrim]
  rfl

end CaptureHead

/-! ## Captured lines -/

namespace Template

variable {f : Option String} {w : List Char}

theorem shift_zero : Place.shift (.ofNat 0) = id := by
  funext p
  simp [Place.shift]

/-- The lines of `body` with `w` in front of each, below the first line of a source. -/
def capturedLines (w body : List Char) : List Line :=
  Line.numberFrom 2 ((Line.segments body).map (w ++ ·))

/-- Indentation in front of every text moves the lines to the right. -/
theorem moved_indented (hw : ∀ c ∈ w, Text.isIndent c = true) (n : Nat) (texts : List (List Char)) :
    Forall₂ (Moved f f id w.length) (Line.numberFrom n texts)
      (Line.numberFrom n (texts.map (w ++ ·))) := by
  induction texts generalizing n with
  | nil => exact .nil
  | cons s rest ih =>
    have hline : Moved f f (Place.shift (.ofNat 0)) w.length (.ofText n s)
        (.ofText (n + 0) (w ++ s)) :=
      moved_ofText n hw s
    rw [shift_zero] at hline
    exact .cons hline (ih (n + 1))

theorem isBelow_indented (hw : ∀ c ∈ w, Text.isIndent c = true) (hne : w ≠ []) (n : Nat)
    (texts : List (List Char)) :
    ∀ l ∈ Line.numberFrom n (texts.map (w ++ ·)), Line.isBelow 0 l = true := by
  have hpos : 0 < w.length := length_pos_of_ne_nil hne
  induction texts generalizing n with
  | nil => simp [Line.numberFrom]
  | cons s rest ih =>
    intro l hl
    rcases mem_cons.mp hl with rfl | hl
    · simp only [Line.isBelow, Line.ofText, takeWhile_append_of_pos hw, length_append,
        Bool.or_eq_true, decide_eq_true_eq]
      exact .inr (by omega)
    · exact ih (n + 1) l hl

/-- A capture head with indented lines below it is one capture of all of them. -/
theorem nodesOf_captured {head : List Char} {attrs : List Attr} (hhead : CaptureHead head attrs)
    (hw : ∀ c ∈ w, Text.isIndent c = true) (hne : w ≠ []) (body : List Char) :
    nodesOf f (Line.ofSource (String.ofList (head ++ '\n' :: Line.indentLines w body))) =
      .ok [.frame (.filter "capture" attrs)
        (.plain (verbatim f (capturedLines w body))) ⟨1, f⟩] := by
  have hnl : '\n' ∉ w := fun h => absurd (hw _ h) (by decide)
  have hb : (⟨1, 0, String.ofList head, String.ofList head⟩ : Line).isBlank = false := by
    obtain ⟨rest, rfl, -⟩ := hhead.exists_rest
    simp [Line.isBlank]
  have hsource : Line.ofSource (String.ofList (head ++ '\n' :: Line.indentLines w body)) =
      ⟨1, 0, String.ofList head, String.ofList head⟩ :: capturedLines w body := by
    rw [capturedLines, Line.ofSource, String.toList_ofList,
      Line.segments_line hhead.not_mem_newline, Line.segments_indentLines hnl, Line.numberFrom,
      hhead.ofText]
  have hbelow : ∀ l ∈ capturedLines w body, Line.isBelow 0 l = true :=
    isBelow_indented hw hne 2 (Line.segments body)
  -- All lines lie below the first one, which takes them as text.
  rw [hsource, nodesOf, levelOf_line hb, siblings_line hb rfl, takeWhile_eq_self_iff.mpr hbelow,
    dropWhile_eq_nil_iff.mpr hbelow, siblings_nil, readLine_eq_build, String.toList_ofList,
    hhead.plan]
  rfl

end Template

end Offside
