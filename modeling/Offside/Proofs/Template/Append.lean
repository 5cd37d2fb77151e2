import Mathlib.Data.List.TakeWhile
import Offside.Proofs.Template.Moved

/-!
# Lines after lines

When lines follow that go no deeper than the level under way, they are read as if they stood alone:
whatever the last line before them takes from below it, verbatim or not, it stops in front of them
(`siblings_append`). Blank lines in between may count as lying below that line, but they never make
a difference, neither at the end of a verbatim body nor to the question whether there is anything
below. In particular blank lines at the end of a template can be left out.
-/

set_option autoImplicit false

namespace Offside

namespace ParseError

theorem move_id (e : ParseError) : e.move id 0 = e := by
  obtain ⟨place, fault⟩ := e
  cases fault <;> rfl

end ParseError

namespace Template

open List

variable {f : Option String}

/-- To move nothing and to leave all places as they are changes nothing. -/
theorem mapBoth_move_id (x : Except ParseError (List Node)) :
    mapBoth (ParseError.move id 0) (map (Node.mapPlace id)) x = x := by
  cases x with
  | error e => rw [mapBoth_error, ParseError.move_id]
  | ok nodes => rw [mapBoth_ok, map_congr_left fun n _ => Node.mapPlace_id n, map_id']

/-! ## Blank lines at the end -/

theorem widths_append (xs ys : List Line) : widths (xs ++ ys) = widths xs ++ widths ys := by
  simp [widths]

theorem levelOf_append_blank (xs : List Line) {ys : List Line} (hys : ∀ l ∈ ys, l.isBlank = true) :
    levelOf (xs ++ ys) = levelOf xs := by
  rw [levelOf_eq_widths, levelOf_eq_widths, widths_append, widths_eq_nil_iff.mpr hys, append_nil]

theorem levelOf_of_blank {ys : List Line} (hys : ∀ l ∈ ys, l.isBlank = true) : levelOf ys = 0 :=
  levelOf_append_blank [] hys

theorem dropBlankEnd_append_blank (xs : List Line) {ys : List Line}
    (hys : ∀ l ∈ ys, l.isBlank = true) : dropBlankEnd (xs ++ ys) = dropBlankEnd xs := by
  unfold dropBlankEnd
  rw [reverse_append, dropWhile_append_of_pos (by simpa using hys)]

theorem verbatim_append_blank (xs : List Line) {ys : List Line}
    (hys : ∀ l ∈ ys, l.isBlank = true) : verbatim f (xs ++ ys) = verbatim f xs := by
  unfold verbatim
  rw [dropBlankEnd_append_blank xs hys]

/-- What a line makes of the lines below it depends only on what they are as text, on whether they
are there, and on what they are as template lines. -/
theorem readLine_congr {b b' : Below} {place : Place} (hempty : b'.isEmpty = b.isEmpty)
    (hverbatim : verbatim place.filename b'.lines = verbatim place.filename b.lines)
    (hnodes : b'.nodes = b.nodes) (content : List Char) :
    readLine place b' content = readLine place b content := by
  -- This is a move by no columns that leaves all places as they are.
  have hmoved : Below.Moved place.filename place.filename id 0 b b' := by
    refine ⟨hempty, ?_, ?_⟩
    · rw [hverbatim, map_congr_left fun n _ => Node.mapPlace_id n, map_id']
    · rw [hnodes, mapBoth_move_id]
  have h := readLine_moved hmoved rfl rfl content
  rw [id] at h
  rw [h]
  cases readLine place b content with
  | error e => rw [mapBoth_error, ParseError.move_id]
  | ok n => rw [mapBoth_ok, Node.mapPlace_id]

/-- Blank lines at the end of what lies below a line make no difference to it. -/
theorem readLine_append_blank (l : Line) (body : List Line) {z : List Line}
    (hz : ∀ x ∈ z, x.isBlank = true) (hnodes : nodesOf f (body ++ z) = nodesOf f body) :
    readLine (placeOf f l) ⟨body ++ z, nodesOf f (body ++ z)⟩ l.content.toList =
      readLine (placeOf f l) ⟨body, nodesOf f body⟩ l.content.toList := by
  apply readLine_congr
  · simp only [Below.isEmpty, all_append, all_eq_true.mpr hz, Bool.and_true]
  · exact verbatim_append_blank body hz
  · exact hnodes

/-! ## Lines that go no deeper than the level under way -/

section Stop

variable {level : Nat} {ys : List Line}

theorem not_isBelow {l : Line} (hb : l.isBlank = false) (hle : l.indent ≤ level) :
    l.isBelow level = false := by
  simp [Line.isBelow, hb, hle]

/-- Of lines that go no deeper only blank ones lie below. -/
theorem isBlank_of_mem_takeWhile (hys : levelOf ys ≤ level) :
    ∀ l ∈ ys.takeWhile (Line.isBelow level), l.isBlank = true := by
  induction ys with
  | nil => simp
  | cons y ys ih =>
    cases hb : y.isBlank with
    | true =>
      rw [levelOf_blank hb] at hys
      intro l hl
      rw [takeWhile_cons_of_pos (by simp [Line.isBelow, hb]), mem_cons] at hl
      rcases hl with rfl | hl
      · exact hb
      · exact ih hys l hl
    | false =>
      rw [levelOf_line hb] at hys
      rw [takeWhile_cons_of_neg (by simp [not_isBelow hb hys])]
      simp

/-- Leaving those out changes nothing. -/
theorem siblings_dropWhile (hys : levelOf ys ≤ level) :
    siblings f level (ys.dropWhile (Line.isBelow level)) = siblings f level ys := by
  induction ys with
  | nil => rfl
  | cons y ys ih =>
    cases hb : y.isBlank with
    | true =>
      rw [levelOf_blank hb] at hys
      rw [dropWhile_cons_of_pos (by simp [Line.isBelow, hb]), siblings_blank hb, ih hys]
    | false =>
      rw [levelOf_line hb] at hys
      rw [dropWhile_cons_of_neg (by simp [not_isBelow hb hys])]

end Stop

/-- Lines, and then lines that go no deeper than the level of the first ones, are read one after the
other. -/
theorem siblings_append {level : Nat} {xs ys : List Line} (hys : levelOf ys ≤ level) :
    siblings f level (xs ++ ys) =
      (siblings f level xs).bind fun a => (siblings f level ys).bind fun b => .ok (a ++ b) := by
  induction level, xs using siblings_induct generalizing ys with
  | nil level =>
    rw [nil_append, siblings_nil]
    cases siblings f level ys <;> rfl
  | blank level l rest hb ih =>
    rw [cons_append, siblings_blank hb, siblings_blank hb, ih hys]
  | dedent level l rest hb hlt =>
    rw [cons_append, siblings_dedent hb hlt, siblings_dedent hb hlt]
    rfl
  | unexpected level l rest hb hlt =>
    rw [cons_append, siblings_unexpected hb hlt, siblings_unexpected hb hlt]
    rfl
  | line level l rest hb heq ihbody ihafter =>
    rw [cons_append, siblings_line hb heq, siblings_line hb heq]
    by_cases hall : ∀ x ∈ rest, x.isBelow level = true
    · -- All of `rest` lies below `l`, and with it the blank lines that `ys` starts with.
      have hz := isBlank_of_mem_takeWhile hys
      have hbody : rest.takeWhile (Line.isBelow level) = rest := takeWhile_eq_self_iff.mpr hall
      have hafter : rest.dropWhile (Line.isBelow level) = [] := dropWhile_eq_nil_iff.mpr hall
      rw [hbody] at ihbody ⊢
      have hnodes : nodesOf f (rest ++ ys.takeWhile (Line.isBelow level)) = nodesOf f rest := by
        unfold nodesOf
        rw [levelOf_append_blank rest hz, ihbody (by rw [levelOf_of_blank hz]; exact Nat.zero_le _),
          siblings_of_blank _ hz]
        cases siblings f (levelOf rest) rest <;> simp [Except.bind]
      rw [takeWhile_append_of_pos hall, dropWhile_append_of_pos hall, siblings_dropWhile hys,
        hafter, siblings_nil, readLine_append_blank l rest hz hnodes]
      cases readLine (placeOf f l) ⟨rest, nodesOf f rest⟩ l.content.toList with
      | error e => rfl
      | ok n => cases siblings f level ys <;> rfl
    · -- Somewhere in `rest` the body of `l` ends, so `ys` is out of its reach.
      have hlen : (rest.takeWhile (Line.isBelow level)).length ≠ rest.length := fun h =>
        hall (takeWhile_eq_self_iff.mp ((takeWhile_sublist _).eq_of_length h))
      have hdrop : (rest.dropWhile (Line.isBelow level)).isEmpty = false := by
        rw [isEmpty_eq_false_iff]
        exact fun h => hall (dropWhile_eq_nil_iff.mp h)
      rw [takeWhile_append, if_neg hlen, dropWhile_append, hdrop, if_neg Bool.false_ne_true,
        ihafter hys]
      cases readLine (placeOf f l) _ l.content.toList with
      | error e => rfl
      | ok n =>
        cases siblings f level (rest.dropWhile (Line.isBelow level)) with
        | error e => rfl
        | ok a => cases siblings f level ys <;> rfl

theorem nodesOf_append_blank (xs : List Line) {ys : List Line}
    (hys : ∀ l ∈ ys, l.isBlank = true) : nodesOf f (xs ++ ys) = nodesOf f xs := by
  unfold nodesOf
  rw [levelOf_append_blank xs hys,
    siblings_append (by rw [levelOf_of_blank hys]; exact Nat.zero_le _), siblings_of_blank _ hys]
  cases siblings f (levelOf xs) xs <;> simp [Except.bind]

/-- Blank lines at the end of a template do not matter. -/
theorem nodesOf_dropBlankEnd (lines : List Line) :
    nodesOf f (dropBlankEnd lines) = nodesOf f lines := by
  have hsplit : dropBlankEnd lines ++ (lines.reverse.takeWhile Line.isBlank).reverse = lines := by
    unfold dropBlankEnd
    rw [← reverse_append, takeWhile_append_dropWhile, reverse_reverse]
  have hblank : ∀ l ∈ (lines.reverse.takeWhile Line.isBlank).reverse, l.isBlank = true := by
    intro l hl
    exact mem_takeWhile_imp (mem_reverse.mp hl)
  conv_rhs => rw [← hsplit]
  rw [nodesOf_append_blank _ hblank]

end Template

end Offside
