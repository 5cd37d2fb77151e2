import Mathlib.Data.List.Basic
import Offside.Source.Line

/-!
# How a source text falls into lines

Texts that are put together from pieces fall into lines piece by piece, as long as the pieces meet
at a line feed. The other direction matters as much: texts of single lines, joined with line feeds,
fall into exactly these texts again, unless the last of them is empty.

`indentLines` puts the same text in front of every line of a source.
-/

set_option autoImplicit false

namespace Offside.Line

/-! ## Segments -/

@[simp] theorem segments_nil : segments [] = [] := rfl

@[simp] theorem segments_newline (rest : List Char) :
    segments ('\n' :: rest) = [] :: segments rest := rfl

theorem segments_cons_of_ne {c : Char} (hc : c ≠ '\n') (rest : List Char) :
    segments (c :: rest) = match segments rest with
      | [] => [[c]]
      | s :: more => (c :: s) :: more := by
  exact segments.eq_3 c rest hc

/-- What stands in front of a line feed is a line, and what follows is cut up by itself. -/
theorem segments_line {s : List Char} (hs : '\n' ∉ s) (rest : List Char) :
    segments (s ++ '\n' :: rest) = s :: segments rest := by
  induction s with
  | nil => rfl
  | cons c s ih =>
    rw [List.mem_cons, not_or] at hs
    rw [List.cons_append, segments_cons_of_ne (Ne.symm hs.1), ih hs.2]

theorem segments_last {s : List Char} (hs : '\n' ∉ s) (hne : s ≠ []) : segments s = [s] := by
  induction s with
  | nil => exact absurd rfl hne
  | cons c s ih =>
    rw [List.mem_cons, not_or] at hs
    rw [segments_cons_of_ne (Ne.symm hs.1)]
    cases s with
    | nil => rfl
    | cons d s => rw [ih hs.2 (List.cons_ne_nil d s)]

theorem not_mem_of_mem_segments {s x : List Char} (hx : x ∈ segments s) : '\n' ∉ x := by
  induction s generalizing x with
  | nil => simp at hx
  | cons c s ih =>
    by_cases hc : c = '\n'
    · subst hc
      rw [segments_newline, List.mem_cons] at hx
      rcases hx with rfl | hx
      · simp
      · exact ih hx
    · rw [segments_cons_of_ne hc] at hx
      cases hseg : segments s with
      | nil =>
        simp only [hseg, List.mem_singleton] at hx
        subst hx
        simpa using Ne.symm hc
      | cons y more =>
        simp only [hseg, List.mem_cons] at hx
        rcases hx with rfl | hx
        · have := ih (x := y) (by rw [hseg]; exact List.mem_cons_self)
          simpa [this] using Ne.symm hc
        · exact ih (by rw [hseg]; exact List.mem_cons_of_mem _ hx)

theorem segments_ne_nil {s : List Char} (hs : s ≠ []) : segments s ≠ [] := by
  cases s with
  | nil => exact absurd rfl hs
  | cons c s =>
    by_cases hc : c = '\n'
    · subst hc
      simp
    · rw [segments_cons_of_ne hc]
      split <;> simp

/-- The lines of two sources with a line feed in between. -/
theorem segments_append_newline (s t : List Char) :
    segments (s ++ '\n' :: t) = segments (s ++ ['\n']) ++ segments t := by
  induction s with
  | nil => rfl
  | cons c s ih =>
    by_cases hc : c = '\n'
    · subst hc
      simp only [List.cons_append, segments_newline, ih]
    · simp only [List.cons_append, segments_cons_of_ne hc, ih]
      -- The line feed makes sure that there is a line for `c` to stand in front of.
      have hne : segments (s ++ ['\n']) ≠ [] := segments_ne_nil (by simp)
      cases hseg : segments (s ++ ['\n']) with
      | nil => exact absurd hseg hne
      | cons y more => rfl

/-- A text that ends with a line feed has as many lines as line feeds. -/
theorem length_segments_newline (s : List Char) :
    (segments (s ++ ['\n'])).length = s.count '\n' + 1 := by
  induction s with
  | nil => rfl
  | cons c s ih =>
    by_cases hc : c = '\n'
    · subst hc
      simp [ih]
    · rw [List.cons_append, segments_cons_of_ne hc, List.count_cons_of_ne hc, ← ih]
      have hne : segments (s ++ ['\n']) ≠ [] := segments_ne_nil (by simp)
      cases hseg : segments (s ++ ['\n']) with
      | nil => exact absurd hseg hne
      | cons y more => rfl

/-- Texts of single lines, joined with line feeds, are the lines of what they are joined to, except
that an empty one at the end is none. -/
theorem exists_segments_intercalate {texts : List (List Char)} (hline : ∀ t ∈ texts, '\n' ∉ t) :
    ∃ z, (∀ t ∈ z, t = []) ∧ segments (['\n'].intercalate texts) ++ z = texts := by
  induction texts with
  | nil => exact ⟨[], by simp, rfl⟩
  | cons t rest ih =>
    obtain ⟨ht, hrest⟩ := List.forall_mem_cons.mp hline
    cases rest with
    | nil =>
      rw [List.intercalate_singleton]
      by_cases hnil : t = []
      · exact ⟨[t], by simpa using hnil, by rw [hnil]; rfl⟩
      · exact ⟨[], by simp, by rw [segments_last ht hnil, List.append_nil]⟩
    | cons u rest =>
      obtain ⟨z, hz, hsegments⟩ := ih hrest
      refine ⟨z, hz, ?_⟩
      rw [List.intercalate_cons_cons, List.append_assoc, List.singleton_append, segments_line ht,
        List.cons_append, hsegments]

theorem segments_intercalate {texts : List (List Char)} (hline : ∀ t ∈ texts, '\n' ∉ t)
    (hlast : ∀ t, texts.getLast? = some t → t ≠ []) :
    segments (['\n'].intercalate texts) = texts := by
  obtain ⟨z, hz, hsegments⟩ := exists_segments_intercalate hline
  -- An empty line that is not counted would have to be the last text, and that is not empty.
  cases hend : z.getLast? with
  | none =>
    rw [List.getLast?_eq_none_iff.mp hend, List.append_nil] at hsegments
    exact hsegments
  | some t =>
    have hempty : t = [] := hz t (List.mem_of_getLast? hend)
    exact absurd hempty (hlast t (by rw [← hsegments, List.getLast?_append, hend]; rfl))

/-- A text without line feeds in front of a source goes in front of its first line. -/
theorem segments_append_front {w t y : List Char} {more : List (List Char)} (hw : '\n' ∉ w)
    (ht : segments t = y :: more) : segments (w ++ t) = (w ++ y) :: more := by
  induction w with
  | nil => exact ht
  | cons c w ih =>
    rw [List.mem_cons, not_or] at hw
    rw [List.cons_append, segments_cons_of_ne (Ne.symm hw.1), ih hw.2]
    rfl

/-- Lines are numbered on from those before them. -/
theorem numberFrom_append (n : Nat) (xs ys : List (List Char)) :
    numberFrom n (xs ++ ys) = numberFrom n xs ++ numberFrom (n + xs.length) ys := by
  induction xs generalizing n with
  | nil => rfl
  | cons x xs ih => simp [numberFrom, ih, Nat.add_comm, Nat.add_left_comm]

@[simp] theorem length_numberFrom (n : Nat) (texts : List (List Char)) :
    (numberFrom n texts).length = texts.length := by
  induction texts generalizing n with
  | nil => rfl
  | cons x texts ih => simp [numberFrom, ih]

theorem getElem?_numberFrom (n i : Nat) (texts : List (List Char)) :
    (numberFrom n texts)[i]? = texts[i]?.map (ofText (n + i)) := by
  induction texts generalizing n i with
  | nil => rfl
  | cons x texts ih =>
    cases i with
    | zero => rfl
    | succ i => simp [numberFrom, ih, Nat.add_assoc, Nat.add_comm 1]

theorem exists_of_mem_numberFrom {n : Nat} {texts : List (List Char)} {l : Line}
    (h : l ∈ numberFrom n texts) : ∃ k, ∃ t ∈ texts, l = ofText k t := by
  induction texts generalizing n with
  | nil => cases h
  | cons t rest ih =>
    rw [numberFrom] at h
    rcases List.mem_cons.mp h with rfl | h
    · exact ⟨n, t, List.mem_cons_self, rfl⟩
    · obtain ⟨k, u, hu, hl⟩ := ih h
      exact ⟨k, u, List.mem_cons_of_mem _ hu, hl⟩

/-! ## The same text in front of every line -/

/-- The text with `w` behind each of its line feeds that something follows. -/
def indentAfter (w : List Char) : List Char → List Char
  | [] => []
  | ['\n'] => ['\n']
  | '\n' :: rest => '\n' :: (w ++ indentAfter w rest)
  | c :: rest => c :: indentAfter w rest

/-- The text with `w` in front of each of its lines. -/
def indentLines (w s : List Char) : List Char :=
  if s.isEmpty then [] else w ++ indentAfter w s

theorem segments_indentAfter {w : List Char} (hw : '\n' ∉ w) {s : List Char} (hs : s ≠ []) :
    ∃ y more, segments s = y :: more ∧
      segments (indentAfter w s) = y :: more.map (w ++ ·) := by
  -- The first line has nothing put in front here; a line feed at the very end starts no line.
  fun_induction indentAfter w s with
  | case1 => exact absurd rfl hs
  | case2 => exact ⟨[], [], rfl, rfl⟩
  | case3 rest hrest ih =>
    have hne : rest ≠ [] := fun h => hrest (by rw [h])
    obtain ⟨y, more, hseg, hind⟩ := ih hne
    refine ⟨[], y :: more, by rw [segments_newline, hseg], ?_⟩
    rw [segments_newline, segments_append_front hw hind, List.map_cons]
  | case4 c rest _ hc ih =>
    have hc' : c ≠ '\n' := fun h => hc h
    by_cases hne : rest = []
    · subst hne
      refine ⟨[c], [], ?_, ?_⟩ <;> simp [segments_cons_of_ne hc', indentAfter]
    · obtain ⟨y, more, hseg, hind⟩ := ih hne
      refine ⟨c :: y, more, ?_, ?_⟩
      · rw [segments_cons_of_ne hc', hseg]
      · rw [segments_cons_of_ne hc', hind]

/-- Each line of the text has `w` in front, and there are no other lines. -/
theorem segments_indentLines {w : List Char} (hw : '\n' ∉ w) (s : List Char) :
    segments (indentLines w s) = (segments s).map (w ++ ·) := by
  unfold indentLines
  split
  · rename_i hs
    rw [List.isEmpty_iff.mp hs]
    rfl
  · rename_i hs
    have hne : s ≠ [] := fun h => hs (by rw [h]; rfl)
    obtain ⟨y, more, hseg, hind⟩ := segments_indentAfter hw hne
    rw [hseg, segments_append_front hw hind, List.map_cons]

end Offside.Line
