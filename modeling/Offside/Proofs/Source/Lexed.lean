import Mathlib.Data.List.DropRight
import Offside.Proofs.Source.Line
import Offside.Proofs.Source.Segments
import Offside.Proofs.Source.Tokens

/-!
# Tokens and lines agree

A source is read in two ways, in tokens and in lines. `Tiles` says how its tokens lie in the source,
and `Line.Cut` what its lines are, both without a word on how they are found.

The two readings fit together. Cut at its newline tokens, byte by byte, a source falls into the very
lines that it falls into at its line feeds (`Line.ofTokens?_scan`), although a newline token takes
the carriage return from the line that it ends: at the end of a line that one is white space.
-/

set_option autoImplicit false

namespace Offside

open List Text

namespace Text

/-- The second text is the first without the white space at its end. -/
def IsTrimmedEnd (x y : List Char) : Prop :=
  (∃ w, IsSpaces w ∧ x = y ++ w) ∧ ∀ c ∈ y.getLast?, isSpace c = false

theorem isTrimmedEnd_trimEnd (x : List Char) : IsTrimmedEnd x (trimEnd x) := by
  rw [trimEnd_eq_rdropWhile]
  constructor
  · exact ⟨x.rtakeWhile isSpace, fun c hc => mem_rtakeWhile_imp hc,
      rdropWhile_append_rtakeWhile.symm⟩
  · intro c hc
    obtain ⟨hne, rfl⟩ := mem_getLast?_eq_getLast hc
    simpa using rdropWhile_last_not isSpace x hne

end Text

/-! ## Tokens -/

/-- The spans of the tokens lie side by side in a text and leave nothing out but stray carriage
returns. -/
structure Tiles (tokens : List Token) (s : List Char) : Prop where
  /-- Spans come in order and do not overlap. -/
  ordered : tokens.Pairwise fun t u => t.stop ≤ u.start
  /-- A span is a piece of the text, and reads what its kind says. -/
  reads : ∀ t ∈ tokens, ∃ pre mid post, s = pre ++ mid ++ post ∧ t.start = bytes pre ∧
    t.stop = bytes (pre ++ mid) ∧ t.kind.Reads pre mid post
  /-- Other characters are in exactly one span. -/
  covered : ∀ pre c post, s = pre ++ c :: post → ¬ IsStray c post →
    ∃! t, t ∈ tokens ∧ t.Holds pre c
  /-- Stray carriage returns are in none. -/
  skipped : ∀ pre c post, s = pre ++ c :: post → IsStray c post →
    ∀ t ∈ tokens, ¬ t.Holds pre c

theorem tiles_scan (source : String) : Tiles (Token.scan source) source.toList := by
  have h := scanned_scan source
  refine ⟨h.pairwise, fun t ht => h.reads ht, ?_, ?_⟩
  · intro pre c post hs hstray
    obtain ⟨t, ht, hholds⟩ := (h.exists_holds_iff hs).mpr hstray
    exact ⟨t, ⟨ht, hholds⟩, fun u hu => h.eq_of_holds hu.1 ht hu.2 hholds⟩
  · intro pre c post hs hstray t ht hholds
    exact (h.exists_holds_iff hs).mp ⟨t, ht, hholds⟩ hstray

/-! ## Lines from tokens -/

namespace Line

/-- The lines of a source from byte `start` on, cut at the newline tokens. There are none if a cut
would go through a character. -/
def cutFrom? (source : List Char) (number start : Nat) : List Token → Option (List Line)
  | [] =>
    if start < bytes source then
      (slice? start (bytes source) source).map fun x => [ofText number x]
    else some []
  | t :: rest =>
    if t.kind = .newline then do
      let x ← slice? start t.start source
      let lines ← cutFrom? source (number + 1) t.stop rest
      return ofText number x :: lines
    else cutFrom? source number start rest

/-- The lines of a source, cut at its newline tokens. -/
def ofTokens? (source : String) (tokens : List Token) : Option (List Line) :=
  cutFrom? source.toList 1 0 tokens

/-- A carriage return at the end of a line does not matter. -/
theorem ofText_concat_return (number : Nat) (x : List Char) :
    ofText number (x ++ ['\r']) = ofText number x := by
  have hspaces : IsSpaces ['\r'] := forall_mem_singleton.mpr rfl
  have hcut : (x ++ ['\r']).takeWhile isIndent = x.takeWhile isIndent ∧
      (x ++ ['\r']).dropWhile isIndent = x.dropWhile isIndent ++ ['\r'] := by
    induction x with
    | nil => exact ⟨rfl, rfl⟩
    | cons c x ih => by_cases hc : isIndent c = true <;> simp [hc, ih]
  rw [ofText, ofText, hcut.1, hcut.2, hspaces.trimEnd_append, hspaces.trimEnd_append]

/-- A newline token ends a line. -/
theorem exists_segments_of_reads {pre mid post cur : List Char}
    (h : TokenKind.newline.Reads pre mid post) (hcur : '\n' ∉ cur) (number : Nat) :
    ∃ x, segments (cur ++ (mid ++ post)) = x :: segments post ∧
      ofText number x = ofText number cur := by
  rcases h with rfl | ⟨rfl, -⟩
  · refine ⟨cur ++ ['\r'], ?_, ofText_concat_return number cur⟩
    have hline : '\n' ∉ cur ++ ['\r'] := by simp [hcur]
    rw [← segments_line hline, append_assoc]
    rfl
  · exact ⟨cur, segments_line hcur post, rfl⟩

/-- Behind `done`, where the last line begun so far has the text `cur`, the newline tokens cut off
the same lines as the line feeds. -/
theorem cutFrom?_scanned {pre s : List Char} {tokens : List Token} (h : Scanned pre s tokens)
    {done cur : List Char} (hpre : pre = done ++ cur) (hcur : '\n' ∉ cur) (number : Nat) :
    cutFrom? (pre ++ s) number (bytes done) tokens =
      some (numberFrom number (segments (cur ++ s))) := by
  induction h generalizing done cur number with
  | nil pre =>
    rw [hpre, append_nil, append_nil, cutFrom?]
    by_cases hempty : cur = []
    · rw [hempty, append_nil, if_neg (Nat.lt_irrefl _)]
      rfl
    · have hlt : bytes done < bytes (done ++ cur) := by
        have hsize : bytes cur ≠ 0 := fun h0 => hempty (eq_nil_of_bytes_eq_zero h0)
        rw [bytes_append]
        omega
      have hslice := slice?_append done cur []
      rw [append_nil] at hslice
      rw [if_pos hlt, hslice, segments_last hcur hempty]
      rfl
  | @token pre mid post tokens kind hreads hrest ih =>
    -- Only a newline token ends the line that is begun. All other tokens, and stray carriage
    -- returns, make it longer.
    by_cases hkind : kind = .newline
    · subst hkind
      obtain ⟨x, hsegments, hline⟩ := exists_segments_of_reads hreads hcur number
      have hslice : slice? (bytes done) (bytes pre) (pre ++ (mid ++ post)) = some cur := by
        rw [hpre, append_assoc]
        exact slice?_append done cur _
      have hlater := ih (append_nil _).symm not_mem_nil (number + 1)
      rw [append_assoc] at hlater
      simp only [cutFrom?, if_true, hslice, hlater, hsegments, numberFrom, hline]
      rfl
    · have hmid : '\n' ∉ cur ++ mid := by
        rw [mem_append, not_or]
        exact ⟨hcur, hreads.newline_not_mem hkind⟩
      rw [cutFrom?, if_neg hkind, ← append_assoc, ← append_assoc]
      exact ih (by rw [hpre, append_assoc]) hmid number
  | @stray pre post tokens hpost hrest ih =>
    have hcur' : '\n' ∉ cur ++ ['\r'] := by simp [hcur]
    rw [append_cons, append_cons cur]
    exact ih (by rw [hpre, append_assoc]) hcur' number

/-- Newline tokens and line feeds cut a source into the same lines. -/
theorem ofTokens?_scan (source : String) :
    ofTokens? source (Token.scan source) = some (ofSource source) :=
  cutFrom?_scanned (scanned_scan source) (append_nil []).symm not_mem_nil 1

/-! ## Lines from line feeds -/

theorem segments_isPrefix_splitOn (s : List Char) : segments s <+: s.splitOn '\n' := by
  induction s with
  | nil => exact nil_prefix
  | cons c s ih =>
    obtain ⟨z, hz⟩ := ih
    rw [splitOn_eq_splitOnP, splitOnP_cons_eq_if_modifyHead, ← splitOn_eq_splitOnP, ← hz]
    by_cases hc : c = '\n'
    · subst hc
      exact ⟨z, rfl⟩
    · rw [if_neg (by simpa using hc), segments_cons_of_ne hc]
      cases hseg : segments s with
      | cons y more => exact ⟨z, rfl⟩
      | nil =>
        -- Nothing is left of the text, and splitting leaves one empty piece.
        cases s with
        | nil =>
          obtain rfl : z = [[]] := hz
          exact prefix_rfl
        | cons d s => exact absurd hseg (segments_ne_nil (cons_ne_nil d s))

/-- A text that stands behind line feeds, or at the start, is a line unless it is empty. -/
theorem length_segments_append {s t : List Char} (hs : ∀ c ∈ s.getLast?, c = '\n') (ht : '\n' ∉ t) :
    (segments (s ++ t)).length = s.count '\n' + if t = [] then 0 else 1 := by
  have hlast : (segments t).length = if t = [] then 0 else 1 := by
    by_cases hempty : t = []
    · rw [if_pos hempty, hempty]
      rfl
    · rw [if_neg hempty, segments_last ht hempty]
      rfl
  rcases eq_nil_or_concat' s with rfl | ⟨s, c, rfl⟩
  · simp [hlast]
  · obtain rfl : c = '\n' := hs c (by simp)
    rw [append_assoc, singleton_append, segments_append_newline, length_append,
      length_segments_newline, hlast, count_append, count_singleton_self]

/-- There is a line for every line feed, and one for the text behind the last of them. -/
theorem length_segments (s : List Char) :
    (segments s).length =
      s.count '\n' + if s.rtakeWhile (· != '\n') = [] then 0 else 1 := by
  -- The text is cut behind its last line feed; what follows is a line if it is not empty.
  have hcut := rdropWhile_append_rtakeWhile (p := (· != '\n')) (l := s)
  have hs : ∀ c ∈ (s.rdropWhile (· != '\n')).getLast?, c = '\n' := by
    intro c hc
    obtain ⟨hne, rfl⟩ := mem_getLast?_eq_getLast hc
    simpa using rdropWhile_last_not (· != '\n') s hne
  have ht : '\n' ∉ s.rtakeWhile (· != '\n') := by
    intro hmem
    have hne := mem_rtakeWhile_imp hmem
    simp at hne
  have hcount : s.count '\n' = (s.rdropWhile (· != '\n')).count '\n' := by
    rw [← congrArg (count '\n') hcut, count_append, count_eq_zero.mpr ht, Nat.add_zero]
  rw [hcount, ← length_segments_append hs ht, hcut]

/-- The line has the text `pad ++ rest`, where `pad` is all of its indentation. -/
structure LaidOut (l : Line) (pad rest : List Char) : Prop where
  pad_all : ∀ c ∈ pad, c = ' ' ∨ c = '\t'
  rest_head : ∀ c ∈ rest.head?, c ≠ ' ' ∧ c ≠ '\t'
  indent : l.indent = pad.length
  raw : IsTrimmedEnd (pad ++ rest) l.raw.toList
  content : IsTrimmedEnd rest l.content.toList
  /-- The raw text of a line that is not blank is its indentation and then its content. -/
  layout : l.isBlank = false → l.raw.toList = pad ++ l.content.toList

theorem laidOut_ofText (number : Nat) (x : List Char) :
    (ofText number x).LaidOut (x.takeWhile isIndent) (x.dropWhile isIndent) where
  pad_all := by
    intro c hc
    simpa [isIndent] using mem_takeWhile_imp hc
  rest_head := by
    intro c hc
    have hnot := head?_dropWhile_not isIndent x
    rw [Option.mem_def.mp hc] at hnot
    simpa [isIndent] using hnot
  indent := rfl
  raw := by
    rw [takeWhile_append_dropWhile, ofText, String.toList_ofList]
    exact isTrimmedEnd_trimEnd x
  content := by
    rw [ofText, String.toList_ofList]
    exact isTrimmedEnd_trimEnd _
  layout := raw_ofText

/-- The lines are those of a text: one for every line feed and one for what stands behind the last
of them, each with its number and with what stands between two line feeds. -/
structure Cut (lines : List Line) (s : List Char) : Prop where
  length : lines.length = s.count '\n' + if s.rtakeWhile (· != '\n') = [] then 0 else 1
  number : ∀ (i : Nat) (l : Line), lines[i]? = some l → l.number = i + 1
  text : ∀ (i : Nat) (l : Line), lines[i]? = some l → ∃ pad rest,
    (s.splitOn '\n')[i]? = some (pad ++ rest) ∧ l.LaidOut pad rest

theorem cut_ofSource (source : String) : Cut (ofSource source) source.toList := by
  have htext : ∀ i l, (ofSource source)[i]? = some l →
      ∃ x, (segments source.toList)[i]? = some x ∧ l = ofText (i + 1) x := by
    intro i l hl
    rw [ofSource, getElem?_numberFrom] at hl
    obtain ⟨x, hx, rfl⟩ := Option.map_eq_some_iff.mp hl
    exact ⟨x, hx, by rw [Nat.add_comm]⟩
  refine ⟨?_, ?_, ?_⟩
  · rw [ofSource, length_numberFrom, length_segments]
  · intro i l hl
    obtain ⟨x, -, rfl⟩ := htext i l hl
    rfl
  · intro i l hl
    obtain ⟨x, hx, rfl⟩ := htext i l hl
    refine ⟨x.takeWhile isIndent, x.dropWhile isIndent, ?_, laidOut_ofText (i + 1) x⟩
    obtain ⟨z, hz⟩ := segments_isPrefix_splitOn source.toList
    obtain ⟨hlt, -⟩ := List.getElem?_eq_some_iff.mp hx
    rw [takeWhile_append_dropWhile, ← hz, getElem?_append_left hlt, hx]

end Line

/-- The tokens of a source tile it, and at its newline tokens it is cut into its lines, which are
the texts between its line feeds. -/
theorem scan_tiles_ofSource_cuts (source : String) :
    Tiles (Token.scan source) source.toList ∧
      Line.ofTokens? source (Token.scan source) = some (Line.ofSource source) ∧
      Line.Cut (Line.ofSource source) source.toList :=
  ⟨tiles_scan source, Line.ofTokens?_scan source, Line.cut_ofSource source⟩

-- The first carriage return is stray, the second one belongs to the line feed.
example : Token.scan "\té\r\r\n p" =
    [⟨.blank, 0, 1⟩, ⟨.text, 1, 3⟩, ⟨.newline, 4, 6⟩, ⟨.blank, 6, 7⟩, ⟨.text, 7, 8⟩] := by
  decide

end Offside
