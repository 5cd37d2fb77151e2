import Offside.Proofs.Source.Line
import Offside.Tag.Head

/-!
# What a tag line ends with

Whatever reads a tag line from its start leaves the end of it as it stands. So the text behind a tag
is the end of its line (`TagHead.tail_taken`), and what is true of the last character of the line is
true of that text.

Code and expansions are trimmed instead. Trimming twice is trimming once.
-/

set_option autoImplicit false

namespace Offside

open List

/-! ## Trimmed texts -/

namespace Text

/-- The text does not end in white space. -/
def Tidy (s : List Char) : Prop :=
  ∀ c, s.getLast? = some c → isSpace c = false

/-- A text is tidy if there is nothing to trim at its end. -/
theorem tidy_iff {s : List Char} : Tidy s ↔ trimEnd s = s := by
  rw [trimEnd_eq_rdropWhile, rdropWhile_eq_self_iff, Tidy]
  constructor
  · intro h hne
    rw [Bool.not_eq_true]
    exact h _ (getLast?_eq_some_getLast hne)
  · intro h c hc
    have hne : s ≠ [] := fun hnil => by simp [hnil] at hc
    have hlast := h hne
    rwa [(getLast_eq_iff_getLast?_eq_some hne).mpr hc, Bool.not_eq_true] at hlast

instance (s : List Char) : Decidable (Tidy s) :=
  decidable_of_iff _ tidy_iff.symm

theorem tidy_trimEnd (s : List Char) : Tidy (trimEnd s) :=
  tidy_iff.mpr (trimEnd_trimEnd s)

theorem trimEnd_concat {s : List Char} {c : Char} (hc : isSpace c = false) :
    trimEnd (s ++ [c]) = s ++ [c] := by
  rw [trimEnd_eq_rdropWhile]
  exact rdropWhile_concat_neg _ _ _ (by simp [hc])

theorem Tidy.suffix {s t : List Char} (hs : Tidy s) (h : t <:+ s) : Tidy t := by
  obtain ⟨pre, rfl⟩ := h
  intro c hc
  exact hs c (by rw [getLast?_append, hc]; rfl)

/-- There is no white space left in front of a trimmed text. -/
theorem trimStart_trim (s : List Char) : trimStart (trim s) = trim s := by
  obtain ⟨z, hz⟩ := trimEnd_isPrefix (trimStart s)
  have hhead := head?_dropWhile_not isSpace s
  unfold trim
  -- If anything is left, its first character is the one that trimming the start has stopped at.
  cases htrim : trimEnd (trimStart s) with
  | nil => rfl
  | cons c rest =>
    have hstart : s.dropWhile isSpace = c :: (rest ++ z) := by
      rw [← cons_append, ← htrim]
      exact hz.symm
    rw [hstart] at hhead
    exact dropWhile_cons_of_neg (by simpa using hhead)

theorem trim_trim (s : List Char) : trim (trim s) = trim s := by
  rw [trim, trimStart_trim, trim, trimEnd_trimEnd]

theorem tidy_trim (s : List Char) : Tidy (trim s) :=
  tidy_trimEnd _

theorem trim_subset (s : List Char) : trim s ⊆ s := fun _ hc =>
  (dropWhile_suffix isSpace).subset ((trimEnd_isPrefix _).subset hc)

theorem trimmed_space {s : String} (h : trim s.toList = s.toList) :
    trimmed (' ' :: s.toList) = s := by
  have htrim : trim (' ' :: s.toList) = trim s.toList := rfl
  rw [trimmed, htrim, h, String.ofList_toList]

/-- A run of the characters `p` is taken up to something else. -/
theorem span_run {p : Char → Bool} {run rest : List Char} (hrun : ∀ c ∈ run, p c = true)
    (hrest : rest.head?.any p = false) :
    (run ++ rest).takeWhile p = run ∧ (run ++ rest).dropWhile p = rest := by
  rw [takeWhile_append_of_pos hrun, dropWhile_append_of_pos hrun]
  cases rest with
  | nil => simp
  | cons c rest =>
    have hc : p c = false := hrest
    simp [hc]

end Text

/-! ## Readers leave the end of their text -/

theorem Scan.inside_suffix {s : Scan} {text inner after : List Char}
    (h : s.inside text = some (inner, after)) : after <:+ text := by
  induction text generalizing s inner with
  | nil => simp [inside] at h
  | cons c rest ih =>
    unfold inside at h
    split at h
    · simp only [Option.some.injEq, Prod.mk.injEq] at h
      exact h.2 ▸ suffix_cons c rest
    · simp only [Option.map_eq_some_iff, Prod.mk.injEq, Prod.exists] at h
      obtain ⟨inner', after', h', -, rfl⟩ := h
      exact (ih h').trans (suffix_cons c rest)

theorem Attr.readList_suffix {s after : List Char} {attrs : List Attr}
    (h : readList s = .ok (attrs, after)) : after <:+ s := by
  unfold readList at h
  split at h
  · rename_i rest
    split at h
    · cases h
    · rename_i inner after' hinside
      cases hitems : (splitItems .start [] inner).mapM readItem with
      | error e => rw [hitems] at h; cases h
      | ok items =>
        rw [hitems] at h
        cases h
        exact (Scan.inside_suffix hinside).trans (suffix_cons _ rest)
  · cases h

namespace TagHead

open Text

theorem nameRest_suffix (s : List Char) : (nameRest s).2 <:+ s := by
  induction s with
  | nil => exact suffix_rfl
  | cons c rest ih =>
    unfold nameRest
    split
    · exact ih.trans (suffix_cons c rest)
    · exact suffix_rfl

theorem readName_suffix {s rest : List Char} {name : String} (h : readName s = .ok (name, rest)) :
    rest <:+ s := by
  unfold readName at h
  split at h
  · rename_i c tail
    split at h
    · cases h
      exact (nameRest_suffix tail).trans (suffix_cons c tail)
    · split at h
      · cases h
        exact suffix_rfl
      · cases h
  · cases h

theorem readSpread_suffix {s after : List Char} {expr : String}
    (h : readSpread s = .ok (expr, after)) : after <:+ s := by
  unfold readSpread at h
  split at h
  · rename_i rest
    split at h
    · rename_i inner after' hinside
      cases h
      exact (Scan.inside_suffix hinside).trans (suffix_cons _ rest)
    · cases h
  · cases h

theorem readPart_suffix {s after : List Char} {part : Part}
    (h : readPart s = .ok (some (part, after))) : after <:+ s := by
  unfold readPart at h
  split at h
  · cases h
  · rename_i c rest
    split at h
    · cases h
      exact (dropWhile_suffix _).trans (suffix_cons c rest)
    split at h
    · split at h
      · cases h
      · rename_i attrs after' hlist
        cases h
        exact Attr.readList_suffix hlist
    · split at h
      · cases h
      · rename_i spread hspread
        split at h
        · cases h
        · rename_i expr after' hread
          cases h
          have hend : spread <:+ c :: rest := ⟨_, (eq_append_of_after? hspread).symm⟩
          exact (readSpread_suffix hread).trans hend

theorem readParts_suffix {attrs attrs' : List Attr} {spreads spreads' : List String}
    {s rest : List Char} (h : readParts attrs spreads s = .ok (attrs', spreads', rest)) :
    rest <:+ s := by
  fun_induction readParts attrs spreads s with
  | case1 => cases h
  | case2 => cases h; exact suffix_rfl
  | case3 => cases h
  | case4 attrs spreads s new after hpart _ _ _ ih => exact (ih h).trans (readPart_suffix hpart)
  | case5 attrs spreads s expr after hpart _ ih => exact (ih h).trans (readPart_suffix hpart)

theorem readMark_suffix (s : List Char) : (readMark s).2 <:+ s := by
  unfold readMark
  split
  · exact suffix_cons _ _
  · exact suffix_rfl

/-! ## Tails -/

/-- What a tail takes from the end `s` of a line: its text as it stands, or what is left of it after
trimming. -/
def TakenFrom (s : List Char) : TagTail → Prop
  | .text text => text.toList <:+ s
  | .code expr _ => ∃ rest, rest <:+ s ∧ expr = trimmed rest
  | .expansion child => ∃ rest, rest <:+ s ∧ child = trimmed rest
  | .none | .textBlock => True

theorem readTail_taken {name : String} {s : List Char} {tail : TagTail}
    (h : readTail name s = .ok tail) : TakenFrom s tail := by
  unfold readTail at h
  split at h
  · cases h; trivial
  · cases h; trivial
  · rename_i expr
    cases h
    exact ⟨expr, ⟨['!', '='], rfl⟩, rfl⟩
  · rename_i expr
    cases h
    exact ⟨expr, suffix_cons _ _, rfl⟩
  · rename_i child
    split at h
    · cases h
      exact ⟨child, suffix_cons _ _, rfl⟩
    · cases h
  · rename_i text
    cases h
    rw [TakenFrom, String.toList_ofList]
    exact suffix_cons _ _
  · cases h

theorem TakenFrom.mono {s t : List Char} {tail : TagTail} (h : TakenFrom s tail) (hst : s <:+ t) :
    TakenFrom t tail := by
  cases tail with
  | none | textBlock => trivial
  | text text => exact IsSuffix.trans h hst
  | code expr escape | expansion child =>
    obtain ⟨rest, hrest, heq⟩ := h
    exact ⟨rest, hrest.trans hst, heq⟩

/-- The tail of a tag is taken from the end of its line. -/
theorem tail_taken {s : List Char} {head : TagHead} (h : read s = .ok head) :
    TakenFrom s head.tail := by
  unfold read at h
  cases hname : readName s with
  | error e => rw [hname] at h; cases h
  | ok nameRest =>
    obtain ⟨name, r₁⟩ := nameRest
    rw [hname] at h
    cases hparts : readParts [] [] r₁ with
    | error e => simp only [bind, Except.bind, hparts] at h; cases h
    | ok parts =>
      obtain ⟨attrs, spreads, r₂⟩ := parts
      cases htail : readTail name (readMark r₂).2 with
      | error e => simp only [bind, Except.bind, hparts, htail] at h; cases h
      | ok tail =>
        simp only [bind, Except.bind, hparts, htail, Except.ok.injEq] at h
        subst h
        -- Name, parts and mark are each cut off in front, so the end of the line is left
        -- throughout.
        have hend := ((readMark_suffix r₂).trans (readParts_suffix hparts)).trans
          (readName_suffix hname)
        exact (readTail_taken htail).mono hend

end TagHead

end Offside
