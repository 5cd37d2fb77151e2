import Offside.Proofs.Compile.Loop
import Offside.Proofs.Compile.Nested
import Offside.Proofs.Tag.Tail

/-!
# Written loop headers

A header is read at the first `in` that stands by itself, wherever that is, and the white space in
it can be anything. So a header that is put together from a value, a key and an expression is read
back as these three, provided that no `in` by itself comes in front of the one that was meant: it
may be part of the expression, but not of the names (`Written`). A header with no `in` by itself is
kept, less a parenthesis in front and one at its end.

Both cases together say what is visited of a loop (`visit_each_written`).
-/

set_option autoImplicit false

namespace Offside

open List

/-! ## White space around a text -/

namespace Text

theorem IsSpaces.not_mem {w : List Char} {c : Char} (hw : IsSpaces w) (hc : isSpace c = false) :
    c ∉ w := by
  intro hmem
  rw [hw c hmem] at hc
  cases hc

/-- Space in front of a text is trimmed up to the text. -/
theorem IsSpaces.trimStart_append {w : List Char} (hw : IsSpaces w) (s : List Char) :
    trimStart (w ++ s) = trimStart s :=
  dropWhile_append_of_pos hw

theorem trimStart_of_head {c : Char} (hc : isSpace c = false) (s : List Char) :
    trimStart (c :: s) = c :: s :=
  dropWhile_cons_of_neg (by simp [hc])

/-- There is something in the text, and no white space around it. -/
structure IsWord (t : String) : Prop where
  ne_empty : t ≠ ""
  trimmed : trim t.toList = t.toList

namespace IsWord

variable {t : String}

theorem ne_nil (h : IsWord t) : t.toList ≠ [] := by
  intro hnil
  exact h.ne_empty (String.toList_eq_nil_iff.mp hnil)

theorem tidy (h : IsWord t) : Tidy t.toList := by
  have htidy := tidy_trim t.toList
  rwa [h.trimmed] at htidy

theorem trimStart_append (h : IsWord t) (s : List Char) :
    trimStart (t.toList ++ s) = t.toList ++ s := by
  have hstart : trimStart t.toList = t.toList := by
    rw [← h.trimmed, trimStart_trim]
  have hne : (trimStart t.toList).isEmpty = false := by
    rw [hstart, isEmpty_eq_false_iff]
    exact h.ne_nil
  rw [trimStart, dropWhile_append, ← trimStart, hne, hstart]
  rfl

/-- A word is what is left if the white space around it is trimmed. -/
theorem trimmed_padded (h : IsWord t) {a b : List Char} (ha : IsSpaces a) (hb : IsSpaces b) :
    Text.trimmed (a ++ (t.toList ++ b)) = t := by
  rw [Text.trimmed, trim, ha.trimStart_append, h.trimStart_append, hb.trimEnd_append,
    tidy_iff.mp h.tidy, String.ofList_toList]

end IsWord

end Text

/-! ## The first `in` by itself -/

namespace LoopHeader

open Text

/-- Somewhere in the text there is an `in` with white space on both sides. -/
def HasIn (s : List Char) : Prop :=
  ∃ x y, isSpace x = true ∧ isSpace y = true ∧ [x, 'i', 'n', y] <:+: s

theorem HasIn.of_infix {s t : List Char} (h : HasIn s) (hst : s <:+: t) : HasIn t := by
  obtain ⟨x, y, hx, hy, hs⟩ := h
  exact ⟨x, y, hx, hy, hs.trans hst⟩

theorem afterIn?_written {gap after : List Char} (hgap : IsSpaces gap) (hne : gap ≠ [])
    (hafter : startsWithSpace after = true) :
    afterIn? (gap ++ 'i' :: 'n' :: after) = some (trimStart after) := by
  have hstart : startsWithSpace (gap ++ 'i' :: 'n' :: after) = true := by
    obtain ⟨x, gap, rfl⟩ := exists_cons_of_ne_nil hne
    exact hgap x mem_cons_self
  have htrim : trimStart (gap ++ 'i' :: 'n' :: after) = 'i' :: 'n' :: after := by
    rw [hgap.trimStart_append, trimStart_of_head rfl]
  rw [afterIn?, if_pos hstart, htrim]
  exact if_pos hafter

/-- Where the text after an `in` is read, there is white space on both sides of it. -/
theorem exists_space_of_afterIn? {s after : List Char} (h : afterIn? s = some after) :
    ∃ w x y rest, s = w ++ x :: 'i' :: 'n' :: y :: rest ∧ IsSpaces (w ++ [x]) ∧
      isSpace y = true := by
  obtain ⟨hsplit, hspaces⟩ := exists_takeWhile s
  unfold afterIn? at h
  split_ifs at h with hstart
  split at h
  · rename_i behind hbehind
    split_ifs at h with hback
    obtain ⟨y, rest, rfl⟩ : ∃ y rest, behind = y :: rest := by
      cases behind with
      | nil => cases hback
      | cons y rest => exact ⟨y, rest, rfl⟩
    rw [hbehind] at hsplit
    rcases eq_nil_or_concat (s.takeWhile isSpace) with hnil | ⟨w, x, hconcat⟩
    · rw [hnil] at hsplit
      rw [hsplit] at hstart
      cases hstart
    · rw [concat_eq_append] at hconcat
      rw [hconcat] at hsplit hspaces
      refine ⟨w, x, y, rest, ?_, hspaces, hback⟩
      rw [hsplit, append_assoc]
      rfl
  · cases h

theorem hasIn_of_afterIn? {s after : List Char} (h : afterIn? s = some after) : HasIn s := by
  obtain ⟨w, x, y, rest, rfl, hspaces, hy⟩ := exists_space_of_afterIn? h
  refine ⟨x, y, hspaces x (mem_append_right w mem_cons_self), hy, w, rest, ?_⟩
  simp

/-- A header is cut if there is an `in` by itself in it. -/
theorem splitIn?_eq_none_iff {s : List Char} : splitIn? s = none ↔ ¬HasIn s := by
  induction s with
  | nil => simp [splitIn?, HasIn]
  | cons c s ih =>
    rw [splitIn?, Option.or_eq_none_iff, Option.map_eq_none_iff, Option.map_eq_none_iff, ih]
    constructor
    · rintro ⟨hhere, hlater⟩ ⟨x, y, hx, hy, hin⟩
      -- An `in` by itself starts right here or further on.
      rcases infix_cons_iff.mp hin with ⟨rest, hrest⟩ | hin
      · have hspace : IsSpaces [x] := forall_mem_singleton.mpr hx
        have hafter : afterIn? ([x] ++ 'i' :: 'n' :: y :: rest) = some (trimStart (y :: rest)) :=
          afterIn?_written hspace (cons_ne_nil x []) hy
        rw [← hrest] at hhere
        exact absurd (hhere.symm.trans hafter) (by simp)
      · exact hlater ⟨x, y, hx, hy, hin⟩
    · intro hnone
      constructor
      · rw [Option.eq_none_iff_forall_ne_some]
        exact fun after hafter => hnone (hasIn_of_afterIn? hafter)
      · exact fun hin => hnone (hin.of_infix (suffix_cons c s).isInfix)

/-- No `in` by itself starts in front of the one at the end of a text without any. Which character
follows the text does not matter, as long as it is white space. -/
theorem afterIn?_eq_none {front rest : List Char} {c g : Char} (htidy : Tidy front)
    (hne : front ≠ []) (hc : isSpace c = true) (hg : isSpace g = true)
    (hfirst : ¬HasIn (front ++ [c])) : afterIn? (front ++ g :: rest) = none := by
  rw [Option.eq_none_iff_forall_ne_some]
  intro after hafter
  obtain ⟨w, x, y, rest', heq, hspaces, hy⟩ := exists_space_of_afterIn? hafter
  have hx : isSpace x = true := hspaces x (mem_append_right w mem_cons_self)
  rw [append_cons w] at heq
  rcases append_eq_append_iff.mp heq with ⟨t, hfront, -⟩ | ⟨t, hfront, ht⟩
  · -- The text would be white space.
    have hlast : isSpace (front.getLast hne) = true := by
      refine hspaces _ ?_
      rw [hfront]
      exact mem_append_left t (getLast_mem hne)
    rw [htidy _ (getLast?_eq_some_getLast hne)] at hlast
    cases hlast
  · -- The `in` is a part of the text, or its end.
    rcases t with _ | ⟨i, _ | ⟨n, t⟩⟩ <;> simp only [cons_append, nil_append, cons.injEq] at ht
    · obtain ⟨rfl, -⟩ := ht
      cases hg
    · obtain ⟨-, rfl, -⟩ := ht
      cases hg
    · obtain ⟨rfl, rfl, ht⟩ := ht
      cases t with
      | nil => exact hfirst ⟨x, c, hx, hc, w, [], by simp [hfront]⟩
      | cons z t =>
        obtain ⟨rfl, -⟩ := cons.inj ht
        exact hfirst ⟨x, y, hx, hy, w, t ++ [c], by simp [hfront]⟩

/-- A header is cut at the `in` that was meant if there is none in front of it. -/
theorem splitIn?_written {front gap after : List Char} {c : Char} (htidy : Tidy front)
    (hgap : IsSpaces gap) (hne : gap ≠ []) (hafter : startsWithSpace after = true)
    (hc : isSpace c = true) (hfirst : ¬HasIn (front ++ [c])) :
    splitIn? (front ++ (gap ++ 'i' :: 'n' :: after)) = some (front, trimStart after) := by
  obtain ⟨g, gap', rfl⟩ := exists_cons_of_ne_nil hne
  induction front with
  | nil =>
    have hhere := afterIn?_written hgap hne hafter
    rw [cons_append] at hhere
    rw [nil_append, cons_append, splitIn?, hhere]
    rfl
  | cons d front ih =>
    have hhere : afterIn? (d :: front ++ g :: (gap' ++ 'i' :: 'n' :: after)) = none :=
      afterIn?_eq_none htidy (cons_ne_nil d front) hc (hgap g mem_cons_self) hfirst
    have hlater := ih (htidy.suffix (suffix_cons d front)) fun hin =>
      hfirst (hin.of_infix (suffix_cons d _).isInfix)
    rw [cons_append] at hhere
    rw [cons_append] at hlater
    rw [cons_append, cons_append, splitIn?, hhere, hlater]
    rfl

/-! ## Names -/

/-- The text in front of an `in` names a value and, behind a comma, a key or nothing. -/
inductive Names (value : String) : Option String → List Char → Prop
  | value {a : List Char} (ha : IsSpaces a) : Names value none (a ++ value.toList)
  | comma {a b c : List Char} (ha : IsSpaces a) (hb : IsSpaces b) (hc : IsSpaces c) :
      Names value none (a ++ (value.toList ++ b) ++ ',' :: c)
  | key {key : String} {a b c : List Char} (ha : IsSpaces a) (hb : IsSpaces b) (hc : IsSpaces c)
      (hkey : IsWord key) :
      Names value (some key) (a ++ (value.toList ++ b) ++ ',' :: (c ++ key.toList))

theorem tidy_append {a b : List Char} (hb : Tidy b) (hne : b ≠ []) : Tidy (a ++ b) := by
  intro c hc
  rw [getLast?_append_of_ne_nil a hne] at hc
  exact hb c hc

theorem all_ne_comma {front : List Char} (hfront : ',' ∉ front) :
    ∀ c ∈ front, (c != ',') = true := by
  intro c hc
  rw [bne_iff_ne]
  rintro rfl
  exact hfront hc

theorem binding_cons {front rest : List Char} (hfront : ',' ∉ front) :
    binding (front ++ ',' :: rest) =
      (trimmed front, if (trim rest).isEmpty then none else some (trimmed rest)) := by
  obtain ⟨htake, hdrop⟩ := span_run (p := (· != ',')) (all_ne_comma hfront)
    (show (',' :: rest).head?.any (· != ',') = false from rfl)
  rw [binding, htake, hdrop]

/-- The names are read back from the text without the white space at its end. -/
theorem Names.exists_binding {value : String} {key : Option String} {front : List Char}
    (h : Names value key front) (hvalue : IsWord value) (hcomma : ',' ∉ value.toList) :
    ∃ names w, front = names ++ w ∧ IsSpaces w ∧ Tidy names ∧ binding names = (value, key) := by
  have hfront {a b : List Char} (ha : IsSpaces a) (hb : IsSpaces b) :
      ',' ∉ a ++ (value.toList ++ b) := by
    simp only [mem_append, not_or]
    exact ⟨ha.not_mem rfl, hcomma, hb.not_mem rfl⟩
  -- With a comma and nothing behind it, the white space at the end is cut off with the separator.
  -- Otherwise there is none.
  cases h with
  | @value a ha =>
    refine ⟨_, [], (append_nil _).symm, isSpaces_nil, tidy_append hvalue.tidy hvalue.ne_nil, ?_⟩
    have hplain := hfront ha isSpaces_nil
    have htrim := hvalue.trimmed_padded ha isSpaces_nil
    rw [append_nil] at hplain htrim
    have hdrop : (a ++ value.toList).dropWhile (· != ',') = [] :=
      dropWhile_eq_nil_iff.mpr (all_ne_comma hplain)
    rw [binding, hdrop, htrim]
  | comma ha hb hc =>
    refine ⟨_, _, append_cons _ _ _, hc, tidy_append (b := [',']) (by decide) (cons_ne_nil _ _), ?_⟩
    rw [binding_cons (hfront ha hb), hvalue.trimmed_padded ha hb]
    rfl
  | @key key a b c ha hb hc hkey =>
    refine ⟨_, [], (append_nil _).symm, isSpaces_nil, ?_, ?_⟩
    · rw [append_cons, ← append_assoc]
      exact tidy_append hkey.tidy hkey.ne_nil
    · have htrim := hkey.trimmed_padded hc isSpaces_nil
      rw [append_nil] at htrim
      have hne : (trim (c ++ key.toList)).isEmpty = false := by
        rw [isEmpty_eq_false_iff]
        intro hempty
        rw [trimmed, hempty] at htrim
        exact hkey.ne_empty htrim.symm
      rw [binding_cons (hfront ha hb), hvalue.trimmed_padded ha hb, htrim, hne]
      rfl

/-! ## Headers -/

/-- The text is a header for the value, the key and the expression: the names are in front of an
`in` by itself, and there is none in front of that one. -/
inductive Written (value : String) (key : Option String) (expr : String) : List Char → Prop
  | mk {front gap back z : List Char} {c : Char} (hnames : Names value key front)
      (hvalue : IsWord value) (hcomma : ',' ∉ value.toList) (hexpr : IsWord expr)
      (hgap : IsSpaces gap) (hgap_ne : gap ≠ []) (hback : IsSpaces back) (hback_ne : back ≠ [])
      (hz : IsSpaces z) (hc : isSpace c = true) (hfirst : ¬HasIn (front ++ [c])) :
      Written value key expr (front ++ (gap ++ 'i' :: 'n' :: (back ++ (expr.toList ++ z))))

/-- What is written in a header is read from it. -/
theorem read_written {value expr header : String} {key : Option String}
    (h : Written value key expr header.toList) : read header = .each value key expr := by
  generalize hheader : header.toList = text at h
  obtain @⟨front, gap, back, z, c, hnames, hvalue, hcomma, hexpr, hgap, hgap_ne, hback, hback_ne,
    hz, hc, hfirst⟩ := h
  obtain ⟨names, w, rfl, hw, htidy, hbinding⟩ := hnames.exists_binding hvalue hcomma
  have hafter : startsWithSpace (back ++ (expr.toList ++ z)) = true := by
    obtain ⟨y, back, rfl⟩ := exists_cons_of_ne_nil hback_ne
    exact hback y mem_cons_self
  -- The header is cut where the white space starts, which may be behind the comma.
  obtain ⟨c', hc', hfirst'⟩ : ∃ c', isSpace c' = true ∧ ¬HasIn (names ++ [c']) := by
    cases w with
    | nil => exact ⟨c, hc, by rwa [append_nil] at hfirst⟩
    | cons c' w =>
      refine ⟨c', hw c' mem_cons_self, fun hin => hfirst (hin.of_infix ?_)⟩
      refine IsPrefix.isInfix ⟨w ++ [c], ?_⟩
      simp
  have hsplit : splitIn? header.toList =
      some (names, trimStart (back ++ (expr.toList ++ z))) := by
    rw [hheader, append_assoc, ← append_assoc w]
    exact splitIn?_written htidy (hw.append hgap)
      (append_ne_nil_of_right_ne_nil w hgap_ne) hafter hc' hfirst'
  have hrest : trimmed (trimStart (back ++ (expr.toList ++ z))) = expr := by
    have htrim := hexpr.trimmed_padded isSpaces_nil hz
    rwa [hback.trimStart_append, hexpr.trimStart_append, ← nil_append (expr.toList ++ z)]
  rw [Compile.read_of_splitIn? hsplit, hbinding, hrest]

/-- The text without white space and a parenthesis in front, if it starts so. -/
def Unopened (text rest : List Char) : Prop :=
  (∃ w, IsSpaces w ∧ text = w ++ '(' :: rest) ∨
    rest = text ∧ ∀ w rest', IsSpaces w → text ≠ w ++ '(' :: rest'

/-- The text without a parenthesis and white space at its end, if it ends so. -/
def Unclosed (text rest : List Char) : Prop :=
  (∃ w, IsSpaces w ∧ text = rest ++ ')' :: w) ∨
    rest = text ∧ ∀ w rest', IsSpaces w → text ≠ rest' ++ ')' :: w

theorem dropOpening_unopened (text : List Char) : Unopened text (dropOpening text) := by
  by_cases hopening : (trimStart text).head? = some '('
  · obtain ⟨rest, hrest⟩ := head?_eq_some_iff.mp hopening
    obtain ⟨hsplit, hspaces⟩ := exists_takeWhile text
    rw [dropOpening_cons hrest]
    exact .inl ⟨_, hspaces, hrest ▸ hsplit⟩
  · refine .inr ⟨dropOpening_of_head? hopening, ?_⟩
    rintro w rest hw rfl
    rw [hw.trimStart_append, trimStart_of_head rfl] at hopening
    exact hopening rfl

theorem dropClosing_unclosed (text : List Char) : Unclosed text (dropClosing text) := by
  by_cases hclosing : (trimEnd text).getLast? = some ')'
  · obtain ⟨rest, hrest⟩ := getLast?_eq_some_iff.mp hclosing
    rw [dropClosing_concat hrest]
    refine .inl ⟨text.rtakeWhile isSpace, fun c hc => mem_rtakeWhile_imp hc, ?_⟩
    rw [append_cons, ← hrest, trimEnd_eq_rdropWhile, rdropWhile_append_rtakeWhile]
  · refine .inr ⟨dropClosing_of_getLast? hclosing, ?_⟩
    rintro w rest hw rfl
    rw [append_cons, hw.trimEnd_append, trimEnd_concat rfl] at hclosing
    exact hclosing getLast?_concat

theorem read_of_not_hasIn {header : String} (h : ¬HasIn header.toList) :
    read header = .plain (String.ofList (dropClosing (dropOpening header.toList))) := by
  rw [read, splitIn?_eq_none_iff.mpr h]

end LoopHeader

namespace Compile

open LoopHeader

variable {m : Type → Type} [Monad m] [MonadExceptOf CompileError m] [LawfulMonad m]

theorem visit_each_eq (o : Options) (embed : Embed m) (host : Option Host) (header key : String)
    (body : Option Block) (p : Place) :
    visit o embed host (.lead (.each header key) body p) =
      (fun children => .one (.group (loop key (.read header)) children (.ofPlace p))) <$>
        visitList o embed host (Node.lead (.each header key) body p).children := by
  rw [visit_lead_eq, lead]
  simp [Lead.isTransparent, Shell.fill, ofExcept]

/-- A loop whose header is written for a value, a key and an expression goes through the expression
with these names; where the header names no key, it is the key of the node. A loop whose header has
no `in` by itself keeps the header, less the parentheses at its ends. -/
theorem visit_each_written (o : Options) (embed : Embed m) (host : Option Host)
    (header key : String) (body : Option Block) (p : Place) :
    let looped (g : Group) : m Visited :=
      (fun children => .one (.group g children (.ofPlace p))) <$>
        visitList o embed host (Node.lead (.each header key) body p).children
    (∀ value named expr, Written value named expr header.toList →
      visit o embed host (.lead (.each header key) body p) =
        looped (.each (named.getD key) value expr true)) ∧
    (¬HasIn header.toList → ∃ rest inner, Unopened header.toList rest ∧ Unclosed rest inner ∧
      visit o embed host (.lead (.each header key) body p) =
        looped (.loop (String.ofList inner) true)) := by
  intro looped
  rw [visit_each_eq]
  constructor
  · intro value named expr hwritten
    rw [read_written hwritten]
    rfl
  · intro hnone
    refine ⟨_, _, dropOpening_unopened _, dropClosing_unclosed _, ?_⟩
    rw [read_of_not_hasIn hnone]
    rfl

/-- Value and key are called `in`, and there is one by itself in the expression. The other header
has parentheses, and an `in` at its end. -/
theorem visit_each_written_in :
    let p : Place := ⟨1, none⟩
    let body : Option Block := some (.mk [.leaf (.text "x") p] .plain)
    let header := "in ,in in in in"
    let kept := "\t(i of within; in)\t"
    let embed : Embed (Except CompileError) := nested {}
    let children : List IR := [.atom (.text "\"x\"" true) (.ofPlace p)]
    (Written "in" (some "in") "in in" header.toList ∧
      visit {} embed none (.lead (.each header "$index") body p) =
        .ok (.one (.group (.each "in" "in" "in in" true) children (.ofPlace p)))) ∧
    (¬HasIn kept.toList ∧ ∃ rest inner, Unopened kept.toList rest ∧ Unclosed rest inner ∧
      visit {} embed none (.lead (.each kept "$index") body p) =
        .ok (.one (.group (.loop (String.ofList inner) true) children (.ofPlace p)))) := by
  intro p body header kept embed children
  have hspace : Text.IsSpaces [' '] := forall_mem_singleton.mpr rfl
  have hin : Text.IsWord "in" := ⟨by decide, by decide⟩
  have hexpr : Text.IsWord "in in" := ⟨by decide, by decide⟩
  have hnames : Names "in" (some "in") "in ,in".toList :=
    .key Text.isSpaces_nil hspace Text.isSpaces_nil hin
  have hfirst : ¬HasIn ("in ,in".toList ++ [' ']) := splitIn?_eq_none_iff.mp (by decide)
  have htext : Written "in" (some "in") "in in"
      ("in ,in".toList ++ ([' '] ++ 'i' :: 'n' :: ([' '] ++ ("in in".toList ++ [])))) :=
    .mk hnames hin (by decide) hexpr hspace (cons_ne_nil _ _) hspace (cons_ne_nil _ _)
      Text.isSpaces_nil rfl hfirst
  have hheader : "in ,in".toList ++ ([' '] ++ 'i' :: 'n' :: ([' '] ++ ("in in".toList ++ []))) =
      header.toList := by decide
  have hwritten : Written "in" (some "in") "in in" header.toList := hheader.subst htext
  have hnone : ¬HasIn kept.toList := splitIn?_eq_none_iff.mp (by decide)
  constructor
  · exact ⟨hwritten, (visit_each_written {} embed none header "$index" body p).1 _ _ _ hwritten⟩
  · exact ⟨hnone, (visit_each_written {} embed none kept "$index" body p).2 hnone⟩

end Compile

end Offside
