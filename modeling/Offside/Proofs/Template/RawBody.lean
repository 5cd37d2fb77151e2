import Offside.Proofs.Template.OffsideRule

/-!
# Bodies that are taken as text

Below a filter, a comment, a tag that ends in a dot, or a statement tag, the lines are not read as
template lines. They are kept as text, one node for each line, from the one right below to the last
that is not blank (`RawBody`). All of them lose the same width in front, the least that any of them
has, and nothing else but white space at the end (`TextOf`).

Nothing that matters for reading the lines later is lost: the text of the body, put together again,
falls into the same lines, numbered from one and moved to the left (`ReadAgain`). `parse_rawBodies`
says so about every such body of a template.
-/

set_option autoImplicit false

namespace Offside

open List

/-! ## The lines of a body -/

namespace Template

/-- The lines below `i` that it can take: from the next line on to the last one that is not blank,
before the first line that is not blank and indented no deeper than `i`. -/
structure RawBody (lines : List Line) (i : Line) (body : List Line) : Prop where
  span : ∃ front blanks after, lines = front ++ i :: (body ++ (blanks ++ after)) ∧
    (∀ l ∈ blanks, l.isBlank = true) ∧
    ∀ l ∈ after.head?, l.isBlank = false ∧ l.indent ≤ i.indent
  deeper : ∀ l ∈ body, l.isBlank = false → i.indent < l.indent
  last : ∀ l ∈ body.getLast?, l.isBlank = false

/-- The least indentation of lines, blank lines aside. -/
structure LeastIndent (body : List Line) (base : Nat) : Prop where
  le : ∀ l ∈ body, l.isBlank = false → base ≤ l.indent
  attained : body ≠ [] → ∃ l ∈ body, l.isBlank = false ∧ l.indent = base

/-- The text that a line of a body is kept as. -/
structure TextOf (base : Nat) (l : Line) (text : String) : Prop where
  blank : l.isBlank = true → text = ""
  cut : l.isBlank = false → ∃ pad, Text.bytes pad = base ∧ (∀ c ∈ pad, c = ' ' ∨ c = '\t') ∧
    l.raw.toList = pad ++ text.toList

/-- The line `l'` is the line `l` of the body below `i`, read again from the text of the body. -/
structure ReadAgain (i : Line) (base : Nat) (l l' : Line) : Prop where
  number : l.number = i.number + l'.number
  content : l'.content = l.content
  indent : l.isBlank = false → l.indent = base + l'.indent

section Body

variable {f : Option String} {lines : List Line} {i l : Line}

theorem dropBlankEnd_append (lines : List Line) :
    dropBlankEnd lines ++ lines.rtakeWhile Line.isBlank = lines := by
  rw [dropBlankEnd, rtakeWhile, ← reverse_append, takeWhile_append_dropWhile, reverse_reverse]

theorem dropBlankEnd_eq_nil_iff : dropBlankEnd lines = [] ↔ lines.all Line.isBlank = true := by
  rw [all_eq_true]
  exact rdropWhile_eq_nil_iff

/-- The body of a line, up to the last line in it that is not blank. -/
theorem rawBody_dropBlankEnd (h : Line.Increasing lines) (hi : i ∈ lines) :
    RawBody lines i (dropBlankEnd (bodyOf lines i)) := by
  -- The body of `i` is what `takeWhile` takes behind it; its blank end is cut off from the back.
  obtain ⟨front, rest, rfl⟩ := append_of_mem hi
  have hbody : bodyOf (front ++ i :: rest) i = rest.takeWhile (Line.isBelow i.indent) := by
    rw [bodyOf_append_right h mem_cons_self, bodyOf_cons_self (pairwise_append.mp h).2.1]
  refine ⟨⟨front, (bodyOf (front ++ i :: rest) i).rtakeWhile Line.isBlank,
    rest.dropWhile (Line.isBelow i.indent), ?_, fun l hl => mem_rtakeWhile_imp hl, ?_⟩, ?_, ?_⟩
  · rw [← append_assoc (dropBlankEnd _), dropBlankEnd_append, hbody, takeWhile_append_dropWhile]
  · intro l hl
    have hstop := head?_dropWhile_not (Line.isBelow i.indent) rest
    rw [Option.mem_def.mp hl] at hstop
    simpa [Line.isBelow] using hstop
  · exact fun l hl hb => indent_lt_of_mem_bodyOf h ((dropBlankEnd_isPrefix _).mem hl) hb
  · exact fun l hl => not_isBlank_of_getLast? hl

theorem consecutive_bodyOf (h : Line.Increasing lines) (hlines : Line.Consecutive 1 lines)
    (hi : i ∈ lines) : Line.Consecutive (1 + i.number) (bodyOf lines i) := by
  obtain ⟨front, rest, rfl⟩ := append_of_mem hi
  rw [bodyOf_append_right h mem_cons_self, bodyOf_cons_self (pairwise_append.mp h).2.1]
  obtain ⟨⟨s, -, rfl⟩, hrest⟩ := (Line.consecutive_append.mp hlines).2
  rw [← takeWhile_append_dropWhile (p := Line.isBelow _) (l := rest),
    Line.consecutive_append] at hrest
  rw [Nat.add_comm]
  exact hrest.1

theorem leastIndent_commonIndent (lines : List Line) :
    LeastIndent (dropBlankEnd lines) (commonIndent (dropBlankEnd lines)) where
  le l hl hb := commonIndent_le hl hb
  attained hne := by
    -- The last line of a body is not blank, so there is a least indentation to be attained.
    have hlast := not_isBlank_of_getLast? (getLast?_eq_some_getLast hne)
    have hmem : (dropBlankEnd lines).getLast hne ∈
        (dropBlankEnd lines).filter fun l => !l.isBlank :=
      mem_filter.mpr ⟨getLast_mem hne, by simp [hlast]⟩
    obtain ⟨w, hw⟩ := Option.isSome_iff_exists.mp
      (isSome_min?_of_mem (mem_map_of_mem (f := Line.indent) hmem))
    obtain ⟨l, hl, rfl⟩ := mem_map.mp (min?_eq_some_iff.mp hw).1
    obtain ⟨hl, hb⟩ := mem_filter.mp hl
    exact ⟨l, hl, by simpa using hb, by rw [commonIndent, hw]; rfl⟩

end Body

end Template

namespace Text

theorem bytes_of_isIndent {w : List Char} (hw : ∀ c ∈ w, isIndent c = true) :
    bytes w = w.length := by
  induction w with
  | nil => rfl
  | cons c rest ih =>
    obtain ⟨hc, hrest⟩ := forall_mem_cons.mp hw
    have hsize : c.utf8Size = 1 := by
      simp only [isIndent, Bool.or_eq_true, beq_iff_eq] at hc
      rcases hc with rfl | rfl <;> decide
    rw [bytes, hsize, ih hrest, length_cons, Nat.add_comm]

end Text

namespace Template

/-- The kept text of a line is its raw text without as many spaces and tabs as all lines have. -/
theorem textOf_verbatimText {n base : Nat} {s : List Char}
    (hbase : (Line.ofText n s).isBlank = false → base ≤ (Line.ofText n s).indent) :
    TextOf base (.ofText n s) (verbatimText base (.ofText n s)) where
  blank hb := by simp [verbatimText, hb]
  cut hb := by
    have hle : base ≤ (s.takeWhile Text.isIndent).length := hbase hb
    have hpad : ∀ c ∈ (s.takeWhile Text.isIndent).take base, Text.isIndent c = true :=
      fun c hc => mem_takeWhile_imp (mem_of_mem_take hc)
    refine ⟨(s.takeWhile Text.isIndent).take base, ?_, fun c hc => ?_, ?_⟩
    · rw [Text.bytes_of_isIndent hpad, length_take_of_le hle]
    · simpa [Text.isIndent] using hpad c hc
    · have hraw := Line.raw_ofText hb
      simp only [verbatimText, hb, Bool.false_eq_true, if_false, String.toList_ofList, hraw]
      rw [drop_append_of_le_length hle, ← append_assoc, take_append_drop]

theorem forall₂_number {m rows : Nat} {xs ys : List Line} (hx : Line.Consecutive m xs)
    (hy : Line.Consecutive (m + rows) ys) (hlen : xs.length = ys.length) :
    Forall₂ (fun y x => y.number = rows + x.number) ys xs := by
  induction xs generalizing m ys with
  | nil => cases ys with
    | nil => exact .nil
    | cons y ys => cases hlen
  | cons x xs ih => cases ys with
    | nil => cases hlen
    | cons y ys =>
      obtain ⟨⟨s, -, rfl⟩, hx⟩ := hx
      obtain ⟨⟨t, -, rfl⟩, hy⟩ := hy
      refine .cons (Nat.add_comm m rows) (ih hx ?_ (Nat.succ.inj hlen))
      rwa [Nat.add_right_comm] at hy

/-- The text of a body falls into the lines of the body again. -/
theorem readAgain_verbatim {f : Option String} {lines : List Line} {i : Line}
    (h : Line.Consecutive (1 + i.number) lines) :
    Forall₂ (ReadAgain i (commonIndent (dropBlankEnd lines))) (dropBlankEnd lines)
      (Line.ofSource (Compile.linesOf (verbatim f lines))) := by
  -- The lines of the text are those of the body, moved to the left. They come in the same order, so
  -- the numbers of both run along with each other.
  have hmoved := ofSource_linesOf (f := f) h
  have hbody : Line.Consecutive (1 + i.number) (dropBlankEnd lines) := by
    rw [← dropBlankEnd_append lines, Line.consecutive_append] at h
    exact h.1
  have hnumber := forall₂_number (Line.consecutive_ofSource _) hbody hmoved.length_eq
  refine Forall₂.mp (fun l l' hl hnum => ?_) hmoved.flip hnumber
  refine ⟨hnum, hl.content.symm, fun hb => ?_⟩
  rw [hl.indent (hl.isBlank.symm.trans hb), Nat.add_comm]

/-! ## The node of a body -/

namespace Plan

/-- The lines below a line with this plan are kept as text. -/
def takesText : Plan → Bool
  | .comment _ _ | .filter _ _ => true
  | .tag _ _ _ raw => raw
  | .expansion _ child => child.takesText
  | .bare _ _ | .doctype _ | .lead _ _ | .caseOf _ | .block _ => false

/-- The node that keeps the lines as `texts`, if the plan is for one. The text on the line of a
statement tag comes first. A comment with nothing below it keeps none. -/
def rawNode? (place : Place) (texts : List Node) : Plan → Option Node
  | .comment text buffer =>
    if texts.isEmpty then some (.leaf (.comment text buffer) place)
    else some (.frame (.comment text buffer) (.plain texts) place)
  | .filter name attrs => some (.frame (.filter name attrs) (.plain texts) place)
  | .tag t text code true =>
    some (.tag t (.plain (inlineText place text ++ texts)) (inlineCode place code) place)
  | .expansion _ child => child.rawNode? place texts
  | _ => none

theorem holder_mem_walk {place : Place} {below : Below} {plan : Plan} {node : Node}
    (h : plan.Builds place below node) : plan.holder node ∈ node.walk := by
  induction h with
  | @expansion t child n h ih =>
    have hn : n ∈ (Node.tag t (.plain [n]) none place).walk :=
      Node.mem_walk_of_mem_held (Node.mem_held.mpr (.inr mem_cons_self))
    exact Node.mem_walk_trans hn ih
  | bare | doctype | comment | remark | noLead | lead | caseOf | block | filter | rawTag | tag =>
    exact Node.self_mem_walk _

theorem Builds.rawNode?_eq {place : Place} {below : Below} {plan : Plan} {node : Node}
    (h : plan.Builds place below node) (ht : plan.takesText = true) :
    plan.rawNode? place (verbatim place.filename below.lines) = some (plan.holder node) := by
  have hempty : (verbatim place.filename below.lines).isEmpty = below.isEmpty := by
    rw [Bool.eq_iff_iff, List.isEmpty_iff, verbatim, map_eq_nil_iff, dropBlankEnd_eq_nil_iff]
    rfl
  -- A tag in front of an expansion keeps nothing itself, which is why the chain is followed down to
  -- its last plan.
  induction h with
  | comment he => simp [rawNode?, hempty, he, holder]
  | remark he => simp [rawNode?, hempty, he, holder]
  | filter | rawTag => rfl
  | expansion _ ih => exact ih ht
  | bare | doctype | noLead | lead | caseOf | block | tag => cases ht

end Plan

/-! ## Templates -/

/-- The node of every template line is in the tree. -/
theorem Arranged.mem_walkAll {f : Option String} {lines : List Line} {nodes : List Node}
    {node : Line → Node} (h : Arranged f lines nodes node) (hinc : Line.Increasing lines) {i : Line}
    (hi : i ∈ lines) (ht : isTemplate lines i = true) : node i ∈ Node.walkAll nodes := by
  -- By the number of the line, since the line that `i` belongs to stands further up. Its node is in
  -- the tree and holds the node of `i`.
  induction hn : i.number using Nat.strong_induction_on generalizing i with
  | _ n ih =>
    cases habove : above? lines i with
    | none =>
      have hmem : node i ∈ nodes := by
        rw [h.top]
        exact mem_map_of_mem (mem_childLines.mpr ⟨hi, ht, habove⟩)
      exact Node.mem_walkAll.mpr ⟨node i, hmem, Node.self_mem_walk _⟩
    | some k =>
      obtain ⟨hk, htk, hs⟩ := h.above k i hi ht habove
      have hlt := ((above?_eq_some_iff hinc).mp habove).1.2.2.1
      obtain ⟨plan, hplan, hchildren⟩ := h.below k hk htk hs
      obtain ⟨plan', hplan', hbuilds⟩ := builds_of_readLine (h.read k hk htk).1
      obtain rfl : plan = plan' := Except.ok.inj (hplan.symm.trans hplan')
      have hchild : node i ∈ (plan.holder (node k)).children := by
        rw [hchildren]
        exact mem_append_right _ (mem_map_of_mem (mem_childLines.mpr ⟨hi, ht, habove⟩))
      have hheld := Node.mem_walk_of_mem_held (Node.mem_held.mpr (.inr hchild))
      obtain ⟨m, hm, hkm⟩ := Node.mem_walkAll.mp (ih k.number (hn ▸ hlt) hk htk rfl)
      exact Node.mem_walkAll.mpr ⟨m, hm, Node.mem_walk_trans hkm
        (Node.mem_walk_trans (Plan.holder_mem_walk hbuilds) hheld)⟩

/-- The lines below a line that keeps them as text, in the tree and on their own. A template that is
parsed has a node for each such line, with one text for every line of its body. -/
theorem parse_rawBodies {source : String} {filename : Option String} {root : Node}
    (h : parse source filename = .ok root) :
    let lines := Line.ofSource source
    ∀ i ∈ lines, isTemplate lines i = true →
    ∀ plan, Plan.ofContent i.content.toList = .ok plan → plan.takesText = true →
      ∃ body base texts, RawBody lines i body ∧ LeastIndent body base ∧
        Forall₂ (TextOf base) body texts ∧
        (∃ node ∈ root.walk, plan.rawNode? (placeOf filename i)
          (zipWith (fun l text => .leaf (.text text) (placeOf filename l)) body texts) =
            some node) ∧
        Forall₂ (ReadAgain i base) body (Line.ofSource ("\n".intercalate texts)) := by
  intro lines i hi ht plan hplan htakes
  have hinc : Line.Increasing lines := increasing_ofSource source
  obtain ⟨nodes, hnodes, rfl⟩ := exists_of_map_eq_ok h
  obtain ⟨node, harranged⟩ := exists_arranged hnodes
  have hbody := consecutive_bodyOf hinc (Line.consecutive_ofSource source) hi
  refine ⟨dropBlankEnd (bodyOf lines i), commonIndent (dropBlankEnd (bodyOf lines i)),
    (dropBlankEnd (bodyOf lines i)).map
      (verbatimText (commonIndent (dropBlankEnd (bodyOf lines i)))),
    rawBody_dropBlankEnd hinc hi, leastIndent_commonIndent _, ?_, ?_, ?_⟩
  · rw [forall₂_map_right_iff, forall₂_same]
    intro l hl
    obtain ⟨n, s, -, rfl⟩ := hbody.exists_text ((dropBlankEnd_isPrefix _).mem hl)
    exact textOf_verbatimText (commonIndent_le hl)
  · obtain ⟨plan', hplan', hbuilds⟩ := builds_of_readLine (harranged.read i hi ht).1
    obtain rfl : plan = plan' := Except.ok.inj (hplan.symm.trans hplan')
    refine ⟨plan.holder (node i), ?_, ?_⟩
    · obtain ⟨top, htop, hmem⟩ := Node.mem_walkAll.mp (harranged.mem_walkAll hinc hi ht)
      have hroot : top ∈ (Node.block (.plain nodes) ⟨1, filename⟩).walk :=
        Node.mem_walk_of_mem_held (Node.mem_held.mpr (.inr htop))
      exact Node.mem_walk_trans hroot
        (Node.mem_walk_trans hmem (Plan.holder_mem_walk hbuilds))
    · rw [zipWith_map_right, zipWith_self]
      exact hbuilds.rawNode?_eq htakes
  · have hagain := readAgain_verbatim (f := filename) hbody
    have htext : Compile.linesOf (verbatim filename (bodyOf lines i)) =
        "\n".intercalate ((dropBlankEnd (bodyOf lines i)).map
          (verbatimText (commonIndent (dropBlankEnd (bodyOf lines i))))) := by
      simp [Compile.linesOf, verbatim, Node.text?, Function.comp_def]
    rwa [htext] at hagain

/-- A filter in an expansion, with a blank line below it and lines of three widths, one of them
starting with a tab. -/
theorem parse_rawBodies_expansion :
    let source := "ul\n  li: :raw\n\n     a\n   \tb\n      c\n\n  | d"
    let lines := Line.ofSource source
    let i : Line := ⟨2, 2, "li: :raw", "  li: :raw"⟩
    let plan : Plan := .expansion ⟨"li", [], [], false⟩ (.filter "raw" [])
    ∃ root, parse source none = .ok root ∧ i ∈ lines ∧ isTemplate lines i = true ∧
      Plan.ofContent i.content.toList = .ok plan ∧ plan.takesText = true ∧
      ∃ body base texts, RawBody lines i body ∧ LeastIndent body base ∧
        Forall₂ (TextOf base) body texts ∧
        (∃ node ∈ root.walk, plan.rawNode? ⟨2, none⟩
          (zipWith (fun l text => .leaf (.text text) (placeOf none l)) body texts) = some node) ∧
        Forall₂ (ReadAgain i base) body (Line.ofSource ("\n".intercalate texts)) := by
  intro source lines i plan
  have hok : (parse source none).isOk = true := by decide +kernel
  have hi : i ∈ lines := by decide +kernel
  have ht : isTemplate lines i = true := by decide +kernel
  have hplan : Plan.ofContent i.content.toList = .ok plan := by decide +kernel
  cases h : parse source none with
  | error e => rw [h] at hok; cases hok
  | ok root => exact ⟨root, rfl, hi, ht, hplan, rfl, parse_rawBodies h i hi ht plan hplan rfl⟩

end Template

end Offside
