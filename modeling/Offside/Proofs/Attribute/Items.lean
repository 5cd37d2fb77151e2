import Offside.Proofs.Attribute.Scan
import Offside.Proofs.Tag.Tail

/-!
# The items of an attribute list

Two loops follow the same text with a scan of their own. The search for the closing bracket counts
the bracket in front of the text too and gives up when nothing is open (`Scan.findClosing`); the
splitter starts behind that bracket and never gives up (`Attr.Splitter`). Up to the closing bracket
they stand at the same place with respect to quotes, one bracket apart, so the splitter never comes
to close what is not open (`Attr.splitItems_follows`).

What the splitter returns are parts of the text in their order, and all that is not in one of them
is white space or a comma between items (`Attr.Parted`).
-/

set_option autoImplicit false

namespace Offside

open List

/-! ## The search for the closing bracket -/

namespace Scan

/-- One round of the search. It gives up at a closing bracket when none is open. -/
def seek (s : Scan) (c : Char) : Option Scan :=
  if s.isTop && isClosing c then none else some (s.next c)

/-- Search for the bracket that closes the first one of the text: what stands before it, and what
comes after. The state counts all brackets from the first one on. -/
def findClosing (s : Scan) : List Char → Option (List Char × List Char)
  | [] => none
  | c :: rest =>
    match s.seek c with
    | none => none
    | some s' =>
      if s.quoting == .outside && isClosing c && s'.depth == 0 then some ([], rest)
      else (findClosing s' rest).map fun cut => (c :: cut.1, cut.2)

theorem seek_deeper (s : Scan) (c : Char) : s.deeper.seek c = some (s.deeper.next c) := by
  rw [seek, isTop_deeper, Bool.false_and, if_neg Bool.false_ne_true]

/-- Behind the first bracket the search is the one for what stands inside. -/
theorem findClosing_deeper (s : Scan) (text : List Char) :
    s.deeper.findClosing text = s.inside text := by
  induction text generalizing s with
  | nil => rfl
  | cons c rest ih =>
    rw [findClosing, seek_deeper, inside]
    -- One bracket deeper, the search stops where `inside` does: at the bracket that leads back to
    -- depth 0.
    by_cases hstop : (s.isTop && isClosing c) = true
    · obtain ⟨htop, hc⟩ := Bool.and_eq_true_iff.mp hstop
      obtain rfl := isTop_iff.mp htop
      have hback : start.deeper.next c = start := next_of_closing rfl hc
      simp only [hback]
      rw [if_pos hstop, if_pos]
      simp [deeper, start, hc]
    · have hnext := next_deeper (Bool.not_eq_true _ ▸ hstop)
      have hopen : ¬ (s.deeper.quoting == .outside && isClosing c &&
          (s.next c).deeper.depth == 0) = true := by
        simp [deeper]
      simp only [hnext]
      rw [if_neg hstop, if_neg hopen, ih]

theorem findClosing_opened (rest : List Char) :
    start.findClosing ('(' :: rest) =
      (start.inside rest).map fun cut => ('(' :: cut.1, cut.2) := by
  rw [← findClosing_deeper]
  rfl

/-- The search goes on as long as nothing closes the first bracket. -/
theorem foldlM_seek {s : Scan} {text : List Char} (h : s.stays text = true) :
    text.foldlM seek s.deeper = some (s.after text).deeper := by
  induction text generalizing s with
  | nil => rfl
  | cons c rest ih =>
    rw [stays, Bool.and_eq_true, Bool.not_eq_true'] at h
    rw [foldlM_cons, seek_deeper, next_deeper h.1, after_cons, ← ih h.2]
    rfl

end Scan

namespace Attr

open Text

/-! ## The splitter -/

/-- The state of the loop that splits a text into its items: those that are done, what has been read
of the item under way, and the scan. -/
structure Splitter where
  items : List (List Char)
  current : List Char
  scan : Scan
deriving DecidableEq, Repr

namespace Splitter

/-- The state in which a text is begun. -/
def start : Splitter :=
  ⟨[], [], .start⟩

/-- The item under way is done. -/
def push (σ : Splitter) : Splitter :=
  { σ with items := σ.items ++ pushItem σ.current [], current := [] }

/-- One round of the loop: `c` is read, and `rest` comes after it. -/
def step (σ : Splitter) (c : Char) (rest : List Char) : Splitter :=
  if σ.scan.isTop && c == ',' then σ.push
  else if σ.scan.isTop && isSpace c then
    if startsNew (trim σ.current) (trimStart rest) then σ.push
    else if σ.current.isEmpty then σ
    else { σ with current := σ.current ++ [c] }
  else { σ with current := σ.current ++ [c], scan := σ.scan.next c }

/-- The state after `text` has been read, when `rest` is still to come. -/
def read (σ : Splitter) : List Char → List Char → Splitter
  | [], _ => σ
  | c :: text, rest => (σ.step c (text ++ rest)).read text rest

end Splitter

theorem pushItem_eq_append (current : List Char) (items : List (List Char)) :
    pushItem current items = pushItem current [] ++ items := by
  unfold pushItem
  split <;> rfl

/-- The loop returns the items. -/
theorem Splitter.items_read (σ : Splitter) (text : List Char) :
    (σ.read text []).push.items = σ.items ++ splitItems σ.scan σ.current text := by
  induction text generalizing σ with
  | nil => rfl
  | cons c rest ih =>
    rw [read, ih, append_nil, step, splitItems]
    split
    · rw [push, pushItem_eq_append σ.current (splitItems _ _ _), append_assoc]
    split
    · split
      · rw [push, pushItem_eq_append σ.current (splitItems _ _ _), append_assoc]
      split
      · rename_i hempty
        rw [List.isEmpty_iff.mp hempty]
      · rfl
    · rfl

/-! ## Where the splitter stands -/

/-- Neither a comma nor white space changes a scan outside quotes. -/
theorem next_of_separator {s : Scan} {c : Char} (hs : s.isTop = true)
    (hc : c = ',' ∨ isSpace c = true) : s.next c = s := by
  obtain rfl := Scan.isTop_iff.mp hs
  rcases hc with rfl | hc
  · rfl
  · -- White space is none of the characters that a scan looks at.
    have hne (x : Char) (hx : isSpace x = false) : c ≠ x := by
      rintro rfl
      rw [hc] at hx
      cases hx
    refine Scan.next_of_plain rfl ?_ ?_ ?_
    · simp [isQuoteMark, hne '\x22' rfl, hne '\x27' rfl, hne '\x60' rfl]
    · simp [isOpening, hne '(' rfl, hne '[' rfl, hne '\x7b' rfl]
    · simp [isClosing, hne ')' rfl, hne ']' rfl, hne '\x7d' rfl]

/-- Every round takes the scan one character further. -/
theorem Splitter.scan_step (σ : Splitter) (c : Char) (rest : List Char) :
    (σ.step c rest).scan = σ.scan.next c := by
  unfold step
  split
  · rename_i hcomma
    obtain ⟨htop, hc⟩ := Bool.and_eq_true_iff.mp hcomma
    exact (next_of_separator htop (.inl (beq_iff_eq.mp hc))).symm
  split
  · rename_i hspace
    obtain ⟨htop, hc⟩ := Bool.and_eq_true_iff.mp hspace
    rw [next_of_separator htop (.inr hc)]
    split
    · rfl
    · split <;> rfl
  · rfl

theorem Splitter.scan_read (σ : Splitter) (text rest : List Char) :
    (σ.read text rest).scan = σ.scan.after text := by
  induction text generalizing σ with
  | nil => rfl
  | cons c text ih => rw [read, ih, scan_step, Scan.after_cons]

/-! ## The items are parts of the text -/

/-- The items are parts of the text, one behind the other, and are not empty and trimmed. What is
not part of one of them is white space, or a comma outside quotes and brackets, `s` being the scan
at the start of the text. -/
inductive Parted : Scan → List Char → List (List Char) → Prop
  | nil (s : Scan) : Parted s [] []
  | space {s : Scan} {c : Char} {text : List Char} {items : List (List Char)}
      (hc : isSpace c = true) (htext : Parted (s.next c) text items) : Parted s (c :: text) items
  | comma {s : Scan} {text : List Char} {items : List (List Char)} (hs : s.isTop = true)
      (htext : Parted (s.next ',') text items) : Parted s (',' :: text) items
  | item {s : Scan} {x text : List Char} {items : List (List Char)} (hne : x ≠ [])
      (htrim : trim x = x) (htext : Parted (s.after x) text items) :
      Parted s (x ++ text) (x :: items)

variable {s : Scan} {items : List (List Char)}

theorem Parted.spaces {gap text : List Char} (hgap : ∀ c ∈ gap, isSpace c = true)
    (h : Parted (s.after gap) text items) : Parted s (gap ++ text) items := by
  induction gap generalizing s with
  | nil => exact h
  | cons c gap ih =>
    obtain ⟨hc, hgap⟩ := forall_mem_cons.mp hgap
    exact .space hc (ih hgap h)

/-- What is trimmed is white space. -/
theorem exists_trim (x : List Char) :
    ∃ front back, x = front ++ (trim x ++ back) ∧ (∀ c ∈ front, isSpace c = true) ∧
      ∀ c ∈ back, isSpace c = true := by
  refine ⟨x.takeWhile isSpace, (trimStart x).rtakeWhile isSpace, ?_,
    fun c hc => mem_takeWhile_imp hc, fun c hc => mem_rtakeWhile_imp hc⟩
  rw [trim, trimEnd_eq_rdropWhile, rdropWhile_append_rtakeWhile, trimStart,
    takeWhile_append_dropWhile]

/-- An item that is done is part of the text that was read for it. -/
theorem Parted.pushItem {current text : List Char} (h : Parted (s.after current) text items) :
    Parted s (current ++ text) (pushItem current items) := by
  obtain ⟨front, back, heq, hfront, hback⟩ := exists_trim current
  rw [heq, Scan.after_append, Scan.after_append] at h
  -- What is trimmed at both ends of the item is white space in front of it and behind it.
  have hrest := Parted.spaces hback h
  unfold Attr.pushItem
  split
  · rename_i hempty
    rw [List.isEmpty_iff.mp hempty] at hrest heq
    rw [heq, append_assoc]
    exact Parted.spaces hfront hrest
  · rename_i hne
    have hitem := Parted.item (by simpa using hne) (trim_trim current) hrest
    have hall := Parted.spaces hfront hitem
    rwa [← append_assoc, ← append_assoc, append_assoc front, ← heq] at hall

/-- The text that has been read for the item under way, followed by the rest, is parted by the items
that are still to come. -/
theorem parted_splitItems (s : Scan) (current text : List Char) :
    Parted s (current ++ text) (splitItems (s.after current) current text) := by
  -- The scan at the start of `current` is the invariant: the loop itself only has the scan at its
  -- end.
  induction text generalizing s current with
  | nil => exact Parted.pushItem (.nil _)
  | cons c rest ih =>
    unfold splitItems
    split
    · rename_i hcomma
      obtain ⟨htop, hc⟩ := Bool.and_eq_true_iff.mp hcomma
      obtain rfl := beq_iff_eq.mp hc
      refine Parted.pushItem (.comma htop ?_)
      rw [next_of_separator htop (.inl rfl)]
      exact ih _ []
    split
    · rename_i hspace
      obtain ⟨htop, hc⟩ := Bool.and_eq_true_iff.mp hspace
      have hnext := next_of_separator htop (.inr hc)
      have hrest := ih (s.after current) []
      split
      · refine Parted.pushItem (.space hc ?_)
        rw [hnext]
        exact hrest
      split
      · rename_i hempty
        obtain rfl := List.isEmpty_iff.mp hempty
        refine .space hc ?_
        rw [Scan.after_nil] at hnext hrest
        rw [hnext]
        exact hrest
      · have hkept := ih s (current ++ [c])
        rwa [Scan.after_append, Scan.after_cons, hnext, Scan.after_nil, append_assoc,
          singleton_append] at hkept
    · have hread := ih s (current ++ [c])
      rwa [Scan.after_append, Scan.after_cons, Scan.after_nil, append_assoc,
        singleton_append] at hread

/-! ## The two loops together -/

/-- Up to the bracket that the search finds, the splitter is where the search is: at each character
they agree on quotes and escapes, and the splitter counts one bracket less. So it never closes a
bracket when none is open, and it ends outside quotes and brackets. Its items part the text, and
nothing else is lost than white space and the commas between them. -/
theorem splitItems_follows {input front after : List Char} (hopen : input.head? = some '(')
    (hclose : Scan.start.findClosing input = some (front, after)) :
    ∃ inner, front = '(' :: inner ∧
      (∀ before c rest, inner = before ++ c :: rest →
        ∃ searching splitting : Scan,
          ('(' :: before).foldlM Scan.seek .start = some searching ∧
          searching.findClosing (input.drop (before.length + 1)) = some (c :: rest, after) ∧
          (Splitter.start.read before (c :: rest)).scan = splitting ∧
          splitting.quoting = searching.quoting ∧ splitting.depth + 1 = searching.depth ∧
          (splitting.quoting = .outside → isClosing c = true → 0 < splitting.depth)) ∧
      (Splitter.start.read inner []).scan = .start ∧
      (Splitter.start.read inner []).push.items = splitItems .start [] inner ∧
      Parted .start inner (splitItems .start [] inner) := by
  obtain ⟨text, rfl⟩ := head?_eq_some_iff.mp hopen
  rw [Scan.findClosing_opened, Option.map_eq_some_iff] at hclose
  obtain ⟨⟨inner, behind⟩, hcut, hfront⟩ := hclose
  cases hfront
  obtain ⟨d, hd, rfl, hinner⟩ := Scan.Closed.inside_iff.mp hcut
  refine ⟨inner, rfl, ?_, ?_, ?_, ?_⟩
  · rintro before c rest rfl
    have hstays := hinner.stays
    rw [Scan.stays_append, Bool.and_eq_true, Scan.stays, Bool.and_eq_true] at hstays
    obtain ⟨hbefore, hc, hrest⟩ := hstays
    -- From `c` on, the search finds the same bracket as from the start.
    have hfound : (Scan.start.after before).inside (c :: (rest ++ d :: behind)) =
        some (c :: rest, behind) := by
      refine Scan.inside_eq_some_iff.mpr ⟨d, hd, rfl, ?_, ?_⟩
      · rw [Scan.stays, hc, hrest]
        rfl
      · rw [← Scan.after_append, hinner.ends]
    refine ⟨(Scan.start.after before).deeper, Scan.start.after before, Scan.foldlM_seek hbefore, ?_,
      Splitter.scan_read .start before (c :: rest), rfl, rfl, ?_⟩
    · rw [Scan.findClosing_deeper, ← hfound]
      simp
    intro hquoting hclosing
    refine Nat.pos_of_ne_zero fun hdepth => ?_
    have htop : (Scan.start.after before).isTop = true := by
      simp [Scan.isTop, hquoting, hdepth]
    rw [htop, hclosing] at hc
    cases hc
  · rw [Splitter.scan_read]
    exact hinner.ends
  · exact Splitter.items_read .start inner
  · exact parted_splitItems .start [] inner

theorem splitItems_follows_quotes :
    Scan.start.findClosing "(a=\")\", b=[1, (2)] c)]".toList =
        some ("(a=\")\", b=[1, (2)] c".toList, "]".toList) ∧
      (Splitter.start.read "a=\")\", b=[1, (2)] c".toList []).scan = .start ∧
      Parted .start "a=\")\", b=[1, (2)] c".toList
        ["a=\")\"".toList, "b=[1, (2)]".toList, "c".toList] := by
  have hclose : Scan.start.findClosing "(a=\")\", b=[1, (2)] c)]".toList =
      some ("(a=\")\", b=[1, (2)] c".toList, "]".toList) := by decide +kernel
  obtain ⟨inner, hfront, -, hscan, -, hparted⟩ := splitItems_follows rfl hclose
  obtain rfl : "a=\")\", b=[1, (2)] c".toList = inner := (cons.inj hfront).2
  exact ⟨hclose, hscan, hparted⟩

end Attr

end Offside
