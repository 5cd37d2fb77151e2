import Offside.Proofs.Attribute.Nesting
import Offside.Proofs.Source.Line

/-!
# Balanced texts

A text is balanced if each of its brackets has a partner of its own kind, whatever else stands in
it; quotes do not count here. Brackets are followed through a text by the list of those that are
open. A balanced text leaves that list as it is, whatever is on it (`Balanced.follow`), so it can be
cut off at either end of another (`Balanced.append_iff_right`, `Balanced.append_iff_left`). Where
only one bracket is cut off, the rest is not balanced, and where the two at the ends are, it is
balanced if they are partners (`balanced_inner_iff`).
-/

set_option autoImplicit false

namespace Offside

open List

namespace Brackets

variable {opened after base : List Char} {a b text : List Char} {c : Char}

/-! ## Balanced texts -/

/-- The brackets that stay open when the closing bracket `c` closes the innermost one. -/
def close? (c : Char) : List Char → Option (List Char)
  | [] => none
  | o :: rest => if sameKind o c then some rest else none

/-- The brackets that are open behind one more character, the innermost first. -/
def next (opened : List Char) (c : Char) : Option (List Char) :=
  if isOpening c then some (c :: opened)
  else if isClosing c then close? c opened
  else some opened

/-- The brackets that are open behind a text. -/
def follow (opened text : List Char) : Option (List Char) :=
  text.foldlM next opened

/-- Every bracket of the text has its partner, of its own kind and in the right order. -/
def Balanced (text : List Char) : Prop :=
  follow [] text = some []

instance (text : List Char) : Decidable (Balanced text) :=
  inferInstanceAs (Decidable (_ = _))

/-- The character is no bracket. -/
def IsPlain (c : Char) : Prop :=
  isOpening c = false ∧ isClosing c = false

theorem isPlain_of_isSpace (h : Text.isSpace c = true) : IsPlain c := by
  have hne (d : Char) (hd : Text.isSpace d = false) : (c == d) = false :=
    beq_false_of_ne fun heq => by rw [heq, hd] at h; cases h
  constructor
  · rw [isOpening, hne '(' rfl, hne '[' rfl, hne '\x7b' rfl]
    rfl
  · rw [isClosing, hne ')' rfl, hne ']' rfl, hne '\x7d' rfl]
    rfl

theorem follow_append : follow opened (a ++ b) = (follow opened a).bind (follow · b) :=
  foldlM_append

theorem follow_singleton : follow opened [c] = next opened c := by
  simp [follow]

theorem follow_cons : follow opened (c :: text) = (next opened c).bind (follow · text) :=
  foldlM_cons

theorem next_of_isPlain (h : IsPlain c) : next opened c = some opened := by
  simp [next, h.1, h.2]

/-- A closing parenthesis closes an opening one. -/
theorem next_eq_some_iff : next opened ')' = some after ↔ opened = '(' :: after := by
  have hnext : next opened ')' = close? ')' opened := rfl
  rw [hnext]
  cases opened with
  | nil => simp [close?]
  | cons o rest =>
    have hkind : sameKind o ')' = true ↔ o = '(' := by simp [sameKind]
    simp [close?, hkind]

theorem follow_of_isPlain (h : ∀ c ∈ text, IsPlain c) : follow opened text = some opened := by
  induction text with
  | nil => rfl
  | cons c text ih =>
    obtain ⟨hc, htext⟩ := forall_mem_cons.mp h
    rw [follow_cons, next_of_isPlain hc, Option.bind_some, ih htext]

theorem close?_append (h : close? c opened = some after) :
    close? c (opened ++ base) = some (after ++ base) := by
  cases opened with
  | nil => cases h
  | cons o rest =>
    rw [close?] at h
    split at h
    · rename_i hkind
      cases h
      rw [cons_append, close?, if_pos hkind]
    · cases h

theorem next_append (h : next opened c = some after) :
    next (opened ++ base) c = some (after ++ base) := by
  unfold next at h ⊢
  split_ifs at h ⊢
  · cases h
    rfl
  · exact close?_append h
  · cases h
    rfl

/-- Brackets that are open further out do not matter to a text that does not close them. -/
theorem follow_append_base (h : follow opened text = some after) :
    follow (opened ++ base) text = some (after ++ base) := by
  induction text generalizing opened with
  | nil => rw [← Option.some.inj h]; rfl
  | cons c text ih =>
    rw [follow_cons] at h
    obtain ⟨opened', hnext, htext⟩ := Option.bind_eq_some_iff.mp h
    rw [follow_cons, next_append hnext, Option.bind_some, ih htext]

namespace Balanced

theorem follow (h : Balanced text) (opened : List Char) :
    Brackets.follow opened text = some opened :=
  follow_append_base h

theorem append_iff_right (ha : Balanced a) : Balanced (a ++ b) ↔ Balanced b := by
  rw [Balanced, follow_append, ha.follow, Option.bind_some, Balanced]

theorem append_iff_left (hb : Balanced b) : Balanced (a ++ b) ↔ Balanced a := by
  have hfollow : (Brackets.follow · b) = some := funext hb.follow
  rw [Balanced, follow_append, hfollow, Option.bind_fun_some, Balanced]

theorem of_isPlain (h : ∀ c ∈ text, IsPlain c) : Balanced text :=
  follow_of_isPlain h

theorem of_isSpace (h : ∀ c ∈ text, Text.isSpace c = true) : Balanced text :=
  .of_isPlain fun c hc => isPlain_of_isSpace (h c hc)

theorem trimStart_iff (text : List Char) : Balanced (Text.trimStart text) ↔ Balanced text := by
  have hspaces : Balanced (text.takeWhile Text.isSpace) :=
    .of_isSpace fun c hc => mem_takeWhile_imp hc
  nth_rewrite 2 [← takeWhile_append_dropWhile (p := Text.isSpace) (l := text)]
  rw [hspaces.append_iff_right, Text.trimStart]

theorem trimEnd_iff (text : List Char) : Balanced (Text.trimEnd text) ↔ Balanced text := by
  have hspaces : Balanced (text.rtakeWhile Text.isSpace) :=
    .of_isSpace fun c hc => mem_rtakeWhile_imp hc
  nth_rewrite 2 [← rdropWhile_append_rtakeWhile (p := Text.isSpace) (l := text)]
  rw [hspaces.append_iff_left, Text.trimEnd_eq_rdropWhile]

end Balanced

/-! ## Partners -/

/-- The text starts and ends with a parenthesis, and nothing short of the whole text is balanced:
the two are partners. -/
def Wrapped (text : List Char) : Prop :=
  text.head? = some '(' ∧ text.getLast? = some ')' ∧
    ∀ a b, text = a ++ b → Balanced a → a = [] ∨ b = []

/-- A text that can be followed with one more bracket open leaves that bracket alone, unless it
closes it on the way. -/
theorem follow_concat_cases {o : Char} (h : follow (opened ++ [o]) text = some after) :
    (∃ kept, follow opened text = some kept ∧ after = kept ++ [o]) ∨
      ∃ a b, text = a ++ b ∧ follow (opened ++ [o]) a = some [] := by
  -- The first character that the inner brackets refuse, while all of them together accept it, is
  -- the one that closes the outer bracket.
  induction text generalizing opened with
  | nil => exact .inl ⟨opened, rfl, (Option.some.inj h).symm⟩
  | cons c text ih =>
    have hcons := h
    rw [follow_cons] at h
    obtain ⟨opened', hnext, htext⟩ := Option.bind_eq_some_iff.mp h
    cases hinner : next opened c with
    | some kept =>
      obtain rfl : opened' = kept ++ [o] := by
        rw [next_append hinner] at hnext
        exact (Option.some.inj hnext).symm
      rcases ih htext with ⟨last, hlast, rfl⟩ | ⟨a, b, rfl, ha⟩
      · exact .inl ⟨last, by rw [follow_cons, hinner, Option.bind_some, hlast], rfl⟩
      · exact .inr ⟨c :: a, b, rfl, by rw [follow_cons, hnext, Option.bind_some, ha]⟩
    | none =>
      -- Only a closing bracket is refused, and it is accepted here: it closes the outer bracket.
      obtain rfl : opened' = [] := by
        unfold next at hinner hnext
        split_ifs at hinner hnext
        cases opened with
        | nil =>
          rw [nil_append, close?] at hnext
          split at hnext
          · exact (Option.some.inj hnext).symm
          · cases hnext
        | cons o' rest =>
          rw [close?] at hinner
          rw [cons_append, close?] at hnext
          split at hinner
          · cases hinner
          · rename_i hkind
            rw [if_neg hkind] at hnext
            cases hnext
      exact .inr ⟨[c], text, rfl, by rw [follow_singleton, hnext]⟩

/-- The parentheses at the two ends of a balanced text are partners if there is a balanced text
between them. -/
theorem balanced_inner_iff {inner : List Char} (h : Balanced ('(' :: (inner ++ [')']))) :
    Balanced inner ↔ Wrapped ('(' :: (inner ++ [')'])) := by
  have hopened (text : List Char) : follow [] ('(' :: text) = follow ['('] text := follow_cons
  have hinner : follow ['('] inner = some ['('] := by
    rw [Balanced, hopened, follow_append] at h
    obtain ⟨last, hlast, hnext⟩ := Option.bind_eq_some_iff.mp h
    rw [follow_singleton] at hnext
    rw [hlast, next_eq_some_iff.mp hnext]
  constructor
  · intro hbalanced
    refine ⟨rfl, getLast?_concat (l := '(' :: inner), fun a b heq ha => ?_⟩
    cases a with
    | nil => exact .inl rfl
    | cons c a =>
      obtain ⟨rfl, htail⟩ := cons.inj heq
      rcases eq_nil_or_concat' b with rfl | ⟨b, d, rfl⟩
      · exact .inr rfl
      · -- Behind `a`, the parenthesis in front is still open.
        obtain ⟨rfl, -⟩ := append_inj' (htail.trans (append_assoc a b [d]).symm) rfl
        rw [Balanced, follow_append] at hbalanced
        obtain ⟨kept, hkept, -⟩ := Option.bind_eq_some_iff.mp hbalanced
        have hbehind : follow ['('] a = some (kept ++ ['(']) := follow_append_base hkept
        rw [Balanced, hopened, hbehind] at ha
        simp at ha
  · rintro ⟨-, -, hwhole⟩
    have hinner : follow ([] ++ ['(']) inner = some ['('] := hinner
    rcases follow_concat_cases hinner with ⟨kept, hkept, heq⟩ | ⟨a, b, rfl, ha⟩
    · obtain rfl : kept = [] := by simpa using heq
      exact hkept
    · rcases hwhole ('(' :: a) (b ++ [')']) (by simp) ((hopened a).trans ha) with hnil | hnil
      · cases hnil
      · simp at hnil

/-- A balanced text that loses the parenthesis in front only is not balanced. -/
theorem not_balanced_tail (h : Balanced ('(' :: text)) : ¬Balanced text := by
  intro htext
  have hfollow : follow ['('] text = some [] := h
  rw [htext.follow] at hfollow
  cases hfollow

/-- Nor is one that loses the parenthesis at its end only. -/
theorem not_balanced_dropLast (h : Balanced (text ++ [')'])) : ¬Balanced text := by
  intro htext
  rw [htext.append_iff_right] at h
  cases h

end Brackets

end Offside
