import Offside.Proofs.Attribute.Scan
import Offside.Proofs.Tag.Written

/-!
# Tag heads as they stand on their lines

A tag head is written as a name, parts in any order and number, an optional mark and a tail
(`WrittenHead`). Every part is cut off by a reader of its own, and the readers see different things
at the same characters: a dot can start a class or end the line, a colon can belong to the name.
What makes them agree is that no part and no ending starts with something that can go on with a name
(`TagHead.nameRest_parts_ending`). So the parts are read one by one (`TagHead.readParts_parts`), and
a head is read as it was written or refused for the first name that is given again
(`TagHead.WrittenHead.read_text_or_duplicate`).
-/

set_option autoImplicit false

namespace Offside

open List Text

/-! ## Tails -/

namespace TagTail

/-- The tail as it stands on the line. -/
def written : TagTail → List Char
  | .none => []
  | .textBlock => ['.']
  | .code expr true => '=' :: ' ' :: expr.toList
  | .code expr false => '!' :: '=' :: ' ' :: expr.toList
  | .expansion child => ':' :: ' ' :: child.toList
  | .text words => ' ' :: words.toList

/-- There is no white space around the code or the child. -/
def IsTrimmed : TagTail → Prop
  | .code expr _ => trim expr.toList = expr.toList
  | .expansion child => trim child.toList = child.toList
  | _ => True

end TagTail

namespace TagHead

/-- A tail is read back. -/
theorem readTail_written (name : String) {tail : TagTail} (h : tail.IsTrimmed) :
    readTail name tail.written = .ok tail := by
  cases tail with
  | none => rfl
  | textBlock => rfl
  | code expr escape =>
    have hexpr := trimmed_space h
    cases escape with
    | true => rw [TagTail.written, readTail, hexpr]
    | false => rw [TagTail.written, readTail, hexpr]
  | expansion child =>
    have hchild := trimmed_space h
    rw [TagTail.written, readTail, hchild]
    rfl
  | text words => rw [TagTail.written, readTail, String.ofList_toList]

/-! ## Parts -/

/-- A part of a head as it stands on the line: a shorthand, an attribute list or a spread. -/
inductive WrittenPart where
  | shorthand (sign : Char) (value : String) (hsign : sign = '.' ∨ sign = '#') (hne : value ≠ "")
      (hchars : ∀ c ∈ value.toList, isNameChar c = true)
  | list (text : String) (attrs : List Attr)
      (hscan : Attr.scanList text.toList = .ok (attrs, bytes text.toList))
  | spread (expr : String) (htrim : trim expr.toList = expr.toList)
      (hclose : Scan.start.inside (expr.toList ++ [')']) = some (expr.toList, []))

namespace WrittenPart

def text : WrittenPart → List Char
  | .shorthand sign value _ _ _ => sign :: value.toList
  | .list text _ _ => text.toList
  | .spread expr _ _ => "&attributes".toList ++ '(' :: (expr.toList ++ [')'])

/-- The attributes that the part gives: a shorthand is a class or the id, with a literal that is not
escaped. -/
def attrs : WrittenPart → List Attr
  | .shorthand sign value _ _ _ =>
    [⟨if sign = '.' then "class" else "id", .expr (Json.quote value), false⟩]
  | .list _ attrs _ => attrs
  | .spread _ _ _ => []

def spreads : WrittenPart → List String
  | .spread expr _ _ => [expr]
  | _ => []

def IsShorthand : WrittenPart → Prop
  | .shorthand _ _ _ _ _ => True
  | _ => False

/-- No part starts with something that can go on with a name. -/
theorem exists_text (p : WrittenPart) :
    ∃ c more, p.text = c :: more ∧ isNameChar c = false ∧ c ≠ ':' := by
  cases p with
  | shorthand sign value hsign _ _ =>
    refine ⟨sign, value.toList, rfl, ?_⟩
    rcases hsign with rfl | rfl <;> decide
  | list text attrs hscan =>
    obtain ⟨inner, c, rest, -, htext, -⟩ := Attr.scanList_eq_ok_iff.mp hscan
    exact ⟨'(', _, htext, by decide⟩
  | spread expr _ _ => exact ⟨'&', _, rfl, by decide⟩

/-- What the reader makes of a part. -/
def part : WrittenPart → Part
  | .spread expr _ _ => .spread expr
  | p => .attrs p.attrs

theorem readPart_spread {s spread : List Char} (h : after? "&attributes" s = some spread) :
    readPart s =
      (readSpread spread).map fun read => some (.spread read.1, read.2) := by
  have hword : "&attributes".toList = '&' :: "attributes".toList := by decide
  have hs := eq_append_of_after? h
  rw [hword, cons_append] at hs
  subst hs
  rw [readPart, if_neg (by simp), if_neg (by simp), h]
  simp only
  cases readSpread spread with
  | error fault => rfl
  | ok read => rfl

/-- A part is read back, up to something that does not go on with a name. -/
theorem readPart_text (p : WrittenPart) {rest : List Char}
    (hrest : rest.head?.any isNameChar = false) :
    readPart (p.text ++ rest) = .ok (some (p.part, rest)) := by
  cases p with
  | shorthand sign value hsign hne hchars =>
    obtain ⟨htake, hdrop⟩ := span_run hchars hrest
    -- Behind the sign of a shorthand there is at least one name character. A dot at the end of a
    -- line has none, and is no shorthand.
    have hstarts : ((sign == '.' || sign == '#') &&
        (value.toList ++ rest).head?.any isNameChar) = true := by
      have hvalue : value.toList ≠ [] := by simpa using hne
      obtain ⟨c, more, hmore⟩ := exists_cons_of_ne_nil hvalue
      have hc : isNameChar c = true := hchars c (hmore ▸ mem_cons_self)
      rw [hmore, cons_append, head?_cons]
      rcases hsign with rfl | rfl <;> simpa using hc
    show readPart (sign :: (value.toList ++ rest)) = _
    rw [readPart, if_pos hstarts, htake, hdrop]
    simp [part, attrs, TagHead.shorthand]
  | list text attrs hscan =>
    obtain ⟨inner, c, more, -, htext, -⟩ := Attr.scanList_eq_ok_iff.mp hscan
    have hread := Attr.readList_append hscan rest
    show readPart (text.toList ++ rest) = _
    rw [htext, cons_append] at hread ⊢
    rw [readPart, if_neg (by simp), if_pos (by simp), hread]
    rfl
  | spread expr htrim hclose =>
    obtain ⟨-, -, -, hinner⟩ := Scan.Closed.inside_iff.mp hclose
    -- The bracket that closes the spread is found without looking at what follows it.
    have hcut : Scan.start.inside (expr.toList ++ ')' :: rest) = some (expr.toList, rest) :=
      Scan.Closed.inside_iff.mpr ⟨')', rfl, rfl, hinner⟩
    have hread : readSpread ('(' :: (expr.toList ++ ')' :: rest)) = .ok (expr, rest) := by
      rw [readSpread, hcut]
      simp only [trimmed, htrim, String.ofList_toList]
    show readPart ("&attributes".toList ++ '(' :: (expr.toList ++ [')']) ++ rest) = _
    rw [append_assoc, cons_append, append_assoc, singleton_append,
      readPart_spread (after?_append _ _), hread]
    rfl

end WrittenPart

theorem readParts_spread {attrs : List Attr} {spreads : List String} {expr : String}
    {s after : List Char} (h : readPart s = .ok (some (.spread expr, after))) :
    readParts attrs spreads s = readParts attrs (spreads ++ [expr]) after := by
  conv_lhs => rw [readParts]
  split <;> simp_all

/-- One part gives its attributes and its spreads, and the others follow. -/
theorem readParts_part {p : WrittenPart} {attrs : List Attr} {spreads : List String}
    {s after : List Char} (h : readPart s = .ok (some (p.part, after))) :
    readParts attrs spreads s = (p.attrs.foldlM addAttr attrs).bind fun attrs =>
      readParts attrs (spreads ++ p.spreads) after := by
  cases p with
  | shorthand sign value hsign hne hchars =>
    rw [readParts_attrs h, show WrittenPart.spreads _ = [] from rfl, append_nil]
  | list text new hscan =>
    rw [readParts_attrs h, show WrittenPart.spreads _ = [] from rfl, append_nil]
  | spread expr htrim hclose =>
    rw [readParts_spread h]
    rfl

/-! ## Names end where parts start -/

theorem nameRest_of_head {c : Char} {more : List Char} (hc : isNameChar c = false)
    (hcolon : c = ':' → more.head?.any isNameChar = false) :
    nameRest (c :: more) = ([], c :: more) := by
  have hstop : ¬ (isNameChar c || (c == ':' && more.head?.any isNameChar)) = true := by
    rw [hc, Bool.false_or, Bool.and_eq_true, beq_iff_eq]
    rintro ⟨rfl, hmore⟩
    rw [hcolon rfl] at hmore
    cases hmore
  rw [nameRest, if_neg hstop]

theorem head?_of_nameRest {s : List Char} (h : nameRest s = ([], s)) :
    s.head?.any isNameChar = false := by
  cases s with
  | nil => rfl
  | cons c rest =>
    by_contra hc
    have hname : isNameChar c = true := by simpa using hc
    rw [nameRest, hname, Bool.true_or, if_pos rfl] at h
    cases h

theorem nameRest_parts_ending (parts : List WrittenPart) {ending : List Char}
    (hending : nameRest ending = ([], ending)) :
    nameRest (parts.flatMap WrittenPart.text ++ ending) =
      ([], parts.flatMap WrittenPart.text ++ ending) := by
  cases parts with
  | nil => exact hending
  | cons p parts =>
    obtain ⟨c, more, htext, hc, hcolon⟩ := p.exists_text
    rw [flatMap_cons, htext, cons_append, cons_append]
    exact nameRest_of_head hc fun heq => absurd heq hcolon

/-- The parts are read one by one, up to an ending that is no part. -/
theorem readParts_parts (parts : List WrittenPart) (attrs : List Attr) (spreads : List String)
    {ending : List Char} (hname : nameRest ending = ([], ending))
    (hpart : readPart ending = .ok none) :
    readParts attrs spreads (parts.flatMap WrittenPart.text ++ ending) =
      ((parts.flatMap WrittenPart.attrs).foldlM addAttr attrs).bind fun attrs =>
        .ok (attrs, spreads ++ parts.flatMap WrittenPart.spreads, ending) := by
  induction parts generalizing attrs spreads with
  | nil =>
    rw [flatMap_nil, nil_append, readParts_none hpart]
    exact congrArg (fun spreads => Except.ok (attrs, spreads, ending)) (append_nil spreads).symm
  | cons p parts ih =>
    -- Each part ends where the next one starts, since no part goes on with a name.
    have hrest := head?_of_nameRest (nameRest_parts_ending parts hname)
    rw [flatMap_cons, append_assoc, readParts_part (p.readPart_text hrest), flatMap_cons,
      foldlM_append, flatMap_cons, ← append_assoc]
    cases p.attrs.foldlM addAttr attrs with
    | error fault => rfl
    | ok attrs => exact ih attrs (spreads ++ p.spreads)

/-! ## Names that are given again -/

/-- `name` is the first name that repeats one before it. -/
def FirstRepeat (attrs : List Attr) (name : String) : Prop :=
  ∃ before a after, attrs = before ++ a :: after ∧ Distinct before ∧ Repeats before a ∧
    a.name = name

theorem distinct_nil : Distinct [] :=
  nodup_nil

/-- Attributes are added up to the first whose name is given again. -/
theorem foldlM_addAttr_of_not_distinct {attrs new : List Attr} (hattrs : Distinct attrs)
    (h : ¬ Distinct (attrs ++ new)) :
    ∃ name, FirstRepeat (attrs ++ new) name ∧
      new.foldlM addAttr attrs = .error (.duplicate name) := by
  induction new generalizing attrs with
  | nil =>
    rw [append_nil] at h
    exact absurd hattrs h
  | cons a new ih =>
    -- Either `a` repeats a name, and is the first to do so, or the repeated name is further on.
    by_cases hrepeats : Repeats attrs a
    · refine ⟨a.name, ⟨attrs, a, new, rfl, hattrs, hrepeats, rfl⟩, ?_⟩
      rw [foldlM_cons, addAttr_of_repeats hrepeats]
      rfl
    · rw [← singleton_append, ← append_assoc] at h ⊢
      obtain ⟨name, hfirst, hfold⟩ := ih (distinct_concat.mpr ⟨hattrs, hrepeats⟩) h
      refine ⟨name, hfirst, ?_⟩
      rw [singleton_append, foldlM_cons, addAttr_of_not_repeats hrepeats]
      exact hfold

/-! ## Heads -/

/-- A head as it stands on the line. Without a name, a shorthand comes first. -/
structure WrittenHead where
  name : Option String
  parts : List WrittenPart
  selfClosing : Bool
  tail : TagTail
  named : ∀ n, name = some n → IsTagName n.toList
  unnamed : name = none → ∃ p rest, parts = p :: rest ∧ p.IsShorthand
  trimmed : tail.IsTrimmed

namespace WrittenHead

variable (h : WrittenHead)

def attrs : List Attr := h.parts.flatMap WrittenPart.attrs

/-- The head that is written: without a name, it is the one of a `div`. -/
def head : TagHead where
  name := h.name.getD "div"
  attrs := h.attrs
  spreads := h.parts.flatMap WrittenPart.spreads
  selfClosing := h.selfClosing
  tail := h.tail

/-- What comes behind the parts. -/
def ending : List Char :=
  (if h.selfClosing then ['/'] else []) ++ h.tail.written

def text : List Char :=
  h.name.elim [] String.toList ++ (h.parts.flatMap WrittenPart.text ++ h.ending)

/-- An ending starts with a character of its own. The dot and the colon, which could start a
shorthand or go on with a name, have no name character behind them. -/
theorem ending_cases :
    h.ending = [] ∨ ∃ c more, h.ending = c :: more ∧ c ∈ ['/', '.', '=', '!', ':', ' '] ∧
      (c ∈ ['.', ':'] → more.head?.any isNameChar = false) := by
  unfold ending
  cases h.selfClosing with
  | true => exact .inr ⟨'/', _, rfl, by decide, fun hc => absurd hc (by decide)⟩
  | false =>
    cases h.tail with
    | none => exact .inl rfl
    | textBlock => exact .inr ⟨'.', _, rfl, by decide, fun _ => rfl⟩
    | code expr escape =>
      cases escape with
      | true => exact .inr ⟨'=', _, rfl, by decide, fun hc => absurd hc (by decide)⟩
      | false => exact .inr ⟨'!', _, rfl, by decide, fun hc => absurd hc (by decide)⟩
    | expansion child => exact .inr ⟨':', _, rfl, by decide, fun _ => rfl⟩
    | text words => exact .inr ⟨' ', _, rfl, by decide, fun hc => absurd hc (by decide)⟩

/-- An ending does not go on with a name. -/
theorem nameRest_ending : nameRest h.ending = ([], h.ending) := by
  rcases h.ending_cases with hnil | ⟨c, more, hcons, hc, hmore⟩
  · rw [hnil]
    rfl
  · rw [hcons]
    have hname : ∀ c ∈ ['/', '.', '=', '!', ':', ' '], isNameChar c = false :=
      fun c hc => Bool.not_eq_true' _ ▸ (all_eq_true (p := fun c => !isNameChar c)).mp rfl c hc
    exact nameRest_of_head (hname c hc) fun hcolon => hmore (by simp [hcolon])

/-- An ending is no part. -/
theorem readPart_ending : readPart h.ending = .ok none := by
  rcases h.ending_cases with hnil | ⟨c, more, hcons, hc, hmore⟩
  · rw [hnil]
    rfl
  · rw [hcons]
    -- The readers of the three kinds of parts are refused one after the other.
    have hshorthand : ¬ ((c == '.' || c == '#') && more.head?.any isNameChar) = true := by
      rw [Bool.and_eq_true, Bool.or_eq_true, beq_iff_eq, beq_iff_eq]
      rintro ⟨rfl | rfl, hname⟩
      · rw [hmore mem_cons_self] at hname
        cases hname
      · exact absurd hc (by decide)
    have hparen : ¬ (c == '(') = true := by
      rw [beq_iff_eq]
      rintro rfl
      exact absurd hc (by decide)
    have hspread : after? "&attributes" (c :: more) = none := by
      refine Option.eq_none_iff_forall_ne_some.mpr fun spread hafter => ?_
      obtain ⟨rfl, -⟩ := cons.inj (eq_append_of_after? hafter)
      exact absurd hc (by decide)
    rw [readPart, if_neg hshorthand, if_neg hparen, hspread]

theorem readMark_ending : readMark h.ending = (h.selfClosing, h.tail.written) := by
  unfold ending
  cases h.selfClosing with
  | true => rfl
  | false =>
    cases h.tail with
    | code expr escape => cases escape <;> rfl
    | _ => rfl

/-- The name is read up to the first part or the ending. -/
theorem readName_text :
    readName h.text = .ok (h.head.name, h.parts.flatMap WrittenPart.text ++ h.ending) := by
  unfold text head
  cases hname : h.name with
  | some name =>
    exact readName_written (h.named name hname) (nameRest_parts_ending h.parts h.nameRest_ending)
  | none =>
    obtain ⟨p, rest, hparts, hp⟩ := h.unnamed hname
    rw [hparts]
    cases p with
    | shorthand sign value hsign _ _ => rcases hsign with rfl | rfl <;> rfl
    | list text attrs hscan => exact hp.elim
    | spread expr htrim hclose => exact hp.elim

/-- Reading a written head comes down to adding its attributes one by one. -/
theorem read_text : read h.text = (h.attrs.foldlM addAttr []).map fun attrs =>
    { h.head with attrs } := by
  rw [read, h.readName_text]
  simp only [bind, Except.bind]
  rw [readParts_parts h.parts [] [] h.nameRest_ending h.readPart_ending]
  change (Except.bind _ _) = _
  unfold attrs
  cases (h.parts.flatMap WrittenPart.attrs).foldlM addAttr [] with
  | error fault => rfl
  | ok attrs =>
    simp only [Except.bind, h.readMark_ending, readTail_written _ h.trimmed, nil_append]
    rfl

/-- A written head is read back if no name is given again, and otherwise it is refused for the first
name that is. -/
theorem read_text_or_duplicate :
    (Distinct h.attrs → read h.text = .ok h.head) ∧
    (¬ Distinct h.attrs → ∃ name, FirstRepeat h.attrs name ∧
      read h.text = .error (.duplicate name)) := by
  constructor
  · intro hdistinct
    rw [h.read_text, foldlM_addAttr hdistinct]
    rfl
  · intro hrepeated
    obtain ⟨name, hfirst, hfold⟩ :
        ∃ name, FirstRepeat h.attrs name ∧ h.attrs.foldlM addAttr [] = .error (.duplicate name) :=
      foldlM_addAttr_of_not_distinct distinct_nil hrepeated
    refine ⟨name, hfirst, ?_⟩
    rw [h.read_text, hfold]
    rfl

/-- Both kinds of heads are written: one with every kind of part, and one that names its id
twice. -/
theorem read_text_or_duplicate_parts :
    (∃ h : WrittenHead, h.text = "svg:a.b(c=[1, 2] d)&attributes(e)#f/: li".toList ∧
      read h.text = .ok h.head) ∧
    (∃ h : WrittenHead, h.text = ".b#f(id=1) c".toList ∧
      ∃ name, FirstRepeat h.attrs name ∧ read h.text = .error (.duplicate name)) := by
  constructor
  · refine ⟨⟨some "svg:a",
      [.shorthand '.' "b" (.inl rfl) (by decide) (all_eq_true.mp rfl),
        .list "(c=[1, 2] d)" [⟨"c", .expr "[1, 2]", true⟩, ⟨"d", .flag true, true⟩] rfl,
        .spread "e" (by decide) (by decide),
        .shorthand '#' "f" (.inr rfl) (by decide) (all_eq_true.mp rfl)],
      true, .expansion "li", ?_, by simp, rfl⟩, rfl, ?_⟩
    · rintro _ ⟨⟩
      exact ⟨'s', ['v', 'g'], [['a']], rfl, rfl, all_eq_true.mp rfl,
        forall_mem_singleton.mpr ⟨cons_ne_nil _ _, all_eq_true.mp rfl⟩⟩
    · refine (read_text_or_duplicate _).1 ?_
      show (["c", "d", "id"] : List String).Nodup
      decide
  · refine ⟨⟨none,
      [.shorthand '.' "b" (.inl rfl) (by decide) (all_eq_true.mp rfl),
        .shorthand '#' "f" (.inr rfl) (by decide) (all_eq_true.mp rfl),
        .list "(id=1)" [⟨"id", .expr "1", true⟩] rfl],
      false, .text "c", by simp, fun _ => ⟨_, _, rfl, trivial⟩, trivial⟩, rfl, ?_⟩
    refine (read_text_or_duplicate _).2 ?_
    show ¬ (["id", "id"] : List String).Nodup
    decide

end WrittenHead

end TagHead

end Offside
