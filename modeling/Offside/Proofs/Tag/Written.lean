import Offside.Proofs.IR.Static
import Offside.Tag.Head

/-!
# Tag lines that are written

A tag name and its attributes, each with a literal, written one after the other in parentheses, are
read as what they are (`TagHead.read_written`). The scanners do not know literals, only quotes and
brackets; what they go by is that an attribute starts with a letter and ends with a mark, and that
neither brackets, commas nor white space are in between, unless in quotes (`Scan.Runs`).
-/

set_option autoImplicit false

namespace Offside

open List

/-! ## Characters of names -/

namespace Text

theorem ne_of_isNameChar {c x : Char} (hc : isNameChar c = true) (hx : isNameChar x = false) :
    c ≠ x := by
  rintro rfl
  rw [hc] at hx
  cases hx

/-- No white space is part of a name. -/
theorem isSpace_of_isNameChar {c : Char} (hc : isNameChar c = true) : isSpace c = false := by
  by_contra hspace
  -- White space is a short list of codes, and none of them is in the table of word characters.
  have hcodes : c.toNat ∈ range' 9 5 ++ range' 0x2000 11 ++
      [0x20, 0x85, 0xa0, 0x1680, 0x2028, 0x2029, 0x202f, 0x205f, 0x3000] := by
    simp only [isSpace, Bool.not_eq_false, Bool.or_eq_true, Bool.and_eq_true, decide_eq_true_eq,
      beq_iff_eq] at hspace
    simp only [mem_append, mem_range'_1, mem_cons, not_mem_nil, or_false]
    omega
  have hnone : ∀ n ∈ range' 9 5 ++ range' 0x2000 11 ++
      [0x20, 0x85, 0xa0, 0x1680, 0x2028, 0x2029, 0x202f, 0x205f, 0x3000],
      isNameChar (Char.ofNat n) = false := by
    decide +kernel
  have hfalse := hnone _ hcodes
  rw [Char.ofNat_toNat, hc] at hfalse
  cases hfalse

theorem trim_eq_self {s : List Char} {c d : Char} (hhead : s.head? = some c)
    (hc : isSpace c = false) (hlast : s.getLast? = some d) (hd : isSpace d = false) :
    trim s = s := by
  have hstart : trimStart s = s := by
    cases s with
    | nil => rfl
    | cons x rest =>
      obtain rfl := Option.some.inj hhead
      exact dropWhile_cons_of_neg (by simp [hc])
  rw [trim, hstart]
  refine tidy_iff.mp fun x hx => ?_
  obtain rfl := Option.some.inj (hlast.symm.trans hx)
  exact hd

end Text

/-! ## Scans through one attribute -/

namespace Scan

variable {s s' s'' : Scan} {xs ys : List Char}

/-- The scan goes through the text from `s` to `s'`, and outside quotes and brackets it meets no
closing bracket, no comma and no white space. -/
inductive Runs : Scan → List Char → Scan → Prop
  | nil (s : Scan) : Runs s [] s
  | cons {s s' : Scan} {c : Char} {rest : List Char}
      (hc : s.isTop = true → isClosing c = false ∧ c ≠ ',' ∧ Text.isSpace c = false)
      (hrest : Runs (s.next c) rest s') : Runs s (c :: rest) s'

theorem Runs.append (h : Runs s xs s') (h' : Runs s' ys s'') : Runs s (xs ++ ys) s'' := by
  induction h with
  | nil s => exact h'
  | cons hc hrest ih => exact .cons hc (ih h')

/-- What such a scan goes through is part of what stands in brackets. -/
theorem Runs.inside (h : Runs s xs s') (ys : List Char) :
    s.inside (xs ++ ys) = (s'.inside ys).map fun (inner, after) => (xs ++ inner, after) := by
  induction h with
  | nil s => simp
  | @cons s s' c rest hc hrest ih =>
    have hstop : ¬ (s.isTop && isClosing c) = true := by
      intro hstop
      obtain ⟨htop, hclosing⟩ := Bool.and_eq_true_iff.mp hstop
      rw [(hc htop).1] at hclosing
      cases hclosing
    rw [cons_append, Scan.inside, if_neg hstop, ih, Option.map_map]
    rfl

/-- What such a scan goes through is part of the item under way. -/
theorem Runs.splitItems (h : Runs s xs s') (current ys : List Char) :
    Attr.splitItems s current (xs ++ ys) = Attr.splitItems s' (current ++ xs) ys := by
  induction h generalizing current with
  | nil s => rw [nil_append, append_nil]
  | @cons s s' c rest hc hrest ih =>
    have hcomma : ¬ (s.isTop && c == ',') = true := by
      intro hstop
      obtain ⟨htop, hcomma⟩ := Bool.and_eq_true_iff.mp hstop
      exact (hc htop).2.1 (by simpa using hcomma)
    have hspace : ¬ (s.isTop && Text.isSpace c) = true := by
      intro hstop
      obtain ⟨htop, hspace⟩ := Bool.and_eq_true_iff.mp hstop
      rw [(hc htop).2.2] at hspace
      cases hspace
    rw [cons_append, Attr.splitItems, if_neg hcomma, if_neg hspace, ih, append_assoc,
      singleton_append]

/-- A character that means nothing to a scan. -/
def isInert (c : Char) : Bool :=
  !isQuoteMark c && !isOpening c && !isClosing c && c != ',' && !Text.isSpace c

theorem runs_inert (h : ∀ c ∈ xs, isInert c = true) : Runs start xs start := by
  induction xs with
  | nil => exact .nil _
  | cons c rest ih =>
    obtain ⟨hc, hrest⟩ := forall_mem_cons.mp h
    simp only [isInert, Bool.and_eq_true, Bool.not_eq_true', bne_iff_ne] at hc
    obtain ⟨⟨⟨⟨hquote, hopening⟩, hclosing⟩, hcomma⟩, hspace⟩ := hc
    have hnext : start.next c = start := by
      simp [next, start, hopening, hclosing, Quoting.next, hquote]
    refine .cons (fun _ => ⟨hclosing, hcomma, hspace⟩) ?_
    rw [hnext]
    exact ih hrest

/-- Inside a literal. -/
def quoted : Scan := ⟨.inside Json.mark, 0⟩

theorem next_quoted {c : Char} (hmark : c ≠ Json.mark) (hback : c ≠ Json.backslash) :
    quoted.next c = quoted := by
  have hmark' : ¬ (c == Json.mark) = true := by simpa using hmark
  have hback' : ¬ (c == '\x5c') = true := by simpa [Json.backslash] using hback
  simp [next, quoted, Quoting.next, hmark', hback']

theorem runs_piece (p : Json.Piece) : Runs quoted p.chars quoted := by
  have hinside {s : Scan} {c : Char} (hs : s.isTop = false) :
      s.isTop = true → isClosing c = false ∧ c ≠ ',' ∧ Text.isSpace c = false := by
    intro htop
    rw [hs] at htop
    cases htop
  -- Behind a backslash any character is passed, a mark as well.
  have hescape (c : Char) {rest : List Char} (h : Runs quoted rest quoted) :
      Runs quoted (Json.backslash :: c :: rest) quoted :=
    .cons (hinside rfl) (.cons (hinside rfl) h)
  cases p with
  | plain c h =>
    obtain ⟨hmark, hback⟩ := Json.ne_of_isPlain h
    refine .cons (hinside rfl) ?_
    rw [next_quoted hmark hback]
    exact .nil _
  | letter c h => exact hescape c (.nil _)
  | number digits h hex =>
    refine hescape 'u' ?_
    -- That there are four digits does not matter, only that none of them ends the literal.
    clear h
    induction digits with
    | nil => exact .nil _
    | cons d rest ih =>
      rw [all_cons, Bool.and_eq_true] at hex
      have hmark : d ≠ Json.mark := by
        rintro rfl
        exact absurd hex.1 (by decide)
      have hback : d ≠ Json.backslash := by
        rintro rfl
        exact absurd hex.1 (by decide)
      refine .cons (hinside rfl) ?_
      rw [next_quoted hmark hback]
      exact ih hex.2

theorem runs_literal (pieces : List Json.Piece) : Runs start (Json.literal pieces) start := by
  have hbody : Runs quoted (pieces.flatMap Json.Piece.chars) quoted := by
    induction pieces with
    | nil => exact .nil _
    | cons p rest ih =>
      rw [flatMap_cons]
      exact (runs_piece p).append ih
  have hclose : Runs quoted [Json.mark] start := .cons (by decide) (.nil _)
  exact .cons (by decide) (hbody.append hclose)

end Scan

/-! ## Attribute lists -/

namespace Attr

/-- The text of an attribute with a literal for its value. -/
def written (key : String) (pieces : List Json.Piece) : List Char :=
  key.toList ++ '=' :: Json.literal pieces

variable {key : String}

theorem isInert_of_isNameChar {c : Char} (h : Text.isNameChar c = true) :
    Scan.isInert c = true := by
  have hne (x : Char) (hx : Text.isNameChar x = false) : c ≠ x := Text.ne_of_isNameChar h hx
  simp [Scan.isInert, isQuoteMark, isOpening, isClosing, Text.isSpace_of_isNameChar h,
    hne '\x22' rfl, hne '\x27' rfl, hne '\x60' rfl, hne '(' rfl, hne '[' rfl, hne '\x7b' rfl,
    hne ')' rfl, hne ']' rfl, hne '\x7d' rfl, hne ',' rfl]

theorem isNameChar_of_isPropName {s : List Char} (h : IsPropName s) :
    ∀ c ∈ s, Text.isNameChar c = true := by
  obtain ⟨c, rest, rfl, hc, hrest⟩ := h
  intro x hx
  rcases mem_cons.mp hx with rfl | hx
  · simp [Text.isNameChar, Text.isWord, Char.isAlphanum, hc]
  · rcases hrest x hx with hx | rfl | rfl
    · simp [Text.isNameChar, Text.isWord, hx]
    · rfl
    · rfl

theorem runs_written (hkey : IsPropName key.toList) (pieces : List Json.Piece) :
    Scan.Runs .start (written key pieces) .start := by
  have hname : Scan.Runs .start key.toList .start :=
    Scan.runs_inert fun c hc => isInert_of_isNameChar (isNameChar_of_isPropName hkey c hc)
  have hsign : Scan.Runs .start ['='] .start := Scan.runs_inert (all_eq_true.mp rfl)
  exact hname.append (hsign.append (Scan.runs_literal pieces))

theorem getLast?_literal (pieces : List Json.Piece) :
    (Json.literal pieces).getLast? = some Json.mark := by
  simp [Json.literal, getLast?_cons]

theorem isSpace_mark : Text.isSpace Json.mark = false := by
  decide

/-- A name that needs no quotes: nothing in it means anything to a scan or ends the name. -/
def IsBareName (name : List Char) : Prop :=
  name ≠ [] ∧ ∀ c ∈ name, Scan.isInert c = true ∧ c ≠ '=' ∧ c ≠ '!'

theorem isBareName_of_isPropName {s : List Char} (h : IsPropName s) : IsBareName s := by
  have hchars := isNameChar_of_isPropName h
  obtain ⟨c, rest, rfl, -⟩ := h
  refine ⟨cons_ne_nil c rest, fun x hx => ?_⟩
  have hx' := hchars x hx
  exact ⟨isInert_of_isNameChar hx', Text.ne_of_isNameChar hx' rfl, Text.ne_of_isNameChar hx' rfl⟩

/-- What stands between a name and its value. -/
def sign : Bool → List Char
  | true => ['=']
  | false => ['!', '=']

theorem splitBareName_append {name rest : List Char}
    (hname : ∀ c ∈ name, Scan.isInert c = true ∧ c ≠ '=' ∧ c ≠ '!')
    (hrest : splitBareName rest = ([], rest)) : splitBareName (name ++ rest) = (name, rest) := by
  induction name with
  | nil => exact hrest
  | cons c name ih =>
    obtain ⟨⟨hinert, hequals, hbang⟩, hname⟩ := forall_mem_cons.mp hname
    have hspace : Text.isSpace c = false := by
      simp only [Scan.isInert, Bool.and_eq_true, Bool.not_eq_true'] at hinert
      exact hinert.2
    rw [cons_append, splitBareName, if_neg, ih hname]
    simp [hspace, hequals, hbang]

theorem splitName_bare {name rest : List Char} (hname : IsBareName name)
    (hrest : splitBareName rest = ([], rest)) : splitName (name ++ rest) = .ok (name, rest) := by
  obtain ⟨hne, hchars⟩ := hname
  have hbare := splitBareName_append hchars hrest
  obtain ⟨c, name, rfl⟩ := exists_cons_of_ne_nil hne
  have hquote : isQuoteMark c = false := by
    have hinert := (hchars c mem_cons_self).1
    simp only [Scan.isInert, Bool.and_eq_true, Bool.not_eq_true'] at hinert
    exact hinert.1.1.1.1
  simp only [isQuoteMark, Bool.or_eq_false_iff] at hquote
  rw [cons_append, splitName, if_neg (by simp [hquote.1]), ← cons_append, hbare]

/-- The item of a name and a value is read back. -/
theorem readItem_value {name value : List Char} (hname : IsBareName name) (hne : value ≠ [])
    (htrim : Text.trim value = value) (escaped : Bool) :
    readItem (name ++ (sign escaped ++ value)) =
      .ok ⟨String.ofList name, .expr (String.ofList value), escaped⟩ := by
  have hsplit : splitName (name ++ (sign escaped ++ value)) =
      .ok (name, sign escaped ++ value) := by
    refine splitName_bare hname ?_
    cases escaped <;> simp [sign, splitBareName]
  have hvalue (key : String) : withValue key value escaped =
      .ok ⟨key, .expr (String.ofList value), escaped⟩ := by
    rw [withValue, Text.trimmed, htrim, if_neg]
    rwa [List.isEmpty_iff]
  rw [readItem, hsplit]
  cases escaped <;> exact hvalue _

/-- The item of an attribute is read back. -/
theorem readItem_written (hkey : IsPropName key.toList) (pieces : List Json.Piece) :
    readItem (written key pieces) =
      .ok ⟨key, .expr (String.ofList (Json.literal pieces)), true⟩ := by
  have htrim : Text.trim (Json.literal pieces) = Json.literal pieces :=
    Text.trim_eq_self rfl isSpace_mark (getLast?_literal pieces) isSpace_mark
  have hread := readItem_value (isBareName_of_isPropName hkey) (cons_ne_nil _ _) htrim true
  rwa [String.ofList_toList] at hread

theorem isOperator_of_isAlpha {c : Char} (h : c.isAlpha = true) : isOperator c = false := by
  by_contra hop
  have hmem : c ∈ "+-*/%&|^?:<>=!,.~([".toList := by
    rw [Bool.not_eq_false, isOperator] at hop
    exact contains_iff_mem.mp hop
  have hnone : ∀ x ∈ "+-*/%&|^?:<>=!,.~([".toList, (!x.isAlpha) = true := all_eq_true.mp rfl
  have hfalse := hnone c hmem
  rw [h] at hfalse
  cases hfalse

theorem head?_written (hkey : IsPropName key.toList) (pieces : List Json.Piece) :
    ∃ c, (written key pieces).head? = some c ∧ c.isAlpha = true ∧ Text.isSpace c = false := by
  have hchars := isNameChar_of_isPropName hkey
  obtain ⟨c, rest, hname, hc, -⟩ := hkey
  rw [hname] at hchars
  refine ⟨c, ?_, hc, Text.isSpace_of_isNameChar (hchars c mem_cons_self)⟩
  rw [written, hname, cons_append, head?_cons]

theorem getLast?_written (key : String) (pieces : List Json.Piece) :
    (written key pieces).getLast? = some Json.mark := by
  rw [written, getLast?_append, getLast?_cons, getLast?_literal]
  rfl

theorem trim_written (hkey : IsPropName key.toList) (pieces : List Json.Piece) :
    Text.trim (written key pieces) = written key pieces := by
  obtain ⟨c, hhead, -, hc⟩ := head?_written hkey pieces
  exact Text.trim_eq_self hhead hc (getLast?_written key pieces) isSpace_mark

theorem pushItem_written (hkey : IsPropName key.toList) (pieces : List Json.Piece)
    (items : List (List Char)) :
    pushItem (written key pieces) items = written key pieces :: items := by
  obtain ⟨c, hhead, -⟩ := head?_written hkey pieces
  have hne : (written key pieces).isEmpty = false := by
    rw [isEmpty_eq_false_iff]
    intro hnil
    rw [hnil] at hhead
    cases hhead
  rw [pushItem, trim_written hkey, hne, if_neg Bool.false_ne_true]

/-- A new attribute starts after white space behind a written one. -/
theorem startsNew_written {key' : String} (hkey : IsPropName key.toList)
    (hkey' : IsPropName key'.toList) (pieces pieces' : List Json.Piece) (rest : List Char) :
    startsNew (Text.trim (written key pieces)) (Text.trimStart (written key' pieces' ++ rest)) =
      true := by
  obtain ⟨c, hhead, halpha, hc⟩ := head?_written hkey' pieces'
  obtain ⟨more, hmore⟩ := head?_eq_some_iff.mp hhead
  have hstart : Text.trimStart (written key' pieces' ++ rest) = written key' pieces' ++ rest := by
    rw [hmore, cons_append]
    exact dropWhile_cons_of_neg (by simp [hc])
  have hmark : isOperator Json.mark = false := by decide
  rw [hstart, trim_written hkey, startsNew, getLast?_written, hmore, cons_append, head?_cons]
  simp [hmark, isOperator_of_isAlpha halpha]

/-- The text of attributes with literals for their values. -/
def listText (items : List (String × List Json.Piece)) : List Char :=
  [' '].intercalate (items.map fun i => written i.1 i.2)

theorem listText_cons_cons (i j : String × List Json.Piece)
    (rest : List (String × List Json.Piece)) :
    listText (i :: j :: rest) = written i.1 i.2 ++ ' ' :: listText (j :: rest) := by
  rw [listText, map_cons, map_cons, intercalate_cons_cons, append_assoc, singleton_append]
  rfl

theorem exists_listText_cons (i : String × List Json.Piece)
    (rest : List (String × List Json.Piece)) :
    ∃ more, listText (i :: rest) = written i.1 i.2 ++ more := by
  cases rest with
  | nil => exact ⟨[], by simp [listText]⟩
  | cons j rest => exact ⟨_, listText_cons_cons i j rest⟩

variable {items : List (String × List Json.Piece)}

/-- White space between written attributes parts them. -/
theorem splitItems_listText (hitems : ∀ i ∈ items, IsPropName i.1.toList) :
    splitItems .start [] (listText items) = items.map fun i => written i.1 i.2 := by
  induction items with
  | nil => rfl
  | cons i rest ih =>
    obtain ⟨hi, hrest⟩ := forall_mem_cons.mp hitems
    have hruns := runs_written hi i.2
    cases rest with
    | nil =>
      have hlast := hruns.splitItems [] []
      rw [append_nil, nil_append, splitItems, pushItem_written hi] at hlast
      simpa [listText] using hlast
    | cons j rest =>
      -- The splitter looks at what comes behind the white space, and that is a letter.
      obtain ⟨more, hmore⟩ := exists_listText_cons j rest
      have hnew := startsNew_written hi (hrest j mem_cons_self) i.2 j.2 more
      rw [listText_cons_cons, hruns.splitItems, nil_append, splitItems, if_neg (by decide),
        if_pos (by decide), hmore, if_pos hnew, ← hmore, ih hrest, pushItem_written hi]
      rfl

/-- The list ends at the parenthesis behind its attributes. -/
theorem inside_listText (hitems : ∀ i ∈ items, IsPropName i.1.toList) (after : List Char) :
    Scan.start.inside (listText items ++ ')' :: after) = some (listText items, after) := by
  have hend : Scan.start.inside (')' :: after) = some ([], after) := rfl
  induction items with
  | nil => exact hend
  | cons i rest ih =>
    obtain ⟨hi, hrest⟩ := forall_mem_cons.mp hitems
    have hruns := runs_written hi i.2
    cases rest with
    | nil =>
      have hlast := hruns.inside (')' :: after)
      rw [hend] at hlast
      simpa [listText] using hlast
    | cons j rest =>
      have hnext : Scan.start.inside (' ' :: (listText (j :: rest) ++ ')' :: after)) =
          some (' ' :: listText (j :: rest), after) := by
        rw [Scan.inside, if_neg (by decide), show Scan.start.next ' ' = .start from rfl, ih hrest]
        rfl
      rw [listText_cons_cons, append_assoc, cons_append, hruns.inside, hnext]
      rfl

/-- The attribute that is written. -/
def ofWritten (i : String × List Json.Piece) : Attr :=
  ⟨i.1, .expr (String.ofList (Json.literal i.2)), true⟩

/-- A written list is read back. -/
theorem readList_written (hitems : ∀ i ∈ items, IsPropName i.1.toList) (after : List Char) :
    readList ('(' :: (listText items ++ ')' :: after)) = .ok (items.map ofWritten, after) := by
  have hread : (items.map fun i => written i.1 i.2).mapM readItem = .ok (items.map ofWritten) := by
    induction items with
    | nil => rfl
    | cons i rest ih =>
      obtain ⟨hi, hrest⟩ := forall_mem_cons.mp hitems
      rw [map_cons, mapM_cons, readItem_written hi, ih hrest]
      rfl
  rw [readList, inside_listText hitems]
  simp only [splitItems_listText hitems, hread]
  rfl

end Attr

/-! ## Tag heads -/

namespace TagHead

open Text

theorem nameRest_append {name : List Char} (hname : ∀ c ∈ name, isNameChar c = true)
    (rest : List Char) :
    nameRest (name ++ rest) = (name ++ (nameRest rest).1, (nameRest rest).2) := by
  induction name with
  | nil => rfl
  | cons c name ih =>
    obtain ⟨hc, hname⟩ := forall_mem_cons.mp hname
    rw [cons_append, nameRest, if_pos (by simp [hc]), ih hname]
    rfl

/-- The parts of a name are read up to what cannot be part of a name. -/
theorem nameRest_parts {parts : List (List Char)}
    (hparts : ∀ part ∈ parts, part ≠ [] ∧ ∀ x ∈ part, isNameChar x = true) {rest : List Char}
    (hrest : nameRest rest = ([], rest)) :
    nameRest (parts.flatMap (':' :: ·) ++ rest) = (parts.flatMap (':' :: ·), rest) := by
  induction parts with
  | nil => exact hrest
  | cons part parts ih =>
    obtain ⟨⟨hne, hpart⟩, hparts⟩ := forall_mem_cons.mp hparts
    -- A colon belongs to the name only if a name character follows.
    have hhead : (part ++ (parts.flatMap (':' :: ·) ++ rest)).head?.any isNameChar = true := by
      obtain ⟨c, more, rfl⟩ := exists_cons_of_ne_nil hne
      exact hpart c mem_cons_self
    rw [flatMap_cons, cons_append, cons_append, append_assoc, nameRest, hhead, if_pos (by decide),
      nameRest_append hpart, ih hparts]

theorem readName_written {name : String} (hname : IsTagName name.toList) {rest : List Char}
    (hrest : nameRest rest = ([], rest)) : readName (name.toList ++ rest) = .ok (name, rest) := by
  obtain ⟨c, first, parts, heq, hc, hfirst, hparts⟩ := hname
  rw [heq, cons_append, append_assoc, readName, if_pos hc, nameRest_append hfirst,
    nameRest_parts hparts hrest]
  simp only
  rw [← heq, String.ofList_toList]

/-- No name is given twice, other than those that are collected. -/
def Distinct (attrs : List Attr) : Prop :=
  ((attrs.map Attr.name).filter fun name => !Attr.collects name).Nodup

instance (attrs : List Attr) : Decidable (Distinct attrs) :=
  inferInstanceAs (Decidable (Nodup _))

/-- The name of the attribute is one of those before it, and is not collected. -/
def Repeats (attrs : List Attr) (a : Attr) : Prop :=
  Attr.collects a.name = false ∧ a.name ∈ attrs.map Attr.name

theorem distinct_concat {attrs : List Attr} {a : Attr} :
    Distinct (attrs ++ [a]) ↔ Distinct attrs ∧ ¬ Repeats attrs a := by
  unfold Distinct Repeats
  rw [map_append, filter_append]
  -- A name that is collected counts neither as new nor as repeated.
  by_cases hcollects : Attr.collects a.name = true
  · simp [hcollects]
  · rw [Bool.not_eq_true] at hcollects
    have hlast : ([a].map Attr.name).filter (fun name => !Attr.collects name) = [a.name] := by
      simp [hcollects]
    rw [hlast, nodup_append]
    constructor
    · rintro ⟨hattrs, -, hne⟩
      refine ⟨hattrs, fun hrepeats => ?_⟩
      exact hne a.name (mem_filter.mpr ⟨hrepeats.2, by simp [hcollects]⟩) a.name mem_cons_self rfl
    · rintro ⟨hattrs, hnew⟩
      refine ⟨hattrs, by simp, fun x hx y hy hxy => hnew ⟨hcollects, ?_⟩⟩
      obtain rfl := mem_singleton.mp hy
      exact hxy ▸ (mem_filter.mp hx).1

theorem addAttr_of_repeats {attrs : List Attr} {a : Attr} (h : Repeats attrs a) :
    addAttr attrs a = .error (.duplicate a.name) := by
  obtain ⟨hcollects, hmem⟩ := h
  have hany : attrs.any (·.name == a.name) = true := by simpa using hmem
  rw [addAttr, hcollects, hany]
  rfl

theorem addAttr_of_not_repeats {attrs : List Attr} {a : Attr} (h : ¬ Repeats attrs a) :
    addAttr attrs a = .ok (attrs ++ [a]) := by
  have hany : ¬ (!Attr.collects a.name && attrs.any (·.name == a.name)) = true := by
    intro hany
    rw [Bool.and_eq_true, Bool.not_eq_true'] at hany
    exact h ⟨hany.1, by simpa using hany.2⟩
  rw [addAttr, if_neg hany]

theorem Distinct.of_append {attrs new : List Attr} (h : Distinct (attrs ++ new)) :
    Distinct attrs := by
  unfold Distinct at h ⊢
  rw [map_append, filter_append] at h
  exact (nodup_append.mp h).1

/-- Attributes of different names are added one after the other. -/
theorem foldlM_addAttr {attrs new : List Attr} (h : Distinct (attrs ++ new)) :
    new.foldlM addAttr attrs = .ok (attrs ++ new) := by
  induction new generalizing attrs with
  | nil => rw [append_nil]; rfl
  | cons a new ih =>
    rw [← singleton_append, ← append_assoc] at h
    have hadd := addAttr_of_not_repeats (distinct_concat.mp h.of_append).2
    rw [foldlM_cons, hadd]
    show new.foldlM addAttr (attrs ++ [a]) = _
    rw [ih h, append_assoc, singleton_append]

theorem readParts_none {attrs : List Attr} {spreads : List String} {s : List Char}
    (h : readPart s = .ok none) : readParts attrs spreads s = .ok (attrs, spreads, s) := by
  rw [readParts]
  split <;> simp_all

theorem readParts_attrs {attrs new : List Attr} {spreads : List String} {s after : List Char}
    (h : readPart s = .ok (some (.attrs new, after))) :
    readParts attrs spreads s =
      (new.foldlM addAttr attrs).bind fun attrs => readParts attrs spreads after := by
  -- `readParts` is on both sides, and only the left one is to be opened.
  conv_lhs => rw [readParts]
  split
  · rename_i hpart
    rw [h] at hpart
    cases hpart
  · rename_i hpart
    rw [h] at hpart
    cases hpart
  · rename_i hpart
    rw [h] at hpart
    cases hpart
    cases new.foldlM addAttr attrs with
    | error fault => rfl
    | ok attrs => rfl
  · rename_i hpart
    rw [h] at hpart
    cases hpart

/-- A written tag line is read as the tag with its attributes, and nothing follows. -/
theorem read_written {name : String} {items : List (String × List Json.Piece)}
    (hname : IsTagName name.toList) (hitems : ∀ i ∈ items, IsPropName i.1.toList)
    (hkeys : (items.map Prod.fst).Nodup) :
    read (name.toList ++ '(' :: (Attr.listText items ++ [')'])) =
      .ok ⟨⟨name, items.map Attr.ofWritten, [], false⟩, .none⟩ := by
  have hpart : readPart ('(' :: (Attr.listText items ++ [')'])) =
      .ok (some (.attrs (items.map Attr.ofWritten), [])) := by
    rw [readPart, if_neg (by simp), if_pos (by decide), Attr.readList_written hitems]
  have hnew : (items.map Attr.ofWritten).foldlM addAttr [] = .ok (items.map Attr.ofWritten) := by
    refine foldlM_addAttr (Pairwise.filter _ ?_)
    rw [nil_append, map_map]
    exact hkeys
  have hparts : readParts [] [] ('(' :: (Attr.listText items ++ [')'])) =
      .ok (items.map Attr.ofWritten, [], []) := by
    rw [readParts_attrs hpart, hnew, Except.bind, readParts_none rfl]
  simp only [read, readName_written hname (rfl : nameRest ('(' :: _) = ([], '(' :: _)), bind,
    Except.bind, hparts, readMark, readTail]

end TagHead

end Offside
