import Offside.Compile.Props
import Offside.Proofs.Source.Segments
import Offside.Proofs.Tag.Written
import Offside.Proofs.Template.Append

/-!
# Reading listed lines

The lines that the listing of a static tree comes to are read as what they stand for. A tag line
starts with a name and a parenthesis, so no keyword is found in it even if the name starts with one
(`LineKind.ofContent_written`); `yield` alone may be followed by a parenthesis. A text line starts
with a bar, whatever the text looks like.
-/

set_option autoImplicit false

namespace Offside

open List

/-! ## Kinds of lines -/

namespace LineKind

open Text

variable {name tail : List Char}

/-- A keyword at the start of a tag line is the start of its name. -/
theorem exists_of_after? {word : String} {rest : List Char} (hword : '(' ∉ word.toList)
    (h : after? word (name ++ '(' :: tail) = some rest) :
    ∃ z, name = word.toList ++ z ∧ rest = z ++ '(' :: tail := by
  rcases append_eq_append_iff.mp (eq_append_of_after? h) with ⟨z, hz, hrest⟩ | ⟨z, hz, hrest⟩
  · cases z with
    | nil => exact ⟨[], by simpa using hz.symm, by simpa using hrest.symm⟩
    | cons c z =>
      obtain ⟨rfl, -⟩ := cons.inj hrest
      exact absurd (by simp [hz]) hword
  · exact ⟨z, hz, hrest⟩

theorem after?_bind_none {α : Type} {word : String} {g : List Char → Option α}
    (hword : '(' ∉ word.toList)
    (hg : ∀ z, name = word.toList ++ z → g (z ++ '(' :: tail) = none) :
    (after? word (name ++ '(' :: tail)).bind g = none := by
  cases hafter : after? word (name ++ '(' :: tail) with
  | none => rfl
  | some rest =>
    obtain ⟨z, hz, rfl⟩ := exists_of_after? hword hafter
    exact hg z hz

/-- What follows such a keyword is no white space. -/
theorem startsWithSpace_rest {word z : List Char} (hname : ∀ c ∈ name, isSpace c = false)
    (hz : name = word ++ z) (tail : List Char) : startsWithSpace (z ++ '(' :: tail) = false := by
  cases z with
  | nil => rfl
  | cons c z => exact hname c (by simp [hz])

/-- A name in lower case and a parenthesis make a tag line. -/
theorem ofContent_written {c : Char} {more : List Char} (hc : c.isLower = true)
    (hname : ∀ x ∈ c :: more, isSpace x = false ∧ x ≠ '(') (hyield : c :: more ≠ "yield".toList) :
    ofContent (c :: more ++ '(' :: tail) = .tag := by
  have hne (x : Char) (hx : x.isLower = false) : c ≠ x := by
    rintro rfl
    rw [hc] at hx
    cases hx
  have hspace : ∀ x ∈ c :: more, isSpace x = false := fun x hx => (hname x hx).1
  have hargument {word : String} (hword : '(' ∉ word.toList) :
      (after? word (c :: more ++ '(' :: tail)).bind argument? = none :=
    after?_bind_none hword fun z hz => argument?_none (startsWithSpace_rest hspace hz tail)
  have hend {word : String} (hword : '(' ∉ word.toList) :
      (after? word (c :: more ++ '(' :: tail)).bind argumentOrEnd? = none :=
    after?_bind_none hword fun z hz =>
      argumentOrEnd?_none (startsWithSpace_rest hspace hz tail) (by simp)
  -- The rules that ask for a sign are refused by the lower case letter in front, and those for a
  -- keyword by what follows it: the rest of the name or the parenthesis, never white space.
  have hrules : ∀ rule ∈ rules, rule (c :: more ++ '(' :: tail) = none := by
    simp only [rules, forall_mem_cons, not_mem_nil, false_imp_iff, implies_true, and_true]
    refine ⟨?comment, ?text, ?literal, ?buffered, ?each, ?code, ?condition, ?caseOf, ?default,
      ?when, ?block, ?subBlock, ?yield, ?mixin, ?doctype, ?filter⟩
    case comment => simp [comment?, hne '/' rfl]
    case text => simp [text?, hne '|' rfl]
    case literal => simp [literal?, hne '<' rfl]
    case buffered => simp [bufferedCode?, hne '!' rfl, hne '=' rfl]
    case code => simp [code?, hne '-' rfl]
    case subBlock => simp [subBlock?, hne '@' rfl]
    case filter => simp [filter?, hne ':' rfl]
    case caseOf => rw [caseOf?, hargument (by simp)]; rfl
    case when => rw [when?, hargument (by simp)]; rfl
    case each =>
      delta each?
      dsimp only
      split
      · rename_i heq
        exact absurd (cons.inj heq).1 (hne '-' rfl)
      · simp only [findSome?_cons, findSome?_nil, hargument (show '(' ∉ "each".toList by simp),
          hargument (show '(' ∉ "for".toList by simp),
          hargument (show '(' ∉ "repeat".toList by simp), Option.map_none]
    case condition =>
      have helse : elseIf? (c :: more ++ '(' :: tail) = none := by
        unfold elseIf?
        split
        · rename_i rest hafter
          obtain ⟨z, hz, rfl⟩ := exists_of_after? (by simp) hafter
          rw [startsWithSpace_rest hspace hz, if_neg Bool.false_ne_true]
        · rfl
      rw [condition?, hend (by simp), hend (by simp), helse, hend (by simp)]
      rfl
    case default =>
      rw [whenDefault?, if_neg]
      intro heq
      have hparen : '(' ∈ c :: more ++ '(' :: tail := by simp
      rw [heq] at hparen
      simp at hparen
    case block =>
      refine after?_bind_none (by simp) fun z hz => ?_
      rw [if_neg (by simp [show isSpace '(' = false from rfl]), startsWithSpace_rest hspace hz,
        if_neg Bool.false_ne_true]
    case mixin =>
      have hplus : ∀ rest, c :: more ++ '(' :: tail ≠ '+' :: rest := by
        intro rest heq
        exact hne '+' rfl (cons.inj heq).1
      rw [mixin?]
      · refine after?_bind_none (by simp) fun z hz => ?_
        rw [startsWithSpace_rest hspace hz, if_neg Bool.false_ne_true]
      · exact hplus
    case doctype =>
      have hbangs : after? "!!!" (c :: more ++ '(' :: tail) = none := by
        simp [after?, afterChars?, (hne '!' rfl).symm]
      have hword := hend (show '(' ∉ "doctype".toList by simp)
      rw [doctype?, hbangs]
      cases hdoctype : after? "doctype" (c :: more ++ '(' :: tail) with
      | none => rfl
      | some rest =>
        rw [hdoctype] at hword
        exact congrArg (Option.map LineKind.doctype) hword
    case yield =>
      refine after?_bind_none (by simp) fun z hz => ?_
      rw [startsWithSpace_rest hspace hz, if_neg Bool.false_ne_true]
      cases z with
      | nil => exact absurd (by simpa using hz) hyield
      | cons d z =>
        -- Behind the word the name goes on, so there are no arguments.
        have hd := hname d (by simp [hz])
        have htrim : trimStart (d :: z ++ '(' :: tail) = d :: (z ++ '(' :: tail) :=
          dropWhile_cons_of_neg (by simp [hd.1])
        have hargs : parenthesised? (d :: z ++ '(' :: tail) = none := by
          rw [parenthesised?, htrim]
          simp [hd.2]
        rw [hargs]
        rfl
  rw [ofContent, findSome?_eq_none_iff.mpr hrules]
  rfl

/-- A line that starts with a bar is text, whatever follows. -/
theorem ofContent_piped (s : List Char) : ofContent ('|' :: ' ' :: s) = .text (String.ofList s) :=
  rfl

end LineKind

/-! ## Contents of lines -/

/-- The text can be the content of a line: it starts with no indentation, holds no line feed and
ends with no white space. -/
structure IsContent (s : List Char) : Prop where
  head : ∃ c, s.head? = some c ∧ Text.isIndent c = false
  line : '\n' ∉ s
  tidy : Text.Tidy s

/-- A content behind the indentation of a depth. -/
theorem Line.ofText_pad (number depth : Nat) {s : List Char} (h : IsContent s) :
    ofText number ((Json.pad depth).toList ++ s) =
      ⟨number, 2 * depth, String.ofList s, String.ofList ((Json.pad depth).toList ++ s)⟩ := by
  obtain ⟨⟨c, hhead, hc⟩, -, htidy⟩ := h
  obtain ⟨rest, rfl⟩ := head?_eq_some_iff.mp hhead
  have hpad : ∀ x ∈ (Json.pad depth).toList, Text.isIndent x = true := by
    intro x hx
    rw [Json.pad, String.toList_ofList] at hx
    rw [eq_of_mem_replicate hx]
    rfl
  have hlength : (Json.pad depth).toList.length = 2 * depth := by simp [Json.pad]
  have htrim : Text.trimEnd (c :: rest) = c :: rest := Text.tidy_iff.mp htidy
  have htake : ((Json.pad depth).toList ++ c :: rest).takeWhile Text.isIndent =
      (Json.pad depth).toList := by
    rw [takeWhile_append_of_pos hpad, takeWhile_cons_of_neg (by simp [hc]), append_nil]
  have hdrop : ((Json.pad depth).toList ++ c :: rest).dropWhile Text.isIndent = c :: rest := by
    rw [dropWhile_append_of_pos hpad, dropWhile_cons_of_neg (by simp [hc])]
  have hraw : Text.trimEnd ((Json.pad depth).toList ++ c :: rest) =
      (Json.pad depth).toList ++ c :: rest := by
    rw [Text.trimEnd_append _ (by rw [htrim]; exact cons_ne_nil _ _), htrim]
  rw [ofText, htake, hdrop, htrim, hraw, hlength]

theorem isContent_piped {t : String} (hne : t ≠ "") (hline : '\n' ∉ t.toList)
    (hend : Text.Tidy t.toList) : IsContent ("| " ++ t).toList := by
  have hpiped : ("| " ++ t).toList = '|' :: ' ' :: t.toList := by simp
  have hlast : ('|' :: ' ' :: t.toList).getLast? = t.toList.getLast? := by
    cases hchars : t.toList with
    | nil => exact absurd (String.toList_eq_nil_iff.mp hchars) hne
    | cons c rest => rfl
  rw [hpiped]
  refine ⟨⟨'|', rfl, by decide⟩, by simpa using hline, fun c hc => ?_⟩
  exact hend c (hlast ▸ hc)

/-! ## Static names and props -/

variable {o : Options} {name : String} {props : Props}

theorem IsTagName.chars {s : List Char} (h : IsTagName s) :
    ∀ c ∈ s, Text.isSpace c = false ∧ c ≠ '(' := by
  have hname {c : Char} (hc : Text.isNameChar c = true) : Text.isSpace c = false ∧ c ≠ '(' :=
    ⟨Text.isSpace_of_isNameChar hc, Text.ne_of_isNameChar hc rfl⟩
  obtain ⟨c, first, parts, rfl, hc, hfirst, hparts⟩ := h
  intro x hx
  simp only [mem_cons, mem_append, mem_flatMap] at hx
  rcases hx with rfl | hx | ⟨part, hpart, rfl | hx⟩
  · exact hname (by simp [Text.isNameChar, Text.isWord, Char.isAlphanum, hc])
  · exact hname (hfirst x hx)
  · exact ⟨rfl, by decide⟩
  · exact hname ((hparts part hpart).2 x hx)

/-- Static props are attributes with literals. -/
theorem exists_items (hprops : ∀ p ∈ props, IsStaticProp p) :
    ∃ items : List (String × List Json.Piece),
      props = items.map (fun i => Props.ofAttr (Attr.ofWritten i)) ∧
        (∀ i ∈ items, IsPropName i.1.toList) ∧ ∀ i ∈ items, Attr.collects i.1 = false := by
  induction props with
  | nil => exact ⟨[], rfl, by simp, by simp⟩
  | cons p rest ih =>
    obtain ⟨hp, hrest⟩ := forall_mem_cons.mp hprops
    obtain ⟨items, rfl, hnames, hplain⟩ := ih hrest
    obtain ⟨key, lit, rfl, ⟨pieces, hpieces⟩, hkey, hcollect⟩ := hp.exists_literal
    refine ⟨(key, pieces) :: items, ?_, forall_mem_cons.mpr ⟨hkey, hnames⟩,
      forall_mem_cons.mpr ⟨?_, hplain⟩⟩
    · rw [map_cons, Props.ofAttr, Attr.ofWritten, ← hpieces, String.ofList_toList]
    · simpa [Attr.collects, and_assoc] using hcollect

theorem toList_headSource (name : String) (items : List (String × List Json.Piece)) :
    (IR.headSource name (items.map fun i => Props.ofAttr (Attr.ofWritten i))).toList =
      name.toList ++ '(' :: (Attr.listText items ++ [')']) := by
  have hitem (i : String × List Json.Piece) :
      (IR.propSource (Props.ofAttr (Attr.ofWritten i))).toList = Attr.written i.1 i.2 := by
    simp [IR.propSource, Props.ofAttr, Attr.ofWritten, IR.propExpr?, AttrValue.text, Attr.written]
  have hprops : (" ".intercalate ((items.map fun i => Props.ofAttr (Attr.ofWritten i)).map
      IR.propSource)).toList = Attr.listText items := by
    rw [String.toList_intercalate, map_map, map_map, Attr.listText]
    congr 1
    exact map_congr_left fun i _ => hitem i
  simp only [IR.headSource, String.toList_append, hprops]
  simp

theorem newline_not_mem_listText {items : List (String × List Json.Piece)}
    (hnames : ∀ i ∈ items, IsPropName i.1.toList) : '\n' ∉ Attr.listText items := by
  have hitem (i : String × List Json.Piece) (hi : IsPropName i.1.toList) :
      '\n' ∉ Attr.written i.1 i.2 := by
    have hname : '\n' ∉ i.1.toList := fun hmem =>
      absurd (Attr.isNameChar_of_isPropName hi _ hmem) (by decide)
    simpa [Attr.written, hname] using Json.newline_not_mem_literal i.2
  induction items with
  | nil => exact not_mem_nil
  | cons i rest ih =>
    obtain ⟨hi, hrest⟩ := forall_mem_cons.mp hnames
    cases rest with
    | nil =>
      rw [Attr.listText, map_singleton, intercalate_singleton]
      exact hitem i hi
    | cons j rest =>
      rw [Attr.listText_cons_cons, mem_append, mem_cons, not_or, not_or]
      exact ⟨hitem i hi, by decide, ih hrest⟩

/-- The line of a static tag is a content. -/
theorem IsStaticName.isContent (h : IsStaticName o name) (hprops : ∀ p ∈ props, IsStaticProp p) :
    IsContent (IR.headSource name props).toList := by
  have hline : '\n' ∉ (IR.headSource name props).toList := by
    obtain ⟨items, rfl, hnames, -⟩ := exists_items hprops
    have hname : '\n' ∉ name.toList := fun hmem => absurd (h.grammar.chars _ hmem).1 (by decide)
    rw [toList_headSource]
    simpa [hname] using newline_not_mem_listText hnames
  obtain ⟨c, rest, hname, hc⟩ := h.lower
  have hindent : Text.isIndent c = false := by
    by_contra hindent
    simp only [Text.isIndent, Bool.not_eq_false, Bool.or_eq_true, beq_iff_eq] at hindent
    rcases hindent with rfl | rfl <;> exact absurd hc (by decide)
  refine ⟨⟨c, ?_, hindent⟩, hline, fun x hx => ?_⟩
  · simp [IR.headSource, hname]
  · rw [IR.headSource, String.toList_append, getLast?_append] at hx
    obtain rfl : ')' = x := by simpa using hx
    rfl

namespace Template

/-! ## Reading the lines -/

/-- A text line is a text node, if nothing lies below it. -/
theorem readLine_piped (place : Place) {below : Below} (hbelow : below.isEmpty = true)
    (t : String) :
    readLine place below ("| " ++ t).toList = .ok (.leaf (.text t) place) := by
  have hpiped : ("| " ++ t).toList = '|' :: ' ' :: t.toList := by simp
  rw [hpiped, readLine.eq_def]
  simp only [LineKind.ofContent_piped, bare, hbelow, if_true, String.ofList_toList]

/-- A tag line is a tag around what lies below it, with the props for its attributes. -/
theorem exists_readLine_head (hname : IsStaticName o name) (hprops : ∀ p ∈ props, IsStaticProp p)
    (hkeys : (Ordered.keys props).Nodup) :
    ∃ attrs : List Attr, attrs.map Props.ofAttr = props ∧
      (∀ a ∈ attrs, Attr.collects a.name = false) ∧
      ∀ place below, readLine place below (IR.headSource name props).toList =
        below.nodes.map fun nodes => .tag ⟨name, attrs, [], false⟩ (.plain nodes) none place := by
  obtain ⟨items, rfl, hnames, hplain⟩ := exists_items hprops
  obtain ⟨c, more, hchars, hc⟩ := hname.lower
  refine ⟨items.map Attr.ofWritten, map_map, ?_, fun place below => ?_⟩
  · intro a ha
    obtain ⟨i, hi, rfl⟩ := mem_map.mp ha
    exact hplain i hi
  · have hyield : c :: more ≠ "yield".toList := by
      rw [← hchars]
      intro heq
      exact hname.ordinary (by simp [String.toList_inj.mp heq])
    have hkind :
        LineKind.ofContent (name.toList ++ '(' :: (Attr.listText items ++ [')'])) = .tag := by
      rw [hchars]
      exact LineKind.ofContent_written hc (hchars ▸ hname.grammar.chars) hyield
    have hnodup : (items.map Prod.fst).Nodup := by
      rw [Ordered.keys, map_map] at hkeys
      exact hkeys
    have hread := TagHead.read_written hname.grammar hnames hnodup
    rw [toList_headSource, readLine_of_tag place below hkind hread, hname.not_isStatement.1]
    rfl

/-! ## The lines of static trees -/

/-- The lines of texts. -/
def linesFrom (number : Nat) (texts : List String) : List Line :=
  Line.numberFrom number (texts.map String.toList)

theorem linesFrom_nil (number : Nat) : linesFrom number [] = [] :=
  rfl

theorem linesFrom_cons (number : Nat) (text : String) (texts : List String) :
    linesFrom number (text :: texts) =
      Line.ofText number text.toList :: linesFrom (number + 1) texts :=
  rfl

theorem linesFrom_append (number : Nat) (xs ys : List String) :
    linesFrom number (xs ++ ys) = linesFrom number xs ++ linesFrom (number + xs.length) ys := by
  rw [linesFrom, map_append, Line.numberFrom_append, length_map]
  rfl

theorem ofText_append_pad (number depth : Nat) {content : String} (h : IsContent content.toList) :
    Line.ofText number (Json.pad depth ++ content).toList =
      ⟨number, 2 * depth, content, Json.pad depth ++ content⟩ := by
  rw [String.toList_append, Line.ofText_pad number depth h, String.ofList_toList,
    String.ofList_append, String.ofList_toList, String.ofList_toList]

theorem isBlank_content {l : Line} {content : String} (h : IsContent content.toList)
    (hl : l.content = content) : l.isBlank = false := by
  obtain ⟨⟨c, hc, -⟩, -, -⟩ := h
  rw [Line.isBlank, hl]
  by_contra hempty
  rw [Bool.not_eq_false, String.isEmpty_iff] at hempty
  rw [hempty] at hc
  cases hc

/-- A line around everything that follows it is the only one on its level. -/
theorem siblings_around {f : Option String} {depth : Nat} {content : String} {body : List Line}
    (h : IsContent content.toList) (hbody : ∀ l ∈ body, l.isBelow (2 * depth) = true)
    (number : Nat) :
    siblings f (2 * depth) (Line.ofText number (Json.pad depth ++ content).toList :: body) =
      (readLine ⟨.ofNat number, f⟩ ⟨body, nodesOf f body⟩ content.toList).map
        fun node => [node] := by
  rw [ofText_append_pad number depth h]
  generalize hl : (⟨number, 2 * depth, content, Json.pad depth ++ content⟩ : Line) = l
  have hcontent : l.content = content := by rw [← hl]
  have hplace : placeOf f l = ⟨.ofNat number, f⟩ := by rw [← hl]; rfl
  rw [siblings_line (isBlank_content h hcontent) (by rw [← hl]), takeWhile_eq_self_iff.mpr hbody,
    dropWhile_eq_nil_iff.mpr hbody, siblings_nil, hcontent, hplace]
  cases readLine ⟨.ofNat number, f⟩ ⟨body, nodesOf f body⟩ content.toList <;> rfl

variable {n : IR} {nodes : List IR}

/-- The first line of a static tree stands at its depth. -/
theorem exists_first (h : IR.Static o n) (depth : Nat) :
    ∃ content rest, IR.sourceLines depth n = (Json.pad depth ++ content) :: rest ∧
      IsContent content.toList := by
  cases h with
  | @text t buffer origin hne hline hend =>
    refine ⟨"| " ++ t, [], ?_, isContent_piped hne hline hend⟩
    rw [IR.sourceLines_text, String.append_assoc]
  | @tag name props children origin hname hprops hkeys hchildren =>
    exact ⟨_, _, IR.sourceLines_tag .., hname.isContent hprops⟩

/-- A line of a static tree is empty, or a content at the depth of the tree or deeper. -/
theorem line_of_mem_sourceLines (h : IR.Static o n) (depth : Nat) :
    ∀ text ∈ IR.sourceLines depth n, text = "" ∨ ∃ d content, depth ≤ d ∧
      text = Json.pad d ++ content ∧ IsContent content.toList := by
  -- Children are one level deeper, so the depth is not fixed, and at that depth they are found deep
  -- enough.
  induction h generalizing depth with
  | @text t buffer origin hne hline hend =>
    intro text htext
    rw [IR.sourceLines_text, String.append_assoc, mem_singleton] at htext
    exact .inr ⟨depth, _, Nat.le_refl _, htext, isContent_piped hne hline hend⟩
  | @tag name props children origin hname hprops hkeys hchildren ih =>
    intro text htext
    rw [IR.sourceLines_tag, mem_cons] at htext
    rcases htext with htext | htext
    · exact .inr ⟨depth, _, Nat.le_refl _, htext, hname.isContent hprops⟩
    · split at htext
      · exact .inl (mem_singleton.mp htext)
      · rw [IR.allLines_eq_flatMap] at htext
        obtain ⟨child, hchild, htext⟩ := mem_flatMap.mp htext
        refine (ih child hchild (depth + 1) text htext).imp_right ?_
        rintro ⟨d, content, hd, heq, hcontent⟩
        exact ⟨d, content, Nat.le_of_succ_le hd, heq, hcontent⟩

theorem line_of_mem_allLines (hnodes : ∀ n ∈ nodes, IR.Static o n) {depth : Nat} {text : String}
    (htext : text ∈ IR.allLines depth nodes) :
    text = "" ∨ ∃ d content, depth ≤ d ∧ text = Json.pad d ++ content ∧
      IsContent content.toList := by
  rw [IR.allLines_eq_flatMap] at htext
  obtain ⟨n, hn, htext⟩ := mem_flatMap.mp htext
  exact line_of_mem_sourceLines (hnodes n hn) depth text htext

/-- All lines of static trees at a depth lie below any line that is less deep. -/
theorem isBelow_allLines (hnodes : ∀ n ∈ nodes, IR.Static o n) {width depth : Nat}
    (hwidth : width < 2 * depth) (number : Nat) :
    ∀ l ∈ linesFrom number (IR.allLines depth nodes), l.isBelow width = true := by
  intro l hl
  obtain ⟨k, t, ht, rfl⟩ := Line.exists_of_mem_numberFrom hl
  obtain ⟨text, htext, rfl⟩ := mem_map.mp ht
  rcases line_of_mem_allLines hnodes htext with rfl | ⟨d, content, hd, rfl, hcontent⟩
  · rfl
  · have hdeeper : width < 2 * d := by omega
    rw [ofText_append_pad k d hcontent, Line.isBelow]
    simp [hdeeper]

/-- What a tag is followed by lies below it. -/
theorem isBelow_body (hnodes : ∀ n ∈ nodes, IR.Static o n) (depth number : Nat) :
    ∀ l ∈ linesFrom number (if nodes.isEmpty then [""] else IR.allLines (depth + 1) nodes),
      l.isBelow (2 * depth) = true := by
  split
  · intro l hl
    obtain rfl := mem_singleton.mp hl
    rfl
  · exact isBelow_allLines hnodes (by omega) number

theorem levelOf_allLines (hnodes : ∀ n ∈ nodes, IR.Static o n) (hne : nodes ≠ [])
    (number depth : Nat) : levelOf (linesFrom number (IR.allLines depth nodes)) = 2 * depth := by
  obtain ⟨n, rest, rfl⟩ := exists_cons_of_ne_nil hne
  obtain ⟨content, more, hlines, hcontent⟩ := exists_first (hnodes n mem_cons_self) depth
  rw [IR.allLines, hlines, cons_append, linesFrom_cons, ofText_append_pad number depth hcontent,
    levelOf_line (isBlank_content hcontent rfl)]

theorem levelOf_allLines_le (hnodes : ∀ n ∈ nodes, IR.Static o n) (number depth : Nat) :
    levelOf (linesFrom number (IR.allLines depth nodes)) ≤ 2 * depth := by
  by_cases hnil : nodes = []
  · rw [hnil, IR.allLines]
    exact Nat.zero_le _
  · exact Nat.le_of_eq (levelOf_allLines hnodes hnil number depth)

/-- The joined lines of static trees are read like the lines themselves. -/
theorem nodesOf_intercalate (hnodes : ∀ n ∈ nodes, IR.Static o n) (f : Option String)
    (depth : Nat) :
    nodesOf f (Line.ofSource ("\n".intercalate (IR.allLines depth nodes))) =
      nodesOf f (linesFrom 1 (IR.allLines depth nodes)) := by
  have hline : ∀ t ∈ (IR.allLines depth nodes).map String.toList, '\n' ∉ t := by
    intro t ht
    obtain ⟨text, htext, rfl⟩ := mem_map.mp ht
    rcases line_of_mem_allLines hnodes htext with rfl | ⟨d, content, -, rfl, hcontent⟩
    · exact not_mem_nil
    · simp [Json.pad, hcontent.line]
  obtain ⟨z, hz, hsegments⟩ := Line.exists_segments_intercalate hline
  have hchars : ("\n".intercalate (IR.allLines depth nodes)).toList =
      ['\n'].intercalate ((IR.allLines depth nodes).map String.toList) :=
    String.toList_intercalate
  rw [linesFrom, ← hsegments, Line.numberFrom_append, Line.ofSource, hchars]
  -- An empty text behind a last line feed is no line of the source, and a blank one of the list.
  refine (nodesOf_append_blank _ fun l hl => ?_).symm
  obtain ⟨k, t, ht, rfl⟩ := Line.exists_of_mem_numberFrom hl
  rw [hz t ht]
  rfl

end Template

end Offside
