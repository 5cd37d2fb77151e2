import Mathlib.Data.List.Forall2
import Offside.Proofs.Template.Plan

/-!
# Lines that have moved

The reading of lines depends on where they stand only through the places it gives to nodes and
errors, and on their indentation only through differences. So when every line of a template is moved
by the same number of columns, and its place is changed in any way at all, the tree is the same with
its places changed in that way (`siblings_moved`, `nodesOf_moved`). Blank lines have no indentation
to speak of: they may be moved by any number of columns, each by another one.

An error moves along with the lines. The only thing in it that has to do with columns is the width
that a line goes back to.
-/

set_option autoImplicit false

namespace Offside

/-- The fault as it is seen when all lines are `cols` columns further right. -/
def ParseFault.indent (cols : Nat) : ParseFault → ParseFault
  | .dedent found => .dedent (found + cols)
  | fault => fault

/-- The error after a change `g` of places and a move by `cols` columns. -/
def ParseError.move (g : Place → Place) (cols : Nat) (e : ParseError) : ParseError :=
  ⟨g e.place, e.fault.indent cols⟩

namespace Template

/-- The line `l'` of the template `f'` is the line `l` of the template `f` with its place changed by
`g` and moved by `cols` columns. -/
structure Moved (f f' : Option String) (g : Place → Place) (cols : Nat) (l l' : Line) : Prop where
  place : placeOf f' l' = g (placeOf f l)
  content : l'.content = l.content
  indent : l.isBlank = false → l'.indent = l.indent + cols
  raw : l.isBlank = false → l'.raw.toList.drop cols = l.raw.toList

/-- What lies below a line before and after a move. -/
structure Below.Moved (f f' : Option String) (g : Place → Place) (cols : Nat) (b b' : Below) :
    Prop where
  isEmpty : b'.isEmpty = b.isEmpty
  verbatim : verbatim f' b'.lines = (verbatim f b.lines).map (Node.mapPlace g)
  nodes : b'.nodes = mapBoth (ParseError.move g cols) (List.map (Node.mapPlace g)) b.nodes

/-! ## One line -/

/-- No fault of a line by itself speaks of columns. -/
theorem Plan.indent_of_ofContent {content : List Char} {fault : ParseFault} (cols : Nat)
    (h : Plan.ofContent content = .error fault) : fault.indent cols = fault := by
  -- The fault of a tag that is another tag's line is the fault of the whole line; all others are
  -- found right here.
  fun_induction Plan.ofContent content generalizing fault with
  | case5 => cases h; rfl
  | case17 content name rest =>
    unfold filterAttrs at h
    dsimp only at h
    split at h
    · cases h
    · split at h
      · cases h; rfl
      · split at h
        · cases h
        · cases h; rfl
  | case18 => cases h; rfl
  | case23 content hkind head hread child htail _ ih =>
    cases hchild : Plan.ofContent child.toList with
    | error fault' =>
      rw [hchild] at h
      cases h
      exact ih hchild
    | ok plan => rw [hchild] at h; cases h
  | _ => cases h

section Reading

variable {f f' : Option String} {g : Place → Place} {cols : Nat} {b b' : Below}

theorem Below.Moved.block (h : Below.Moved f f' g cols b b') :
    b'.block = mapBoth (ParseError.move g cols) (Block.mapPlace g) b.block := by
  unfold Below.block
  rw [h.nodes]
  cases b.nodes <;> rfl

theorem Below.Moved.block? (h : Below.Moved f f' g cols b b') :
    b'.block? = mapBoth (ParseError.move g cols) (Option.map (Block.mapPlace g)) b.block? := by
  unfold Below.block?
  rw [h.isEmpty, h.block]
  split
  · rfl
  · cases b.block <;> rfl

/-- The node of a plan moves with the place of its line and what lies below. -/
theorem Plan.build_moved (h : Below.Moved f f' g cols b b') {place : Place}
    (hf : place.filename = f) (hf' : (g place).filename = f') (plan : Plan) :
    plan.build (g place) b' =
      mapBoth (ParseError.move g cols) (Node.mapPlace g) (plan.build place b) := by
  induction plan with
  | bare what leaf =>
    simp only [Plan.build, Template.bare, h.isEmpty]
    split <;> rfl
  | doctype text => rfl
  | comment text buffer =>
    simp only [Plan.build, h.isEmpty, hf, hf', h.verbatim]
    split
    · rfl
    · simp
  | lead l always =>
    simp only [Plan.build, h.block, h.block?]
    cases always with
    | true => cases b.block <;> simp [Except.map]
    | false => cases b.block? <;> simp [Except.map]
  | caseOf expr =>
    simp only [Plan.build, h.block]
    cases b.block <;> simp [Except.map]
  | block label =>
    simp only [Plan.build, h.nodes]
    cases b.nodes <;> simp [Except.map]
  | filter name attrs => simp [Plan.build, hf, hf', h.verbatim]
  | tag t text code raw =>
    simp only [Plan.build, hf, hf', h.verbatim, h.nodes]
    -- The text and the code of the line are at its place, so they move with it and not with
    -- `nodes`.
    have hbuild (nodes : List Node) :
        Node.tag t (.plain (inlineText (g place) text ++ nodes.map (Node.mapPlace g)))
          (inlineCode (g place) code) (g place) =
        (Node.tag t (.plain (inlineText place text ++ nodes)) (inlineCode place code)
          place).mapPlace g := by
      cases text <;> cases code <;> simp [inlineText, inlineCode]
    cases raw with
    | true => exact congrArg Except.ok (hbuild _)
    | false =>
      cases b.nodes with
      | ok nodes => exact congrArg Except.ok (hbuild nodes)
      | error e => rfl
  | expansion t child ih =>
    simp only [Plan.build, ih]
    cases child.build place b <;> simp [Except.map]

theorem readLine_moved (h : Below.Moved f f' g cols b b') {place : Place}
    (hf : place.filename = f) (hf' : (g place).filename = f') (content : List Char) :
    readLine (g place) b' content =
      mapBoth (ParseError.move g cols) (Node.mapPlace g) (readLine place b content) := by
  rw [readLine_eq_build, readLine_eq_build]
  cases hplan : Plan.ofContent content with
  | error fault =>
    simp [ParseError.move, Plan.indent_of_ofContent cols hplan]
  | ok plan => exact plan.build_moved h hf hf'

end Reading

/-! ## The widths of lines -/

/-- The widths of the lines that are not blank. -/
def widths (lines : List Line) : List Nat :=
  (lines.filter fun l => !l.isBlank).map Line.indent

theorem levelOf_eq_widths (lines : List Line) : levelOf lines = (widths lines).head?.getD 0 := by
  simp [levelOf, widths]

theorem commonIndent_eq_widths (lines : List Line) :
    commonIndent lines = (widths lines).min?.getD 0 := rfl

theorem widths_eq_nil_iff {lines : List Line} :
    widths lines = [] ↔ ∀ l ∈ lines, l.isBlank = true := by
  simp [widths, List.filter_eq_nil_iff]

/-- Blank lines give no nodes, whatever their level. -/
theorem siblings_of_blank {filename : Option String} {lines : List Line} (level : Nat)
    (h : ∀ l ∈ lines, l.isBlank = true) : siblings filename level lines = .ok [] := by
  induction lines with
  | nil => exact siblings_nil
  | cons l rest ih =>
    rw [siblings_blank (h l List.mem_cons_self)]
    exact ih fun x hx => h x (List.mem_cons_of_mem _ hx)

theorem min?_map_add (ns : List Nat) (k : Nat) : (ns.map (· + k)).min? = ns.min?.map (· + k) := by
  cases ns with
  | nil => rfl
  | cons n ns =>
    rw [List.map_cons, List.min?_cons', List.min?_cons', Option.map_some]
    congr 1
    induction ns generalizing n with
    | nil => rfl
    | cons m ns ih =>
      rw [List.map_cons, List.foldl_cons, List.foldl_cons, ← ih, Nat.add_min_add_right]

/-! ## Many lines -/

section Lists

open List

variable {f f' : Option String} {g : Place → Place} {cols : Nat}

theorem Moved.isBlank {l l' : Line} (h : Moved f f' g cols l l') : l'.isBlank = l.isBlank := by
  unfold Line.isBlank
  rw [h.content]

theorem Moved.isBelow {l l' : Line} (h : Moved f f' g cols l l') (width : Nat) :
    l'.isBelow (width + cols) = l.isBelow width := by
  unfold Line.isBelow
  rw [h.isBlank]
  cases hb : l.isBlank with
  | true => rfl
  | false => simp [h.indent hb]

theorem forall₂_takeWhile {α β : Type} {R : α → β → Prop} {p : α → Bool} {q : β → Bool}
    (hpq : ∀ a b, R a b → q b = p a) {xs : List α} {ys : List β} (h : Forall₂ R xs ys) :
    Forall₂ R (xs.takeWhile p) (ys.takeWhile q) := by
  induction h with
  | nil => exact .nil
  | @cons a b xs ys hab _ ih =>
    rw [takeWhile_cons, takeWhile_cons, hpq a b hab]
    cases p a with
    | true => exact .cons hab ih
    | false => exact .nil

theorem forall₂_dropWhile {α β : Type} {R : α → β → Prop} {p : α → Bool} {q : β → Bool}
    (hpq : ∀ a b, R a b → q b = p a) {xs : List α} {ys : List β} (h : Forall₂ R xs ys) :
    Forall₂ R (xs.dropWhile p) (ys.dropWhile q) := by
  induction h with
  | nil => exact .nil
  | @cons a b xs ys hab hrest ih =>
    rw [dropWhile_cons, dropWhile_cons, hpq a b hab]
    cases p a with
    | true => exact ih
    | false => exact .cons hab hrest

variable {lines lines' : List Line}

theorem widths_moved (h : Forall₂ (Moved f f' g cols) lines lines') :
    widths lines' = (widths lines).map (· + cols) := by
  induction h with
  | nil => rfl
  | @cons l l' rest rest' hl _ ih =>
    unfold widths at ih ⊢
    rw [filter_cons, filter_cons, hl.isBlank]
    cases hb : l.isBlank with
    | true => exact ih
    | false => simp [ih, hl.indent hb]

theorem isBlank_moved (h : Forall₂ (Moved f f' g cols) lines lines') :
    lines'.all Line.isBlank = lines.all Line.isBlank := by
  induction h with
  | nil => rfl
  | cons hl _ ih => simp [hl.isBlank, ih]

theorem dropBlankEnd_moved (h : Forall₂ (Moved f f' g cols) lines lines') :
    Forall₂ (Moved f f' g cols) (dropBlankEnd lines) (dropBlankEnd lines') := by
  refine forall₂_reverse_iff.mpr (forall₂_dropWhile (fun _ _ hl => hl.isBlank) ?_)
  exact forall₂_reverse_iff.mpr h

theorem commonIndent_moved (h : Forall₂ (Moved f f' g cols) lines lines')
    (hne : widths lines ≠ []) :
    commonIndent lines' = commonIndent lines + cols := by
  rw [commonIndent_eq_widths, commonIndent_eq_widths, widths_moved h, min?_map_add]
  obtain ⟨w, hw⟩ := Option.isSome_iff_exists.mp (isSome_min?_of_ne_nil hne)
  rw [hw]
  rfl

/-- The level of moved lines moves with them, as far as there is one. -/
theorem levelOf_moved (h : Forall₂ (Moved f f' g cols) lines lines') (hne : widths lines ≠ []) :
    levelOf lines' = levelOf lines + cols := by
  rw [levelOf_eq_widths, levelOf_eq_widths, widths_moved h]
  cases hw : widths lines with
  | nil => exact absurd hw hne
  | cons w ws => rfl

theorem verbatimText_moved {l l' : Line} (hl : Moved f f' g cols l l') {base base' : Nat}
    (hbase : l.isBlank = false → base' = base + cols) :
    verbatimText base' l' = verbatimText base l := by
  unfold verbatimText
  rw [hl.isBlank]
  cases hb : l.isBlank with
  | true => rfl
  | false => rw [← hl.raw hb, hbase hb, drop_drop, Nat.add_comm base]

theorem map_moved {α : Type} {F F' : Line → α} (h : Forall₂ (Moved f f' g cols) lines lines')
    (hF : ∀ l ∈ lines, ∀ l', Moved f f' g cols l l' → F' l' = F l) :
    lines'.map F' = lines.map F := by
  induction h with
  | nil => rfl
  | @cons l l' rest rest' hl _ ih =>
    rw [map_cons, map_cons, hF l mem_cons_self l' hl, ih fun x hx => hF x (mem_cons_of_mem _ hx)]

/-- A verbatim body says the same wherever it stands. -/
theorem verbatim_moved (h : Forall₂ (Moved f f' g cols) lines lines') :
    verbatim f' lines' = (verbatim f lines).map (Node.mapPlace g) := by
  have hbody := dropBlankEnd_moved h
  unfold verbatim
  rw [map_map]
  refine map_moved hbody fun l hmem l' hl => ?_
  -- A line that is not blank shows that the body has a least width to be moved.
  have hbase (hb : l.isBlank = false) :
      commonIndent (dropBlankEnd lines') = commonIndent (dropBlankEnd lines) + cols := by
    refine commonIndent_moved hbody fun hnil => ?_
    rw [widths_eq_nil_iff.mp hnil l hmem] at hb
    cases hb
  simp [verbatimText_moved hl hbase, hl.place]

/-- On the level of its own first line a body can be read as well as on the moved level. -/
theorem siblings_levelOf_moved (h : Forall₂ (Moved f f' g cols) lines lines')
    (hread : siblings f' (levelOf lines + cols) lines' =
      mapBoth (ParseError.move g cols) (map (Node.mapPlace g)) (siblings f (levelOf lines) lines)) :
    siblings f' (levelOf lines') lines' =
      mapBoth (ParseError.move g cols) (map (Node.mapPlace g))
        (siblings f (levelOf lines) lines) := by
  -- Lines that are all blank have the level 0 before and after the move, so there the levels do not
  -- differ by `cols`. But then it does not matter which level it is.
  by_cases hne : widths lines = []
  · have hne' : widths lines' = [] := by rw [widths_moved h, hne]; rfl
    rw [siblings_of_blank _ (widths_eq_nil_iff.mp hne),
      siblings_of_blank _ (widths_eq_nil_iff.mp hne')]
    rfl
  · rw [levelOf_moved h hne]
    exact hread

/-- Moved lines on a moved level give the moved nodes, or fail with the moved error. -/
theorem siblings_moved {level : Nat} (h : Forall₂ (Moved f f' g cols) lines lines') :
    siblings f' (level + cols) lines' =
      mapBoth (ParseError.move g cols) (map (Node.mapPlace g)) (siblings f level lines) := by
  induction level, lines using siblings_induct generalizing lines' with
  | nil level =>
    cases h
    rw [siblings_nil, siblings_nil]
    rfl
  | blank level l rest hb ih =>
    obtain ⟨l', rest', hl, hrest, rfl⟩ := forall₂_cons_left_iff.mp h
    rw [siblings_blank hb, siblings_blank (hl.isBlank.trans hb)]
    exact ih hrest
  | dedent level l rest hb hlt =>
    obtain ⟨l', rest', hl, hrest, rfl⟩ := forall₂_cons_left_iff.mp h
    have hind := hl.indent hb
    rw [siblings_dedent hb hlt, siblings_dedent (hl.isBlank.trans hb) (by omega), hl.place, hind]
    rfl
  | unexpected level l rest hb hlt =>
    obtain ⟨l', rest', hl, hrest, rfl⟩ := forall₂_cons_left_iff.mp h
    have hind := hl.indent hb
    rw [siblings_unexpected hb hlt, siblings_unexpected (hl.isBlank.trans hb) (by omega), hl.place]
    rfl
  -- The line takes as many lines below it as before, since both widths that are compared move.
  | line level l rest hb heq ihbody ihafter =>
    obtain ⟨l', rest', hl, hrest, rfl⟩ := forall₂_cons_left_iff.mp h
    have hind : l'.indent = level + cols := heq ▸ hl.indent hb
    have hbelow : ∀ a b, Moved f f' g cols a b → b.isBelow (level + cols) = a.isBelow level :=
      fun _ _ hab => hab.isBelow level
    have hbody := forall₂_takeWhile hbelow hrest
    have hafter := forall₂_dropWhile hbelow hrest
    have hmoved : Below.Moved f f' g cols
        ⟨rest.takeWhile (Line.isBelow level), nodesOf f (rest.takeWhile (Line.isBelow level))⟩
        ⟨rest'.takeWhile (Line.isBelow (level + cols)),
          nodesOf f' (rest'.takeWhile (Line.isBelow (level + cols)))⟩ :=
      ⟨isBlank_moved hbody, verbatim_moved hbody, siblings_levelOf_moved hbody (ihbody hbody)⟩
    rw [siblings_line hb heq, siblings_line (hl.isBlank.trans hb) hind, hl.place, hl.content,
      readLine_moved hmoved rfl (by rw [← hl.place]; rfl), ihafter hafter]
    cases readLine (placeOf f l) _ l.content.toList with
    | error e => rfl
    | ok node => cases siblings f level (rest.dropWhile (Line.isBelow level)) <;> rfl

theorem nodesOf_moved (h : Forall₂ (Moved f f' g cols) lines lines') :
    nodesOf f' lines' =
      mapBoth (ParseError.move g cols) (map (Node.mapPlace g)) (nodesOf f lines) :=
  siblings_levelOf_moved h (siblings_moved h)

end Lists

end Template

end Offside
