import Offside.Proofs.Compile.Inlining
import Offside.Proofs.Template.RawBody

/-!
# Texts without characters

A text without characters gives nothing. So such texts can be put anywhere into the block of a tag,
and into the blocks of what is in it, and nothing changes, as long as there is something in the
block already. The exception are components. What a component hosts is put into a `span` before
anybody asks whether there is anything in it, and so a text without characters counts for an empty
`span` that is written in its place (`Padded`).

It shows in verbatim bodies, where blank lines are texts without characters: they leave no trace in
a tag, and an empty `span` in a component (`visit_padded`).
-/

set_option autoImplicit false

namespace Offside

open List

/-! ## Padding -/

namespace Node

/-- A text without characters. -/
def emptyText (p : Place) : Node :=
  .leaf (.text "") p

/-- A `span` with nothing in it. -/
def emptySpan (p : Place) : Node :=
  .tag ⟨"span", [], [], false⟩ (.plain []) none p

/-- Texts without characters may be put into the block of the node. A tag that has nothing in its
block might have code on its line instead; a self-closing tag must not get a `span`. -/
def TakesText (o : Options) : Node → Prop
  | .tag t body _ _ =>
    t.IsElement o ∧ body.nodes ≠ [] ∧ (isComponent t.name = true → t.selfClosing = false)
  | n => n.splices = true

end Node

/-- The second list is the first with texts without characters in it, anywhere in the list and in
the blocks of its nodes. Where a component hosts them, they are in the place of an empty `span`. -/
inductive Padded (o : Options) : Option Host → List Node → List Node → Prop
  | nil {host : Option Host} : Padded o host [] []
  | text {xs ys : List Node} (p : Place) (h : Padded o none xs ys) :
      Padded o none xs (.emptyText p :: ys)
  | hosted {host : Host} {xs ys : List Node} (p : Place) (hspan : o.phraseTag ≠ "span")
      (h : Padded o (some host) xs ys) :
      Padded o (some host) (.emptySpan p :: xs) (.emptyText p :: ys)
  | same {host : Option Host} {xs ys : List Node} (n : Node) (h : Padded o host xs ys) :
      Padded o host (n :: xs) (n :: ys)
  | inside {host : Option Host} {n : Node} {below xs ys : List Node} (hn : n.TakesText o)
      (hbelow : Padded o (n.hostBelow host) n.children below) (h : Padded o host xs ys) :
      Padded o host (n :: xs) (n.withChildren below :: ys)

theorem Padded.ne_nil {o : Options} {host : Option Host} {nodes nodes' : List Node}
    (h : Padded o host nodes nodes') (hne : nodes ≠ []) : nodes' ≠ [] := by
  cases h with
  | nil => exact hne
  | text | hosted | same | inside => exact cons_ne_nil _ _

namespace Compile

/-- Padding that nobody hosts is white space among white space. -/
theorem all_isBlankText_padded {o : Options} {nodes nodes' : List Node}
    (h : Padded o none nodes nodes') : nodes'.all isBlankText = nodes.all isBlankText := by
  -- That nobody hosts the list has to be kept along the induction.
  generalize hhost : (none : Option Host) = host at h
  induction h with
  | nil => rfl
  | text p h ih =>
    rw [all_cons, ih hhost]
    rfl
  | hosted => cases hhost
  | same n h ih => rw [all_cons, all_cons, ih hhost]
  | inside hn hbelow h _ ih => rw [all_cons, all_cons, ih hhost, isBlankText_withChildren]

/-! ## What is seen of results -/

/-- What is seen of the result of a node: the name and the arguments, if it is content, and the
nodes that it gives. -/
abbrev Seen := Option (String × Option String) × List IR

/-- What is seen of results. A node without a name that gives nothing is not seen. -/
def seen (results : List (Node × Visited)) : List Seen :=
  (results.map fun r => (contentName? r.1, r.2.toList)).filter fun e => e.1.isSome || !e.2.isEmpty

theorem seen_append (xs ys : List (Node × Visited)) : seen (xs ++ ys) = seen xs ++ seen ys := by
  simp [seen]

theorem flatMap_seen (results : List (Node × Visited)) :
    (seen results).flatMap Prod.snd = results.flatMap fun r => r.2.toList := by
  induction results with
  | nil => rfl
  | cons r rest ih =>
    rw [← singleton_append, seen_append, flatMap_append, ih]
    cases hname : contentName? r.1 <;> cases hnodes : r.2.toList <;> simp [seen, hname, hnodes]

/-- The content under names. -/
def namedSeen (seen : List Seen) : List (String × PropEntry) :=
  seen.filterMap fun e => e.1.map fun c => (c.1, .content e.2 none c.2)

/-- The nodes that are not content under a name. -/
def plainSeen (seen : List Seen) : List IR :=
  seen.flatMap fun e => if e.1.isSome then [] else e.2

/-- A tag with its attributes around what is seen of its nodes. -/
def tagSeen (name : String) (attrs : List Attr) (spreads : List String) (p : Place)
    (seen : List Seen) : IR :=
  .tag name (Props.gather (attrs.map Props.ofAttr ++ namedSeen seen) spreads) (plainSeen seen) true
    (.ofPlace p)

theorem namedContent_eq_seen (results : List (Node × Visited)) :
    namedContent results = namedSeen (seen results) := by
  induction results with
  | nil => rfl
  | cons r rest ih =>
    rw [← singleton_append, seen_append, namedSeen, filterMap_append, ← namedSeen, ← namedSeen,
      ← ih]
    cases hname : contentName? r.1 <;> cases hnodes : r.2.toList <;>
      simp [namedContent, namedSeen, seen, hname, hnodes]

theorem plainContent_eq_seen (results : List (Node × Visited)) :
    plainContent results = plainSeen (seen results) := by
  induction results with
  | nil => rfl
  | cons r rest ih =>
    rw [← singleton_append, seen_append, plainSeen, flatMap_append, ← plainSeen, ← plainSeen, ← ih]
    cases hname : contentName? r.1 <;> cases hnodes : r.2.toList <;>
      simp [plainContent, plainSeen, seen, hname, hnodes]

section Visits

variable {m : Type → Type} [Monad m] [MonadExceptOf CompileError m] {o : Options} {embed : Embed m}
  {host : Option Host} {p : Place} {nodes nodes' : List Node} {n : Node}

/-- What is seen of visiting the nodes of a list. -/
def visitSeen (o : Options) (embed : Embed m) (host : Option Host) (nodes : List Node) :
    m (List Seen) :=
  seen <$> visitBare o embed host nodes

/-- What a component makes of a text without characters. -/
def hostedSpan (h : Host) (p : Place) : IR :=
  .tag "span" (Props.gather [Props.ofAttr h.classAttr] []) [] true (.ofPlace p)

theorem visit_hosted_emptyText (h : Host) (hspan : o.phraseTag ≠ "span") :
    visit o embed (some h) (.emptyText p) = pure (.one (hostedSpan h p)) := by
  simp [Node.emptyText, visit, leaf, hostedText, Host.span, hspan, ofExcept, text, Visited.toList,
    hostedSpan]

theorem visit_emptyText : visit o embed none (.emptyText p) = pure .skip := by
  simp [Node.emptyText, visit, leaf, text, ofExcept]

variable [LawfulErrors m]

theorem visitSeen_nil : visitSeen o embed host [] = pure [] := by
  simp [visitSeen, visitBare, seen]

theorem visitSeen_cons (n : Node) (rest : List Node) :
    visitSeen o embed host (n :: rest) = (do
      let visited ← visit o embed host n
      (seen [(n, visited)] ++ ·) <$> visitSeen o embed host rest) := by
  have hseen (v : Visited) (results : List (Node × Visited)) :
      seen ((n.bare, v) :: results) = seen [(n, v)] ++ seen results := by
    rw [← seen_append]
    simp [seen]
  simp [visitSeen, visitBare, hseen]

theorem visitSeen_append (xs ys : List Node) :
    visitSeen o embed host (xs ++ ys) = (do
      let first ← visitSeen o embed host xs
      (first ++ ·) <$> visitSeen o embed host ys) := by
  induction xs with
  | nil => simp [visitSeen_nil]
  | cons n rest ih => simp [visitSeen_cons, ih]

theorem visitList_eq_seen :
    visitList o embed host nodes = flatMap Prod.snd <$> visitSeen o embed host nodes := by
  rw [visitSeen, visitBare_eq_map, visitList, Functor.map_map, Functor.map_map]
  simp [flatMap_seen, flatMap_map]

/-- A tag is made of what is seen of its nodes. -/
theorem map_tag_visitBare (name : String) (attrs : List Attr) (spreads : List String) :
    (fun results => Visited.one (tag name attrs spreads results p)) <$>
        visitBare o embed host nodes =
      (fun seen => .one (tagSeen name attrs spreads p seen)) <$>
        visitSeen o embed host nodes := by
  rw [visitSeen, Functor.map_map]
  simp only [tag, tagSeen, namedContent_eq_seen, plainContent_eq_seen]

/-- A component makes of a text without characters what it makes of an empty `span`. -/
theorem visit_emptySpan (h : Host) (hspan : o.phraseTag ≠ "span") :
    visit o embed (some h) (.emptySpan p) = visit o embed (some h) (.emptyText p) := by
  have helement : Tag.IsElement o ⟨"span", [], [], false⟩ := ⟨hspan.symm, rfl, by simp⟩
  rw [Node.emptySpan, Block.plain, visit_element_eq helement (by simp [Tag.IsOpen]),
    visit_hosted_emptyText h hspan]
  simp [contentOf, visitBare, tag, namedContent, plainContent, hostedAttrs, hostedSpan]

/-- Padding in the block of a tag does not matter if it does not matter in the list. -/
theorem visit_element_padded {t : Tag} {label : BlockLabel} {code : Option Node}
    (ht : (Node.tag t (.mk nodes label) code p).TakesText o)
    (h : Padded o (Host.ofTag t.name) nodes nodes')
    (hseen : SameUpTo CompileError.bare (visitSeen o embed (Host.ofTag t.name) nodes)
      (visitSeen o embed (Host.ofTag t.name) nodes')) :
    SameUpTo CompileError.bare (visit o embed host (.tag t (.mk nodes label) code p))
      (visit o embed host (.tag t (.mk nodes' label) code p)) := by
  obtain ⟨helement, hne, hself⟩ := ht
  have hnodes : nodes ≠ [] := hne
  -- In a component there is white space where there was a `span`, but it does not close itself.
  have hblank : t.IsOpen nodes ↔ t.IsOpen nodes' := by
    cases hcomponent : isComponent t.name with
    | true => simp [Tag.IsOpen, hself hcomponent]
    | false =>
      have hhost : Host.ofTag t.name = none := by simp [Host.ofTag, hcomponent]
      rw [hhost] at h
      rw [Tag.isOpen_iff, Tag.isOpen_iff, all_isBlankText_padded h]
  by_cases hopen : t.IsOpen nodes
  · rw [visit_element_eq helement hopen, visit_element_eq helement (hblank.mp hopen),
      contentOf_of_ne_nil hnodes, contentOf_of_ne_nil (h.ne_nil hnodes), map_tag_visitBare,
      map_tag_visitBare]
    exact hseen.map _
  · rw [visit_closed_eq hopen, visit_closed_eq (mt hblank.mpr hopen)]
    exact .refl _

/-- Padding does not matter. -/
theorem visitSeen_padded (h : Padded o host nodes nodes') :
    SameUpTo CompileError.bare (visitSeen o embed host nodes) (visitSeen o embed host nodes') := by
  -- By where the texts are put. In a list they are not seen, or seen like the `span` in their
  -- place; below a node this holds by induction for what is seen of its block.
  induction h with
  | nil => exact .refl _
  | text p h ih =>
    rw [visitSeen_cons, visit_emptyText, pure_bind]
    simpa [seen, Visited.toList, Node.emptyText, contentName?] using ih
  | hosted p hspan h ih =>
    rw [visitSeen_cons, visitSeen_cons, visit_emptySpan _ hspan]
    exact (SameUpTo.refl _).bind fun v => ih.map _
  | same n h ih =>
    rw [visitSeen_cons, visitSeen_cons]
    exact (SameUpTo.refl _).bind fun v => ih.map _
  | @inside host n below xs ys hn hbelow h ihbelow ih =>
    rw [visitSeen_cons, visitSeen_cons]
    refine SameUpTo.bind ?_ fun v => ?_
    -- A tag takes what is seen of its nodes one by one, and all others splice it.
    · cases n with
      | tag t body code p =>
        obtain ⟨nodes, label⟩ := body
        exact visit_element_padded hn hbelow ihbelow
      | leaf | lead | frame | block =>
        refine visit_splices_sameUpTo host hn ?_
        rw [visitList_eq_seen, visitList_eq_seen]
        exact ihbelow.map _
    · have hname : seen [(n.withChildren below, v)] = seen [(n, v)] := by simp [seen]
      rw [hname]
      exact ih.map _

/-- What a component gives is what is seen of its nodes. -/
theorem visit_component_eq {t : Tag} {h : Host} {label : BlockLabel} {code : Option Node}
    (ht : t.IsElement o) (hself : t.selfClosing = false) (hhost : Host.ofTag t.name = some h)
    (hne : nodes ≠ []) :
    visit o embed host (.tag t (.mk nodes label) code p) =
      (fun seen => .one (tagSeen t.name (hostedAttrs host t) t.spreads p seen)) <$>
        visitSeen o embed (some h) nodes := by
  have hopen : t.IsOpen nodes := by simp [Tag.IsOpen, hself]
  rw [visit_element_eq ht hopen, hhost, contentOf_of_ne_nil hne, map_tag_visitBare]

end Visits

/-- A text without characters in the block of a component adds an empty `span`, and nothing else. -/
theorem visit_component_emptyText {o : Options} {embed : Embed (Except CompileError)}
    {host : Option Host} {t : Tag} {h : Host} {label : BlockLabel} {code : Option Node} {p : Place}
    {x : IR} (ht : t.IsElement o) (hself : t.selfClosing = false)
    (hhost : Host.ofTag t.name = some h) (hspan : o.phraseTag ≠ "span") {before after : List Node}
    (hne : before ++ after ≠ [])
    (hx : visit o embed host (.tag t (.mk (before ++ after) label) code p) = .ok (.one x))
    (q : Place) :
    ∃ props first last, x = .tag t.name props (first ++ last) true (.ofPlace p) ∧
      visit o embed host (.tag t (.mk (before ++ .emptyText q :: after) label) code p) =
        .ok (.one (.tag t.name props (first ++ hostedSpan h q :: last) true (.ofPlace p))) := by
  rw [visit_component_eq ht hself hhost hne, visitSeen_append] at hx
  obtain ⟨seen, hseen, hx⟩ := exists_of_map_eq_ok hx
  obtain ⟨first, hfirst, hseen⟩ := exists_of_bind_eq_ok hseen
  obtain ⟨last, hlast, rfl⟩ := exists_of_map_eq_ok hseen
  cases hx
  -- The text gives one more entry between what is seen before it and behind it.
  have hpadded : visitSeen o embed (some h) (before ++ .emptyText q :: after) =
      .ok (first ++ (none, [hostedSpan h q]) :: last) := by
    rw [visitSeen_append, visitSeen_cons, visit_hosted_emptyText h hspan, hfirst, hlast]
    rfl
  have hnonempty : before ++ .emptyText q :: after ≠ [] := by simp
  have hplain : plainSeen (first ++ last) = plainSeen first ++ plainSeen last := flatMap_append
  refine ⟨Props.gather ((hostedAttrs host t).map Props.ofAttr ++ namedSeen (first ++ last))
    t.spreads, plainSeen first, plainSeen last, by rw [tagSeen, hplain], ?_⟩
  rw [visit_component_eq ht hself hhost hnonempty, hpadded]
  simp [tagSeen, plainSeen, namedSeen]

end Compile

/-! ## Verbatim bodies -/

namespace Template

/-- Only blank lines are kept as texts without characters. -/
theorem verbatimText_eq_empty_iff {n base : Nat} {s : List Char}
    (hbase : (Line.ofText n s).isBlank = false → base ≤ (Line.ofText n s).indent) :
    verbatimText base (.ofText n s) = "" ↔ (Line.ofText n s).isBlank = true := by
  cases hb : (Line.ofText n s).isBlank with
  | true => simp [verbatimText, hb]
  | false =>
    have hle : base ≤ (s.takeWhile Text.isIndent).length := hbase hb
    have hcontent : (Line.ofText n s).content ≠ "" := by
      intro hempty
      simp [Line.isBlank, hempty] at hb
    simp [verbatimText, hb, Line.raw_ofText hb, drop_append_of_le_length hle, hcontent]

/-- The tag of a line that keeps the lines below it as text is in the tree. -/
theorem rawTag_mem_walk {source : String} {f : Option String} {root : Node}
    (h : parse source f = .ok root) {i : Line} (hi : i ∈ Line.ofSource source)
    (ht : isTemplate (Line.ofSource source) i = true) {t : Tag}
    (hplan : Plan.ofContent i.content.toList = .ok (.tag t none none true)) :
    .tag t (.plain (verbatim f (bodyOf (Line.ofSource source) i))) none (placeOf f i) ∈
      root.walk := by
  obtain ⟨nodes, hnodes, rfl⟩ := exists_of_map_eq_ok h
  obtain ⟨node, harranged⟩ := exists_arranged hnodes
  obtain ⟨plan, hplan', hbuilds⟩ := builds_of_readLine (harranged.read i hi ht).1
  obtain rfl := Except.ok.inj (hplan.symm.trans hplan')
  have hnode := hbuilds.rawNode?_eq rfl
  obtain ⟨top, htop, hmem⟩ := Node.mem_walkAll.mp
    (harranged.mem_walkAll (increasing_ofSource source) hi ht)
  have hroot : top ∈ (Node.block (.plain nodes) ⟨1, f⟩).walk :=
    Node.mem_walk_of_mem_held (Node.mem_held.mpr (.inr htop))
  have hholder := Node.mem_walk_trans hroot
    (Node.mem_walk_trans hmem (Plan.holder_mem_walk hbuilds))
  rwa [← Option.some.inj hnode] at hholder

end Template

namespace Compile

open Template

/-- The node comes of a line of text. In a component it is a `span`, with something in it if the
line is not blank, and elsewhere it is the text itself. -/
def IsLine (f : Option String) (component : Bool) (l : Line) (x : IR) : Prop :=
  if component then
    ∃ props children, x = .tag "span" props children true (.ofPlace (placeOf f l)) ∧
      (children = [] ↔ l.isBlank = true)
  else ∃ expr, x = .atom (.text expr true) (.ofPlace (placeOf f l))

section Lines

variable {m : Type → Type} [Monad m] [MonadExceptOf CompileError m] {o : Options} {embed : Embed m}
  {host : Option Host} {f : Option String} {base : Nat}

/-- What comes of a line of text: in a component always a node, and elsewhere none for a blank
line. -/
theorem exists_visit_line (o : Options) (embed : Embed m) (host : Option Host) {l : Line}
    (hspan : host.isSome = true → o.phraseTag ≠ "span")
    (hl : verbatimText base l = "" ↔ l.isBlank = true) :
    ∃ v, visit o embed host (.leaf (.text (verbatimText base l)) (placeOf f l)) = pure v ∧
      Forall₂ (IsLine f host.isSome) ([l].filter fun l => host.isSome || !l.isBlank) v.toList := by
  -- No node comes of a text without characters, and such a text is kept of a blank line only.
  have htext : (text (verbatimText base l) (placeOf f l)).toList = [] ↔ l.isBlank = true := by
    rw [← hl, text]
    split
    · next hempty => simpa [Visited.toList] using hempty
    · next hempty => simpa [Visited.toList] using hempty
  cases host with
  | none =>
    refine ⟨text (verbatimText base l) (placeOf f l), by simp [visit, leaf, ofExcept], ?_⟩
    cases hb : l.isBlank with
    | true => simp [hb, htext.mpr hb]
    | false =>
      have hne : (verbatimText base l).isEmpty = false := by
        simpa [hb] using hl
      simp [hb, text, hne, Visited.toList, IsLine]
  | some h =>
    have hphrase : o.phraseTag ≠ h.span.name := hspan rfl
    refine ⟨.one (.tag h.span.name (Props.gather (h.span.attrs.map Props.ofAttr) [])
      (text (verbatimText base l) (placeOf f l)).toList true (.ofPlace (placeOf f l))), ?_, ?_⟩
    · simp [visit, leaf, hostedText, hphrase, ofExcept]
    · exact .cons ⟨_, _, rfl, htext⟩ .nil

variable [LawfulMonad m]

theorem exists_visitBare_lines (o : Options) (embed : Embed m) (host : Option Host)
    {lines : List Line}
    (hspan : host.isSome = true → o.phraseTag ≠ "span")
    (h : ∀ l ∈ lines, verbatimText base l = "" ↔ l.isBlank = true) :
    ∃ results, visitBare o embed host
        (lines.map fun l => .leaf (.text (verbatimText base l)) (placeOf f l)) = pure results ∧
      Forall₂ (IsLine f host.isSome) (lines.filter fun l => host.isSome || !l.isBlank)
        (plainContent results) := by
  induction lines with
  | nil => exact ⟨[], rfl, .nil⟩
  | cons l rest ih =>
    obtain ⟨hl, hrest⟩ := forall_mem_cons.mp h
    obtain ⟨v, hv, hline⟩ := exists_visit_line (f := f) o embed host hspan hl
    obtain ⟨results, hresults, hlines⟩ := ih hrest
    refine ⟨(.leaf (.text (verbatimText base l)) (placeOf f l), v) :: results, ?_, ?_⟩
    · rw [map_cons, visitBare, mapM_cons, ← visitBare, hresults, hv]
      simp [Node.bare]
    · rw [← singleton_append, filter_append]
      exact rel_append hline hlines

/-- The children of a tag around a verbatim body come of the lines that are not blank; in a
component they come of all lines. -/
theorem visit_verbatim {t : Tag} {n : Nat} {lines : List Line} (ht : t.IsElement o)
    (hself : t.selfClosing = false) (hspan : isComponent t.name = true → o.phraseTag ≠ "span")
    (hlines : Line.Consecutive n lines) (p : Place) :
    ∃ props children,
      visit o embed host (.tag t (.plain (verbatim f lines)) none p) =
        pure (.one (.tag t.name props children true (.ofPlace p))) ∧
      Forall₂ (IsLine f (isComponent t.name))
        ((dropBlankEnd lines).filter fun l => isComponent t.name || !l.isBlank) children := by
  have hhost : (Host.ofTag t.name).isSome = isComponent t.name := by
    cases hcomponent : isComponent t.name <;> simp [Host.ofTag, hcomponent]
  have hempty : ∀ l ∈ dropBlankEnd lines,
      verbatimText (commonIndent (dropBlankEnd lines)) l = "" ↔ l.isBlank = true := by
    intro l hl
    obtain ⟨k, s, -, rfl⟩ := hlines.exists_text ((dropBlankEnd_isPrefix lines).subset hl)
    exact verbatimText_eq_empty_iff fun hb => commonIndent_le hl hb
  obtain ⟨results, hresults, hchildren⟩ :=
    exists_visitBare_lines (f := f) o embed (Host.ofTag t.name) (hhost ▸ hspan) hempty
  rw [hhost] at hchildren
  refine ⟨Props.gather ((hostedAttrs host t).map Props.ofAttr ++ namedContent results) t.spreads,
    plainContent results, ?_, hchildren⟩
  have hopen : t.IsOpen (verbatim f lines) := by simp [Tag.IsOpen, hself]
  rw [Block.plain, visit_element_eq ht hopen, contentOf_none, verbatim, hresults, map_pure]
  rfl

end Lines

/-- Texts without characters do not matter where no component hosts them, and where one does they
count for an empty `span`: put into the block of a component, they add one to its children. So the
children of a tag with a verbatim body come of the lines that are not blank, and those of a
component come of all lines. -/
theorem visit_padded (o : Options) (embed : Embed (Except CompileError)) (host : Option Host)
    {t : Tag} (ht : t.IsElement o) :
    (∀ nodes nodes' label code p, (Node.tag t (.mk nodes label) code p).TakesText o →
      Padded o (Host.ofTag t.name) nodes nodes' →
      mapBoth CompileError.bare id (visit o embed host (.tag t (.mk nodes' label) code p)) =
        mapBoth CompileError.bare id (visit o embed host (.tag t (.mk nodes label) code p))) ∧
    (∀ h before after label code p q x, Host.ofTag t.name = some h → t.selfClosing = false →
      o.phraseTag ≠ "span" → before ++ after ≠ [] →
      visit o embed host (.tag t (.mk (before ++ after) label) code p) = .ok (.one x) →
      ∃ props first last, x = .tag t.name props (first ++ last) true (.ofPlace p) ∧
        visit o embed host (.tag t (.mk (before ++ .emptyText q :: after) label) code p) =
          .ok (.one (.tag t.name props (first ++ hostedSpan h q :: last) true (.ofPlace p)))) ∧
    (∀ source f root, Template.parse source f = .ok root →
      ∀ i ∈ Line.ofSource source, isTemplate (Line.ofSource source) i = true →
      Plan.ofContent i.content.toList = .ok (.tag t none none true) → t.selfClosing = false →
      (isComponent t.name = true → o.phraseTag ≠ "span") →
      ∃ body node props children, RawBody (Line.ofSource source) i body ∧ node ∈ root.walk ∧
        visit o embed host node =
          .ok (.one (.tag t.name props children true (.ofPlace (placeOf f i)))) ∧
        Forall₂ (IsLine f (isComponent t.name))
          (body.filter fun l => isComponent t.name || !l.isBlank) children) := by
  refine ⟨?_, ?_, ?_⟩
  · intro nodes nodes' label code p htakes hpadded
    have hsame : SameUpTo CompileError.bare (visit o embed host (.tag t (.mk nodes label) code p))
        (visit o embed host (.tag t (.mk nodes' label) code p)) :=
      visit_element_padded htakes hpadded (visitSeen_padded hpadded)
    rw [SameUpTo, rethrow_eq_mapBoth, rethrow_eq_mapBoth] at hsame
    exact hsame.symm
  · intro h before after label code p q x hhost hself hspan hne hx
    exact visit_component_emptyText ht hself hhost hspan hne hx q
  · intro source f root hparse i hi htemplate hplan hself hspan
    have hinc := increasing_ofSource source
    have hlines := consecutive_bodyOf hinc (Line.consecutive_ofSource source) hi
    obtain ⟨props, children, hvisit, hchildren⟩ :
        ∃ props children, visit o embed host
            (.tag t (.plain (verbatim f (bodyOf (Line.ofSource source) i))) none (placeOf f i)) =
            .ok (.one (.tag t.name props children true (.ofPlace (placeOf f i)))) ∧
          Forall₂ (IsLine f (isComponent t.name))
            ((dropBlankEnd (bodyOf (Line.ofSource source) i)).filter fun l =>
              isComponent t.name || !l.isBlank) children :=
      visit_verbatim ht hself hspan hlines (placeOf f i)
    exact ⟨_, _, props, children, rawBody_dropBlankEnd hinc hi,
      rawTag_mem_walk hparse hi htemplate hplan, hvisit, hchildren⟩

/-- Padding in a list, in a loop, and in a component below it; and a component with a blank line in
its body. -/
theorem visit_padded_both :
    let p : Place := ⟨1, none⟩
    let text : Node := .leaf (.text "a") p
    let loop (nodes : List Node) : Node := .lead (.each "x in xs" "i") (some (.plain nodes)) p
    let card (nodes : List Node) : Node := .tag ⟨"Card", [], [], false⟩ (.plain nodes) none p
    let list : Tag := ⟨"ul", [], [], false⟩
    let nodes := [loop [text, card [.emptySpan p, text]]]
    let nodes' := [.emptyText p, loop [text, .emptyText p, card [.emptyText p, text]]]
    let source := "ul\n  Card.\n    raw\n\n    text"
    let i : Line := ⟨2, 2, "Card.", "  Card."⟩
    let embed : Embed (Except CompileError) := nested {}
    (Padded {} none nodes nodes' ∧
      mapBoth CompileError.bare id (visit {} embed none (.tag list (.plain nodes') none p)) =
        mapBoth CompileError.bare id (visit {} embed none (.tag list (.plain nodes) none p))) ∧
    (∃ x props first last, visit {} embed none (card [text]) = .ok (.one x) ∧
      x = .tag "Card" props (first ++ last) true (.ofPlace p) ∧
      visit {} embed none (card [text, .emptyText p]) = .ok (.one (.tag "Card" props
        (first ++ hostedSpan ⟨"Card", none⟩ p :: last) true (.ofPlace p)))) ∧
    ∃ root, Template.parse source none = .ok root ∧ i ∈ Line.ofSource source ∧
      ∃ body node props children, RawBody (Line.ofSource source) i body ∧ node ∈ root.walk ∧
        visit {} embed none node =
          .ok (.one (.tag "Card" props children true (.ofPlace (placeOf none i)))) ∧
        Forall₂ (IsLine none true) (body.filter fun l => true || !l.isBlank) children := by
  intro p text loop card list nodes nodes' source i embed
  have hlist : list.IsElement {} := ⟨by decide, by decide, by decide⟩
  have hcard : Tag.IsElement {} ⟨"Card", [], [], false⟩ := ⟨by decide, by decide, by decide⟩
  have hhost : Host.ofTag "Card" = some ⟨"Card", none⟩ := by decide +kernel
  have hnone : Host.ofTag "ul" = none := by decide +kernel
  have hcomponent : isComponent "Card" = true := by decide +kernel
  refine ⟨?_, ?_, ?_⟩
  · have hinner : Padded {} (Host.ofTag "Card") [.emptySpan p, text] [.emptyText p, text] := by
      rw [hhost]
      exact .hosted p (by decide) (.same text .nil)
    have hloop : Padded {} none [text, card [.emptySpan p, text]]
        [text, .emptyText p, card [.emptyText p, text]] :=
      .same text (.text p (.inside (n := card [.emptySpan p, text])
        ⟨hcard, cons_ne_nil _ _, fun _ => rfl⟩ hinner .nil))
    have hpadded : Padded {} none nodes nodes' :=
      .text p (.inside (n := loop [text, card [.emptySpan p, text]]) rfl hloop .nil)
    refine ⟨hpadded, (visit_padded {} embed none hlist).1 _ _ _ none p
      ⟨hlist, cons_ne_nil _ _, fun _ => rfl⟩ ?_⟩
    rw [hnone]
    exact hpadded
  · obtain ⟨x, hx⟩ : ∃ x, visit {} embed none (card [text]) = .ok (.one x) :=
      ⟨_, (visit_component_eq hcard rfl hhost (cons_ne_nil _ _)).trans rfl⟩
    obtain ⟨props, first, last, hfirst, hlast⟩ :=
      (visit_padded {} embed none hcard).2.1 _ [text] [] .plain none p p x hhost rfl (by decide)
        (cons_ne_nil _ _) hx
    exact ⟨x, props, first, last, hx, hfirst, hlast⟩
  · have hok : (Template.parse source none).isOk = true := by decide +kernel
    have hi : i ∈ Line.ofSource source := by decide +kernel
    have htemplate : isTemplate (Line.ofSource source) i = true := by decide +kernel
    have hplan : Plan.ofContent i.content.toList =
        .ok (.tag ⟨"Card", [], [], false⟩ none none true) := by decide +kernel
    cases hparse : Template.parse source none with
    | error e =>
      rw [hparse] at hok
      cases hok
    | ok root =>
      have hraw := (visit_padded {} embed none hcard).2.2 source none root hparse i hi htemplate
        hplan rfl fun _ => by decide
      rw [hcomponent] at hraw
      exact ⟨root, rfl, hi, hraw⟩

/-- The numbers of children of the children of the nodes. -/
def childSizes (nodes : List IR) : List Nat :=
  nodes.flatMap fun n => (n.children?.getD []).map fun c => (c.children?.getD []).length

/-- A blank line in the body of a component leaves an empty `span`. -/
theorem source_blank_line_span :
    (Compile.source {} "Card.\n  raw\n\n  text").toOption.map childSizes = some [1, 0, 1] := by
  decide +kernel

end Compile

end Offside
