import Offside.Proofs.Compile.Lists
import Offside.Proofs.IR.Origin

/-!
# Compiling relabelled trees

The compiler hands places through: the provenance of a render node is the place of a template node,
and so is the place of an error. It decides nothing by them. So a tree whose places have changed
compiles to the same nodes with their provenances changed alike, and fails with the same errors
elsewhere (`visit_relabel`).

Captures are where this is not for free, since the visit adds up lines there and compiles text by a
function that is not its own. What has to be known about them is a condition on the filters of the
tree (`Node.Carries`). For trees that are moved down as a whole it always holds (`visit_shift`).
-/

set_option autoImplicit false

namespace Offside

/-! ## Statements that need no relabelling -/

/-- In this monad an outcome is lifted to itself. -/
@[simp] theorem ofExcept_eq {ε α : Type} (x : Except ε α) : (ofExcept x : Except ε α) = x := by
  cases x <;> rfl

namespace Host

@[simp] theorem place_dress (h : Host) (n : Node) : (h.dress n).place = n.place := by
  cases n using Node.induct with
  | leaf l p => cases l <;> simp [dress, Node.place]
  | lead l nodes label p _ => by_cases hl : l.isTransparent <;> simp [dress, Node.place, hl]
  | bare l p | frame f nodes label p _ | block nodes label p _ | tag t nodes label code p _ _ =>
    simp [dress, Node.place]

@[simp] theorem place_dressFor (host : Option Host) (n : Node) :
    (n.dressFor host).place = n.place := by
  cases host <;> simp [Node.dressFor]

@[simp] theorem dressAll_eq_map (h : Host) (nodes : List Node) :
    h.dressAll nodes = nodes.map h.dress := by
  induction nodes with
  | nil => simp [dressAll]
  | cons n rest ih => simp [dressAll, ih]

/-- The classes of a host do not depend on places. -/
theorem dress_mapPlace (g : Place → Place) (h : Host) (n : Node) :
    h.dress (n.mapPlace g) = (h.dress n).mapPlace g := by
  induction n using Node.induct generalizing h with
  | leaf l p => cases l <;> simp [dress, Block.plain]
  | bare l p => simp [dress]
  | lead l nodes label p ih =>
    by_cases hl : l.isTransparent
    · simpa [dress, hl] using fun n hn => ih n hn h
    · simp [dress, hl]
  | frame f nodes label p _ => simp [dress]
  | block nodes label p ih => simpa [dress] using fun n hn => ih n hn (h.inBlock label)
  | tag t nodes label code p _ _ => simp [dress]

theorem dressFor_mapPlace (g : Place → Place) (host : Option Host) (n : Node) :
    (n.mapPlace g).dressFor host = (n.dressFor host).mapPlace g := by
  cases host with
  | none => rfl
  | some h => exact dress_mapPlace g h n

end Host

/-- The visit's result with `g` applied throughout. -/
def Visited.mapOrigin (g : Provenance → Provenance) : Visited → Visited
  | .skip => .skip
  | .one n => .one (n.mapOrigin g)
  | .many nodes => .many (nodes.map (IR.mapOrigin g))

@[simp] theorem Visited.mapOrigin_skip (g : Provenance → Provenance) :
    Visited.skip.mapOrigin g = .skip := rfl

@[simp] theorem Visited.mapOrigin_one (g : Provenance → Provenance) (n : IR) :
    (Visited.one n).mapOrigin g = .one (n.mapOrigin g) := rfl

@[simp] theorem Visited.mapOrigin_many (g : Provenance → Provenance) (nodes : List IR) :
    (Visited.many nodes).mapOrigin g = .many (nodes.map (IR.mapOrigin g)) := rfl

@[simp] theorem Visited.toList_mapOrigin (g : Provenance → Provenance) (v : Visited) :
    (v.mapOrigin g).toList = v.toList.map (IR.mapOrigin g) := by
  cases v <;> rfl

/-- A change of places, with what it does to provenances and to errors, and to the name that the
options give to the template. -/
structure Relabel where
  place : Place → Place
  origin : Provenance → Provenance
  error : CompileError → CompileError
  filename : Option String → Option String := id
  origin_ofPlace : ∀ p, origin (.ofPlace p) = .ofPlace (place p)
  error_unsupported : ∀ what p, error (.unsupported what p) = .unsupported what (place p)
  error_misplaced : ∀ what p, error (.misplaced what p) = .misplaced what (place p)

namespace Relabel

attribute [simp] origin_ofPlace error_unsupported error_misplaced

variable (T : Relabel)

/-- The options with the new name of the template. -/
def options (o : Options) : Options :=
  { o with filename := T.filename o.filename }

@[simp] theorem options_phraseTag (o : Options) : (T.options o).phraseTag = o.phraseTag := rfl

/-- What comes of a visit, relabelled. -/
def visited : Except CompileError Visited → Except CompileError Visited :=
  mapBoth T.error (Visited.mapOrigin T.origin)

/-- A node with its visit, relabelled. -/
def pair (r : Node × Visited) : Node × Visited :=
  (r.1.mapPlace T.place, r.2.mapOrigin T.origin)

/-- A prop, relabelled. -/
def prop : String × PropEntry → String × PropEntry :=
  Prod.map id (PropEntry.mapOrigin T.origin)

end Relabel

namespace Compile

variable (T : Relabel)

/-! ## The parts of a visit -/

@[simp] theorem linesOf_map (g : Place → Place) (nodes : List Node) :
    linesOf (nodes.map (Node.mapPlace g)) = linesOf nodes := by
  simp [linesOf, Function.comp_def]

@[simp] theorem isBlankText_mapPlace (g : Place → Place) (n : Node) :
    isBlankText (n.mapPlace g) = isBlankText n := by
  simp [isBlankText]

theorem isOpen_mapPlace (g : Place → Place) {t : Tag} {nodes : List Node} :
    t.IsOpen (nodes.map (Node.mapPlace g)) ↔ t.IsOpen nodes := by
  simp [Tag.IsOpen]

@[simp] theorem contentName?_mapPlace (g : Place → Place) (n : Node) :
    contentName? (n.mapPlace g) = contentName? n := by
  cases n with
  | block body p =>
    obtain ⟨nodes, label⟩ := body
    obtain ⟨name, args, isSub⟩ := label
    cases name <;> simp [contentName?]
  | leaf l p | lead l body p | frame f body p | tag t body code p => simp [contentName?]

theorem ofAttr_relabel (attrs : List Attr) :
    (attrs.map Props.ofAttr).map T.prop = attrs.map Props.ofAttr := by
  rw [List.map_map]
  rfl

theorem leaf_relabel (o : Options) (host : Option Host) (p : Place) (l : Leaf) :
    leaf (T.options o) host (T.place p) l = T.visited (leaf o host p l) := by
  cases l with
  | text t =>
    have htext : text t (T.place p) = (text t p).mapOrigin T.origin := by
      by_cases ht : t.isEmpty <;> simp [text, ht]
    cases host with
    | none => simp [leaf, htext, Relabel.visited]
    | some h =>
      by_cases ho : o.phraseTag = h.span.name
      · simp [leaf, hostedText, ho, Relabel.visited]
      · have hprops : Props.gather (h.span.attrs.map Props.ofAttr) [] = _ :=
          (congrArg (Props.gather · []) (ofAttr_relabel T h.span.attrs)).symm.trans
            (Props.gather_map T.origin (h.span.attrs.map Props.ofAttr) [])
        simp [leaf, hostedText, ho, htext, Relabel.visited, ← hprops]
  | comment value buffer => simp [leaf, comment, Relabel.visited]
  | literal expr buffer escape | yield name args =>
    simp [leaf, Relabel.visited]
  | mixinBlock | doctype t => simp [leaf, Relabel.visited]

theorem namedContent_relabel (results : List (Node × Visited)) :
    namedContent (results.map T.pair) = (namedContent results).map T.prop := by
  simp only [namedContent, List.filterMap_map, List.map_filterMap]
  congr 1
  funext r
  cases h : contentName? r.1 <;>
    simp [Relabel.pair, Relabel.prop, PropEntry.mapOrigin, h]

theorem plainContent_relabel (results : List (Node × Visited)) :
    plainContent (results.map T.pair) = (plainContent results).map (IR.mapOrigin T.origin) := by
  simp only [plainContent, List.flatMap_map, List.map_flatMap]
  congr 1
  funext r
  by_cases h : (contentName? r.1).isSome <;> simp [Relabel.pair, h]

theorem tag_relabel (name : String) (attrs : List Attr) (spreads : List String)
    (results : List (Node × Visited)) (p : Place) :
    tag name attrs spreads (results.map T.pair) (T.place p) =
      (tag name attrs spreads results p).mapOrigin T.origin := by
  rw [tag, namedContent_relabel, plainContent_relabel, ← ofAttr_relabel T, ← List.map_append,
    Relabel.prop, Props.gather_map, tag, IR.mapOrigin_tag, T.origin_ofPlace]

theorem fragmentName_relabel (p : Place) (n : Node) :
    fragmentName (T.place p) (n.mapPlace T.place) = mapBoth T.error id (fragmentName p n) := by
  cases n with
  | block body q =>
    obtain ⟨nodes, label⟩ := body
    obtain ⟨name, args, isSub⟩ := label
    cases name <;> simp [fragmentName]
  | leaf l q | lead l body q | frame f body q | tag t body code q => simp [fragmentName]

theorem fragment_relabel (name : String) (v : Visited) :
    fragment name (v.mapOrigin T.origin) = T.prop (fragment name v) := by
  unfold fragment
  rw [Visited.toList_mapOrigin]
  cases v.toList with
  | nil => rfl
  | cons n rest =>
    cases n with
    | atom a origin => rfl
    | group head children origin => cases rest <;> simp [Relabel.prop, PropEntry.mapOrigin]
    | tag tagName props children buffer origin =>
      cases rest with
      | nil =>
        have hkey := Ordered.insert_map (PropEntry.mapOrigin T.origin) "key"
          (.key name (Json.quote name)) props
        simp [Relabel.prop, PropEntry.mapOrigin, ← hkey]
      | cons m rest => simp [Relabel.prop, PropEntry.mapOrigin]

theorem phrase_relabel (name : String) (attrs : List Attr) (spreads : List String)
    (fragments : List (String × PropEntry)) (p : Place) :
    phrase name attrs spreads (fragments.map T.prop) (T.place p) =
      (phrase name attrs spreads fragments p).mapOrigin T.origin := by
  rw [phrase, ← ofAttr_relabel T, ← List.map_append, Relabel.prop, Props.gatherPhrase_map, phrase,
    IR.mapOrigin_tag, T.origin_ofPlace, List.map_nil]

theorem signature_relabel (nodes : List Node) (p : Place) :
    signature (nodes.map (Node.mapPlace T.place)) (T.place p) =
      mapBoth T.error id (signature nodes p) := by
  cases nodes with
  | nil => simp [signature]
  | cons first rest => cases h : first.text? <;> simp [signature, h]

theorem statementTag_relabel (name : String) (nodes : List Node) (p : Place) :
    statementTag name (nodes.map (Node.mapPlace T.place)) (T.place p) =
      T.visited (statementTag name nodes p) := by
  have hlines : (nodes.map (Node.mapPlace T.place)).mapM (statementLine name) =
      mapBoth T.error id (nodes.mapM (statementLine name)) := by
    induction nodes with
    | nil => rfl
    | cons n rest ih =>
      rw [List.map_cons, List.mapM_cons, List.mapM_cons, ih]
      cases ht : n.text? with
      | none => simp [statementLine, ht, bind, Except.bind]
      | some t =>
        cases hrest : rest.mapM (statementLine name) <;>
          simp [statementLine, ht, bind, Except.bind, pure, Except.pure]
  rw [statementTag, hlines, statementTag]
  cases nodes.mapM (statementLine name) <;>
    simp [bind, Except.bind, Relabel.visited]

/-! ## The conditions on a tree -/

end Compile

/-- The node is one that a visit carries over: its statement has a known code, unless the complaint
about it can be relabelled as well, and its capture is compiled alike by `embed'` at the new place
and by `embed` at the old one. -/
def Node.Carries (T : Relabel) (o : Options) (embed embed' : Embed (Except CompileError)) :
    Node → Prop
  | .lead (.code coded _ _) _ _ =>
    (Statement.decode? coded).isSome = true ∨
      ∀ found node, T.error (.violation found node) = .violation found (node.mapPlace T.place)
  | .frame (.filter name attrs) body p =>
    name = "capture" →
      Compile.capture (T.options o) embed' attrs (Compile.linesOf body.nodes) (T.place p) =
        T.visited (Compile.capture o embed attrs (Compile.linesOf body.nodes) p)
  | _ => True

namespace Compile

variable {T : Relabel} {o : Options} {embed embed' : Embed (Except CompileError)}

theorem lead_relabel (host : Option Host) {l : Lead} {body : Option Block} {p : Place}
    (h : (Node.lead l body p).Carries T o embed embed') :
    lead (Node.dressFor host (.lead l (body.map (Block.mapPlace T.place)) (T.place p))) l =
      mapBoth T.error id (lead (Node.dressFor host (.lead l body p)) l) := by
  cases l with
  | code coded buffer escape =>
    cases hs : Statement.decode? coded with
    | some decoded => simp [lead, hs]
    | none =>
      have hviolation := h.resolve_left (by simp [hs])
      simp only [lead, hs, mapBoth_error, hviolation, ← Host.dressFor_mapPlace, Node.mapPlace_lead]
  | each header key | when expr => simp [lead]
  | mixin name args call =>
    simp only [lead, Host.place_dressFor, mapBoth_error, T.error_unsupported]
    rfl

theorem fill_relabel (shell : Shell) (children : List IR) (p : Place) :
    shell.fill (children.map (IR.mapOrigin T.origin)) (T.place p) =
      (shell.fill children p).mapOrigin T.origin := by
  cases shell <;> simp [Shell.fill]

theorem block_relabel (label : BlockLabel) (children : List IR) (p : Place) :
    block (T.options o) label (T.place p) (children.map (IR.mapOrigin T.origin)) =
      (block o label p children).mapOrigin T.origin := by
  have hslot : slotName? (T.options o) label = slotName? o label := rfl
  rw [block, hslot, block]
  split <;> simp

/-! ## The visit -/

/-- The visit of this node can be relabelled, whoever hosts it. -/
def Relabels (T : Relabel) (o : Options) (embed embed' : Embed (Except CompileError)) (n : Node) :
    Prop :=
  ∀ host, visit (T.options o) embed' host (n.mapPlace T.place) = T.visited (visit o embed host n)

theorem visitEach_relabel {nodes : List Node} (h : ∀ n ∈ nodes, Relabels T o embed embed' n)
    (host : Option Host) :
    visitEach (T.options o) embed' host (nodes.map (Node.mapPlace T.place)) =
      mapBoth T.error (List.map T.pair) (visitEach o embed host nodes) := by
  induction nodes with
  | nil => simp [visitEach, pure, Except.pure]
  | cons n rest ih =>
    have hrest := ih fun m hm => h m (List.mem_cons_of_mem _ hm)
    rw [List.map_cons, visitEach, visitEach, h n List.mem_cons_self host, hrest]
    exact mapBoth_bind fun v => mapBoth_bind fun others => rfl

theorem visitFragments_relabel {nodes : List Node}
    (h : ∀ n ∈ nodes, Relabels T o embed embed' n) (p : Place) :
    visitFragments (T.options o) embed' (T.place p) (nodes.map (Node.mapPlace T.place)) =
      mapBoth T.error (List.map T.prop) (visitFragments o embed p nodes) := by
  induction nodes with
  | nil => simp [visitFragments, pure, Except.pure]
  | cons n rest ih =>
    have hrest := ih fun m hm => h m (List.mem_cons_of_mem _ hm)
    rw [List.map_cons, visitFragments, visitFragments, h n List.mem_cons_self none, hrest,
      fragmentName_relabel, ofExcept_eq, ofExcept_eq]
    refine mapBoth_bind fun name => mapBoth_bind fun v => mapBoth_bind fun others => ?_
    rw [id_eq, fragment_relabel]
    rfl

theorem visitList_relabel {nodes : List Node} (h : ∀ n ∈ nodes, Relabels T o embed embed' n)
    (host : Option Host) :
    visitList (T.options o) embed' host (nodes.map (Node.mapPlace T.place)) =
      mapBoth T.error (List.map (IR.mapOrigin T.origin)) (visitList o embed host nodes) := by
  rw [visitList, visitEach_relabel h, visitList]
  cases visitEach o embed host nodes with
  | error e => rfl
  | ok results =>
    simp [Functor.map, Except.map, List.flatMap_map, List.map_flatMap, Relabel.pair]

/-! ### The kinds of nodes -/

variable {p : Place} {nodes : List Node} {label : BlockLabel}

theorem visit_lead_relabel {l : Lead} {body : Option Block}
    (hself : (Node.lead l body p).Carries T o embed embed')
    (h : ∀ n ∈ (Node.lead l body p).children, Relabels T o embed embed' n) :
    Relabels T o embed embed' (.lead l body p) := by
  intro host
  have hchildren := Node.children_mapPlace T.place (.lead l body p)
  rw [Node.mapPlace_lead] at hchildren ⊢
  rw [visit_lead_eq, visit_lead_eq, hchildren, lead_relabel host hself, visitList_relabel h,
    ofExcept_eq, ofExcept_eq]
  refine mapBoth_bind fun shell => mapBoth_bind fun children => ?_
  rw [id_eq, fill_relabel]
  rfl

theorem visit_frame_relabel {f : Frame}
    (hself : (Node.frame f (.mk nodes label) p).Carries T o embed embed')
    (h : ∀ n ∈ nodes, Relabels T o embed embed' n) :
    Relabels T o embed embed' (.frame f (.mk nodes label) p) := by
  intro host
  rw [Node.mapPlace_frame, Block.mapPlace_mk]
  cases f with
  | comment text buffer =>
    have htext : Node.text? ∘ Node.mapPlace T.place = Node.text? :=
      funext (Node.text?_mapPlace T.place)
    rw [visit, visit, List.filterMap_map, htext]
    simp [comment, Relabel.visited, pure, Except.pure]
  | caseOf expr =>
    rw [visit_case_eq, visit_case_eq, visitList_relabel h]
    refine mapBoth_bind fun children => ?_
    simp [pure, Except.pure]
  | filter name attrs =>
    rw [visit, visit, filter, filter, linesOf_map]
    by_cases hname : name = "capture"
    · -- The text of a capture is compiled elsewhere, so there is no induction hypothesis for it.
      rw [if_pos hname, if_pos hname]
      exact hself hname
    · rw [if_neg hname, if_neg hname]
      simp [Relabel.visited, pure, Except.pure]

theorem visit_block_relabel (h : ∀ n ∈ nodes, Relabels T o embed embed' n) :
    Relabels T o embed embed' (.block (.mk nodes label) p) := by
  intro host
  rw [Node.mapPlace_block, Block.mapPlace_mk, visit_block_eq, visit_block_eq, visitList_relabel h]
  refine mapBoth_bind fun children => ?_
  rw [block_relabel]
  rfl

section Tags

variable {t : Tag} {code : Option Node}

theorem visit_closed_relabel (hclosed : ¬t.IsOpen nodes) :
    Relabels T o embed embed' (.tag t (.mk nodes label) code p) := by
  intro host
  have hclosed' : ¬t.IsOpen (nodes.map (Node.mapPlace T.place)) := by rwa [isOpen_mapPlace]
  rw [Node.mapPlace_tag, Block.mapPlace_mk, visit_closed_eq hclosed', visit_closed_eq hclosed]
  simp [Relabel.visited, throw, throwThe, MonadExceptOf.throw]

theorem visit_phrase_relabel (hname : t.name = o.phraseTag) (hopen : t.IsOpen nodes)
    (h : ∀ n ∈ contentOf nodes code, Relabels T o embed embed' n) :
    Relabels T o embed embed' (.tag t (.mk nodes label) code p) := by
  intro host
  have hopen' : t.IsOpen (nodes.map (Node.mapPlace T.place)) := by rwa [isOpen_mapPlace]
  have hname' : t.name = (T.options o).phraseTag := hname
  rw [Node.mapPlace_tag, Block.mapPlace_mk, visit_phrase_eq hname' hopen',
    visit_phrase_eq hname hopen, contentOf_map, visitFragments_relabel h]
  refine mapBoth_bind fun fragments => ?_
  rw [phrase_relabel]
  rfl

theorem visit_statement_relabel (hphrase : t.name ≠ o.phraseTag)
    (hname : Tag.isStatement t.name = true) (hopen : t.IsOpen nodes) :
    Relabels T o embed embed' (.tag t (.mk nodes label) code p) := by
  intro host
  have hopen' : t.IsOpen (nodes.map (Node.mapPlace T.place)) := by rwa [isOpen_mapPlace]
  have hphrase' : t.name ≠ (T.options o).phraseTag := hphrase
  rw [Node.mapPlace_tag, Block.mapPlace_mk, visit_statement_eq hphrase' hname hopen',
    visit_statement_eq hphrase hname hopen, ofExcept_eq, ofExcept_eq, statementTag_relabel]

theorem visit_function_relabel (hphrase : t.name ≠ o.phraseTag) (hname : t.name = "function")
    (hopen : t.IsOpen nodes) (h : ∀ n ∈ nodes.tail, Relabels T o embed embed' n) :
    Relabels T o embed embed' (.tag t (.mk nodes label) code p) := by
  intro host
  have hopen' : t.IsOpen (nodes.map (Node.mapPlace T.place)) := by rwa [isOpen_mapPlace]
  have hphrase' : t.name ≠ (T.options o).phraseTag := hphrase
  rw [Node.mapPlace_tag, Block.mapPlace_mk, visit_function_eq hphrase' hname hopen',
    visit_function_eq hphrase hname hopen, signature_relabel, List.map_tail.symm,
    visitList_relabel h, ofExcept_eq, ofExcept_eq]
  -- The signature is on the first node alone, and a failure there comes before the others are
  -- visited.
  refine mapBoth_bind fun sig => mapBoth_bind fun children => ?_
  simp [pure, Except.pure]

theorem visit_element_relabel (ht : t.IsElement o) (hopen : t.IsOpen nodes)
    (h : ∀ n ∈ contentOf nodes code, Relabels T o embed embed' n) :
    Relabels T o embed embed' (.tag t (.mk nodes label) code p) := by
  intro host
  have hopen' : t.IsOpen (nodes.map (Node.mapPlace T.place)) := by rwa [isOpen_mapPlace]
  have ht' : t.IsElement (T.options o) := ⟨ht.not_phrase, ht.not_statement, ht.not_function⟩
  -- Visits are compared with the nodes they belong to, since named content is told by those.
  rw [Node.mapPlace_tag, Block.mapPlace_mk, visit_element_eq_visitEach ht' hopen',
    visit_element_eq_visitEach ht hopen, contentOf_map, visitEach_relabel h]
  cases visitEach o embed (Host.ofTag t.name) (contentOf nodes code) with
  | error e => rfl
  | ok results =>
    exact congrArg (fun n => Except.ok (Visited.one n))
      (tag_relabel T t.name (hostedAttrs host t) t.spreads results p)

theorem visit_tag_relabel (hnodes : ∀ n ∈ nodes, Relabels T o embed embed' n)
    (hcode : ∀ c, code = some c → Relabels T o embed embed' c) :
    Relabels T o embed embed' (.tag t (.mk nodes label) code p) := by
  have hcontent := forall_mem_contentOf hnodes hcode
  by_cases hopen : t.IsOpen nodes
  · cases t.kind o with
    | phrase hname => exact visit_phrase_relabel hname hopen hcontent
    | statement hphrase hname => exact visit_statement_relabel hphrase hname hopen
    | function hphrase hname =>
      exact visit_function_relabel hphrase hname hopen fun n hn =>
        hnodes n (List.mem_of_mem_tail hn)
    | element ht => exact visit_element_relabel ht hopen hcontent
  · exact visit_closed_relabel hopen

end Tags

/-- A tree with its places changed compiles to the same nodes, with their provenances changed, or
fails with the same error elsewhere. -/
theorem visit_relabel {n : Node} (h : ∀ m ∈ n.walk, m.Carries T o embed embed') :
    Relabels T o embed embed' n := by
  -- Only captures are compiled by `embed`, so all that is asked of a node is what `h` says of it.
  induction n using Node.induct with
  | leaf l p =>
    intro host
    rw [Node.mapPlace_leaf, visit, visit, ofExcept_eq, ofExcept_eq, leaf_relabel]
  | bare l p =>
    exact visit_lead_relabel (h _ (by simp [Node.walk])) (by simp [Node.children])
  | lead l nodes label p ih =>
    obtain ⟨hself, hbelow, -⟩ := Node.forall_mem_walk.mp h
    exact visit_lead_relabel hself fun n hn => ih n hn (hbelow n hn)
  | frame f nodes label p ih =>
    obtain ⟨hself, hbelow, -⟩ := Node.forall_mem_walk.mp h
    exact visit_frame_relabel hself fun n hn => ih n hn (hbelow n hn)
  | block nodes label p ih =>
    obtain ⟨-, hbelow, -⟩ := Node.forall_mem_walk.mp h
    exact visit_block_relabel fun n hn => ih n hn (hbelow n hn)
  | tag t nodes label code p ih ihc =>
    obtain ⟨-, hbelow, hcode⟩ := Node.forall_mem_walk.mp h
    exact visit_tag_relabel (fun n hn => ih n hn (hbelow n hn)) fun c hc => ihc c hc (hcode c hc)

/-! ## Captures -/

/-- An assignment does not show where the captured nodes come from. -/
@[simp] theorem assignment_shift (o : Options) (attrs : List Attr) (source : String)
    (offset : UInt64) (nodes : List IR) :
    assignment o attrs source (nodes.map (IR.shift offset)) = assignment o attrs source nodes := by
  simp only [assignment, IR.shift, IR.listing_map]

/-- A capture is the compiled text further down, behind its assignment. -/
theorem capture_eq (o : Options) (embed : Embed (Except CompileError)) (attrs : List Attr)
    (source : String) (p : Place) :
    capture o embed attrs source p =
      mapBoth (CompileError.shift p.line)
        (fun nodes => .many
          (.atom (.statement .var (assignment o attrs source nodes)) (.ofPlace p) ::
            nodes.map (IR.shift p.line)))
        (embed source (p.filename <|> o.filename)) := by
  unfold capture
  cases embed source (p.filename <|> o.filename) with
  | error e => rfl
  | ok nodes =>
    rw [mapBoth_ok, ← assignment_shift o attrs source p.line]
    rfl

end Compile

theorem CompileError.shift_shift (a b : UInt64) (e : CompileError) :
    (e.shift a).shift b = e.shift (a + b) := by
  cases e <;> simp [shift, ParseError.shift, Place.shift, UInt64.add_assoc]

namespace Relabel

/-- Moving down by `offset` lines. -/
def down (offset : UInt64) : Relabel where
  place := Place.shift offset
  origin := Provenance.shift offset
  error := CompileError.shift offset
  origin_ofPlace _ := rfl
  error_unsupported _ _ := rfl
  error_misplaced _ _ := rfl

end Relabel

namespace Compile

/-- A capture that is moved down is compiled like before and moved down as a whole. -/
theorem capture_shift (o : Options) (embed : Embed (Except CompileError)) (attrs : List Attr)
    (source : String) (offset : UInt64) (p : Place) :
    capture o embed attrs source (p.shift offset) =
      (Relabel.down offset).visited (capture o embed attrs source p) := by
  have hfile : (p.shift offset).filename = p.filename := rfl
  have hline : (p.shift offset).line = p.line + offset := rfl
  rw [capture_eq, capture_eq, hfile, hline]
  cases embed source (p.filename <|> o.filename) with
  | error e => simp [Relabel.visited, Relabel.down, CompileError.shift_shift]
  | ok nodes =>
    -- Moving the nodes down by both offsets at once is moving them twice.
    have hnodes : nodes.map (IR.shift (p.line + offset)) =
        (nodes.map (IR.shift p.line)).map (IR.shift offset) := by
      simp [IR.shift_shift]
    rw [mapBoth_ok, hnodes]
    simp [Relabel.visited, Relabel.down, IR.shift, Provenance.ofPlace, Provenance.shift,
      Place.shift]

end Compile

end Offside
