import Mathlib.Logic.Relation
import Offside.Proofs.Compile.Effects
import Offside.Proofs.Compile.Kept
import Offside.Proofs.Compile.Lists

/-!
# Blocks that leave no trace

A block that is no slot of a layout gives the list of what its nodes give, and the list around it
takes that up in place. Such a block is transparent: where compiled nodes are put into a list, it
can be replaced by its own nodes, anywhere in a tree and as often as one likes, and nothing changes,
neither what is compiled, nor which error comes first, nor what the front end is asked
(`visitRoot_inlined`).

This leaves tags out. A tag asks of each of its nodes whether it is a named block, and a component
puts on its nodes a class that tells the block they are in.

A visit reads off the nodes below only what they give and what they are by themselves, and inlining
further down changes neither. The one place where more of a node is told is the error about a
statement of unknown code, which shows the whole of it; it is compared without what is below the
statement (`CompileError.bare`).
-/

set_option autoImplicit false

namespace Offside

open List

namespace Node

/-- The node with other nodes in its block. -/
def withChildren (nodes : List Node) : Node → Node
  | .leaf l p => .leaf l p
  | .lead l none p => .lead l none p
  | .lead l (some (.mk _ label)) p => .lead l (some (.mk nodes label)) p
  | .frame f (.mk _ label) p => .frame f (.mk nodes label) p
  | .block (.mk _ label) p => .block (.mk nodes label) p
  | .tag t (.mk _ label) code p => .tag t (.mk nodes label) code p

@[simp] theorem bare_withChildren (nodes : List Node) (n : Node) :
    (n.withChildren nodes).bare = n.bare := by
  cases n using induct <;> rfl

end Node

namespace Compile

@[simp] theorem isBlankText_withChildren (nodes : List Node) (n : Node) :
    isBlankText (n.withChildren nodes) = isBlankText n := by
  rw [← isBlankText_bare, Node.bare_withChildren, isBlankText_bare]

@[simp] theorem contentName?_withChildren (nodes : List Node) (n : Node) :
    contentName? (n.withChildren nodes) = contentName? n := by
  rw [← contentName?_bare, Node.bare_withChildren, contentName?_bare]

end Compile

/-- The error with the node that it shows by itself. -/
def CompileError.bare : CompileError → CompileError
  | .violation found node => .violation found node.bare
  | e => e

/-! ## Transparent blocks -/

/-- The block is no slot of a layout: it has no name, it is a sub-block, or its name does not start
with the marker. -/
def BlockLabel.IsTransparent (o : Options) (label : BlockLabel) : Prop :=
  label.name = none ∨ label.isSub = true ∨
    ∃ name, label.name = some name ∧ name.toList.head? ≠ some o.blockMarker

theorem Compile.slotName?_eq_none_iff {o : Options} {label : BlockLabel} :
    slotName? o label = none ↔ label.IsTransparent o := by
  rcases label with ⟨_ | name, args, _ | _⟩
  · simp [slotName?, BlockLabel.IsTransparent]
  · simp [slotName?, BlockLabel.IsTransparent]
  · cases hname : name.toList <;> simp [slotName?, BlockLabel.IsTransparent, hname]
  · simp [slotName?, BlockLabel.IsTransparent]

/-- The node puts what its nodes give into one list. -/
def Node.splices : Node → Bool
  | .block _ _ | .frame (.caseOf _) _ _ => true
  | .lead (.code _ _ _) _ _ | .lead (.each _ _) _ _ | .lead (.when _) _ _ => true
  | .leaf _ _ | .lead (.mixin _ _ _) _ _ | .frame (.comment _ _) _ _ | .frame (.filter _ _) _ _
  | .tag _ _ _ _ => false

/-- The host of what is in the block of a node. -/
def Node.hostBelow (host : Option Host) : Node → Option Host
  | .lead l _ _ => if l.isTransparent then host else none
  | .block body _ => host.map fun h => h.inBlock body.label
  | .tag t _ _ _ => Host.ofTag t.name
  | .leaf _ _ | .frame _ _ _ => none

theorem Node.hostBelow_none {n : Node} (h : n.splices = true) : n.hostBelow none = none := by
  cases n with
  | leaf l p | frame f body p | block body p => rfl
  | lead l body p => exact ite_self none
  | tag t body code p => cases h

/-- The second tree is the first with one transparent block, from the list of a node that splices,
replaced by the nodes of the block. -/
inductive Inlines (o : Options) : Node → Node → Prop
  | splice {n : Node} {nodes : List Node} {label : BlockLabel} {p : Place}
      (before after : List Node) (hn : n.splices = true) (hlabel : label.IsTransparent o)
      (hchildren : n.children = before ++ .block (.mk nodes label) p :: after) :
      Inlines o n (n.withChildren (before ++ nodes ++ after))
  | child {n k k' : Node} (before after : List Node) (hchildren : n.children = before ++ k :: after)
      (h : Inlines o k k') : Inlines o n (n.withChildren (before ++ k' :: after))
  | code {t : Tag} {body : Block} {c c' : Node} {p : Place} (h : Inlines o c c') :
      Inlines o (.tag t body (some c) p) (.tag t body (some c') p)

/-- The node is no component. -/
def Node.IsPlain : Node → Prop
  | .tag t _ _ _ => isComponent t.name = false
  | _ => True

namespace Node

theorem isPlain_withChildren {n : Node} {nodes : List Node} (hn : ∀ m ∈ n.walk, m.IsPlain)
    (hnodes : ∀ k ∈ nodes, ∀ m ∈ k.walk, m.IsPlain) :
    ∀ m ∈ (n.withChildren nodes).walk, m.IsPlain := by
  obtain ⟨hroot, -, hcode⟩ := forall_mem_walk.mp hn
  cases n using induct with
  | leaf l p | bare l p => exact hn
  | lead l nodes' label p | frame f nodes' label p | block nodes' label p
  | tag t nodes' label code p => exact forall_mem_walk.mpr ⟨hroot, hnodes, hcode⟩

theorem surfaces_append (o : Options) (xs ys : List Node) :
    surfaces o (xs ++ ys) = surfaces o xs ++ surfaces o ys := by
  induction xs with
  | nil => simp [surfaces]
  | cons n rest ih => simp [surfaces, ih]

end Node

namespace Inlines

variable {o : Options} {n n' : Node}

theorem bare_eq (h : Inlines o n n') : n.bare = n'.bare := by
  cases h with
  | splice before after hn hlabel hchildren => rw [Node.bare_withChildren]
  | child before after hchildren h => rw [Node.bare_withChildren]
  | @code t body c c' p h => cases body; rfl

/-- Inlining brings no component in. -/
theorem isPlain (h : Inlines o n n') (hn : ∀ m ∈ n.walk, m.IsPlain) :
    ∀ m ∈ n'.walk, m.IsPlain := by
  induction h with
  | @splice n nodes label p before after _ hlabel hchildren =>
    obtain ⟨-, hbelow, -⟩ := Node.forall_mem_walk.mp hn
    rw [hchildren, forall_mem_append, forall_mem_cons] at hbelow
    obtain ⟨hbefore, hblock, hafter⟩ := hbelow
    have hnodes : ∀ k ∈ nodes, ∀ m ∈ k.walk, m.IsPlain := (Node.forall_mem_walk.mp hblock).2.1
    exact Node.isPlain_withChildren hn
      (forall_mem_append.mpr ⟨forall_mem_append.mpr ⟨hbefore, hnodes⟩, hafter⟩)
  | @child n k k' before after hchildren h ih =>
    obtain ⟨-, hbelow, -⟩ := Node.forall_mem_walk.mp hn
    rw [hchildren, forall_mem_append, forall_mem_cons] at hbelow
    obtain ⟨hbefore, hk, hafter⟩ := hbelow
    exact Node.isPlain_withChildren hn
      (forall_mem_append.mpr ⟨hbefore, forall_mem_cons.mpr ⟨ih hk, hafter⟩⟩)
  | @code t body c c' p h ih =>
    obtain ⟨hroot, hbelow, hcode⟩ := Node.forall_mem_walk.mp hn
    refine Node.forall_mem_walk.mpr ⟨hroot, hbelow, fun k hk => ?_⟩
    cases hk
    exact ih (hcode c rfl)

end Inlines

namespace Compile

section Inlined

variable {m : Type → Type} [Monad m] [MonadExceptOf CompileError m] {o : Options} {embed : Embed m}
  {p : Place} {nodes nodes' : List Node} {n n' : Node}

/-- The nodes are the same by themselves, and visiting them does the same. -/
structure Like (o : Options) (embed : Embed m) (n n' : Node) : Prop where
  bare_eq : n.bare = n'.bare
  visits : SameUpTo CompileError.bare (visit o embed none n) (visit o embed none n')

theorem Like.refl (n : Node) : Like o embed n n :=
  ⟨rfl, .refl _⟩

theorem map_bare_of_like (h : Forall₂ (Like o embed) nodes nodes') :
    nodes.map Node.bare = nodes'.map Node.bare := by
  induction h with
  | nil => rfl
  | cons hn _ ih => rw [map_cons, map_cons, hn.bare_eq, ih]

variable [LawfulErrors m]

theorem visitList_singleton (n : Node) :
    visitList o embed none [n] = Visited.toList <$> visit o embed none n := by
  simp [visitList_cons, visitList_nil]

theorem visitList_surfaces_of
    (h : ∀ n ∈ nodes,
      visitList o embed none (n.surface o) = Visited.toList <$> visit o embed none n) :
    visitList o embed none (Node.surfaces o nodes) = visitList o embed none nodes := by
  induction nodes with
  | nil => rfl
  | cons n rest ih =>
    obtain ⟨hn, hrest⟩ := forall_mem_cons.mp h
    rw [Node.surfaces, visitList_append, hn, ih hrest, visitList_cons]
    simp

/-- A node gives what is left of it without transparent blocks and empty texts. -/
theorem visitList_surface (n : Node) :
    visitList o embed none (n.surface o) = Visited.toList <$> visit o embed none n := by
  -- Only empty text and blocks that are no slots have another surface than themselves.
  induction n using Node.induct with
  | leaf l p =>
    cases l with
    | text t =>
      rw [Node.surface]
      split
      · next ht => simp [visitList_nil, visit, leaf, text, ht, ofExcept, Visited.toList]
      · exact visitList_singleton _
    | comment | literal | yield | mixinBlock | doctype => exact visitList_singleton _
  | bare l p | lead l nodes label p ih | frame f nodes label p ih
  | tag t nodes label code p ih ihc => exact visitList_singleton _
  | block nodes label p ih =>
    rw [Node.surface]
    split
    · exact visitList_singleton _
    · next hslot =>
      rw [Option.not_isSome_iff_eq_none] at hslot
      simp [visitList_surfaces_of ih, visit_block_eq, block, hslot, Visited.toList]

theorem visitList_inlined {label : BlockLabel} (hlabel : label.IsTransparent o)
    (before nodes after : List Node) :
    visitList o embed none (before ++ .block (.mk nodes label) p :: after) =
      visitList o embed none (before ++ nodes ++ after) := by
  have hslot : slotName? o label = none := slotName?_eq_none_iff.mpr hlabel
  -- The two lists have the same surface, and a list gives what its surface gives.
  have hsurface : Node.surfaces o (before ++ .block (.mk nodes label) p :: after) =
      Node.surfaces o (before ++ nodes ++ after) := by
    simp [Node.surfaces_append, Node.surfaces, Node.surface, hslot]
  rw [← visitList_surfaces_of fun n _ => visitList_surface n, hsurface,
    visitList_surfaces_of fun n _ => visitList_surface n]

/-! ## One step -/

theorem visitList_sameUpTo (h : Forall₂ (Like o embed) nodes nodes') :
    SameUpTo CompileError.bare (visitList o embed none nodes) (visitList o embed none nodes') := by
  rw [visitList_eq_mapM, visitList_eq_mapM]
  exact (SameUpTo.mapM (h.imp fun _ _ hn => hn.visits.map _)).map _

theorem lead_bare (n : Node) (l : Lead) :
    mapBoth CompileError.bare id (lead n l) = mapBoth CompileError.bare id (lead n.bare l) := by
  have hbare : n.bare.bare = n.bare := by cases n using Node.induct <;> rfl
  cases l with
  | code coded buffer escape =>
    simp only [lead]
    cases Statement.decode? coded with
    | none => simp [CompileError.bare, hbare]
    | some s => rfl
  | each | when => rfl
  | mixin => simp [lead, CompileError.bare]

theorem visit_lead_sameUpTo (host : Option Host) (l : Lead) {label : BlockLabel}
    (h : SameUpTo CompileError.bare
      (visitList o embed (if l.isTransparent then host else none) nodes)
      (visitList o embed (if l.isTransparent then host else none) nodes')) :
    SameUpTo CompileError.bare (visit o embed host (.lead l (some (.mk nodes label)) p))
      (visit o embed host (.lead l (some (.mk nodes' label)) p)) := by
  -- The node that an error would show is the dressed one; by itself it is the same for both lists.
  have hdress (nodes : List Node) :
      (Node.dressFor host (.lead l (some (.mk nodes label)) p)).bare =
        .lead l (some (.mk [] label)) p := by
    cases host with
    | none => rfl
    | some h =>
      rw [Node.dressFor, Host.dress]
      split <;> rfl
  rw [visit_lead_eq, visit_lead_eq]
  refine .bind (.lift ?_) fun shell => h.bind fun children => .refl _
  rw [lead_bare, lead_bare (Node.dressFor host (.lead l (some (.mk nodes' label)) p)), hdress,
    hdress]

theorem visit_tag_sameUpTo {t : Tag} (ht : isComponent t.name = false) {label : BlockLabel}
    {code code' : Option Node} (hnodes : Forall₂ (Like o embed) nodes nodes')
    (hcode : Forall₂ (Like o embed) code.toList code'.toList) :
    SameUpTo CompileError.bare (visit o embed none (.tag t (.mk nodes label) code p))
      (visit o embed none (.tag t (.mk nodes' label) code' p)) := by
  -- A tag asks its nodes for their names and texts, and that much is seen of them by themselves.
  have hbare := map_bare_of_like hnodes
  have hblank : nodes.all isBlankText = nodes'.all isBlankText := by
    have := congrArg (fun l : List Node => l.all isBlankText) hbare
    simpa [Function.comp_def] using this
  have hcontent : Forall₂ (Like o embed) (contentOf nodes code) (contentOf nodes' code') := by
    cases hnodes with
    | nil => exact hcode
    | cons hn hrest => exact .cons hn hrest
  have hhost : Host.ofTag t.name = none := by simp [Host.ofTag, ht]
  have hiff : t.IsOpen nodes ↔ t.IsOpen nodes' := by
    rw [Tag.isOpen_iff, Tag.isOpen_iff, hblank]
  by_cases hopen : t.IsOpen nodes
  case neg =>
    rw [visit_closed_eq hopen, visit_closed_eq (mt hiff.mpr hopen)]
    exact .refl _
  have hopen' : t.IsOpen nodes' := hiff.mp hopen
  cases t.kind o with
  | phrase hname =>
    rw [visit_phrase_eq hname hopen, visit_phrase_eq hname hopen', visitFragments_eq_mapM,
      visitFragments_eq_mapM]
    refine (SameUpTo.mapM (hcontent.imp fun n n' hn => ?_)).bind fun fragments => .refl _
    rw [← fragmentName_bare p n, hn.bare_eq, fragmentName_bare]
    exact (SameUpTo.refl _).bind fun name => hn.visits.map _
  | statement hphrase hname =>
    rw [visit_statement_eq hphrase hname hopen, visit_statement_eq hphrase hname hopen',
      ← statementTag_bare t.name nodes, hbare, statementTag_bare]
    exact .refl _
  | function hphrase hname =>
    rw [visit_function_eq hphrase hname hopen, visit_function_eq hphrase hname hopen',
      ← signature_bare nodes, hbare, signature_bare]
    refine (SameUpTo.refl _).bind fun sig => (visitList_sameUpTo ?_).bind fun children => .refl _
    cases hnodes with
    | nil => exact .nil
    | cons hn hrest => exact hrest
  | element ht =>
    rw [visit_element_eq ht hopen, visit_element_eq ht hopen', hhost]
    refine (SameUpTo.mapM (hcontent.imp fun n n' hn => ?_)).map _
    rw [hn.bare_eq]
    exact hn.visits.map _

/-- Nodes that splice only look at what their nodes give. -/
theorem visit_splices_sameUpTo (host : Option Host) (hn : n.splices = true)
    (h : SameUpTo CompileError.bare (visitList o embed (n.hostBelow host) n.children)
      (visitList o embed (n.hostBelow host) nodes')) :
    SameUpTo CompileError.bare (visit o embed host n)
      (visit o embed host (n.withChildren nodes')) := by
  cases n using Node.induct with
  | leaf l p | tag t nodes label code p => cases hn
  | bare l p => exact .refl _
  | lead l nodes label p => exact visit_lead_sameUpTo host l h
  | frame f nodes label p =>
    cases f with
    | comment | filter => cases hn
    | caseOf expr =>
      rw [Node.withChildren, visit_case_eq, visit_case_eq]
      exact h.bind fun children => .refl _
  | block nodes label p =>
    rw [Node.withChildren, visit_block_eq, visit_block_eq]
    exact h.bind fun children => .refl _

/-- All nodes but components only look at what their nodes give and at what they are by
themselves. -/
theorem visit_children_sameUpTo (hn : n.IsPlain) (h : Forall₂ (Like o embed) n.children nodes') :
    SameUpTo CompileError.bare (visit o embed none n)
      (visit o embed none (n.withChildren nodes')) := by
  cases n using Node.induct with
  | leaf l p | bare l p => exact .refl _
  | lead l nodes label p =>
    refine visit_lead_sameUpTo none l ?_
    rw [ite_self]
    exact visitList_sameUpTo h
  | frame f nodes label p =>
    -- A comment and a filter take the texts of their nodes and visit none of them.
    have hbare : nodes.map Node.bare = nodes'.map Node.bare := map_bare_of_like h
    cases f with
    | comment value buffer =>
      have htexts : nodes.filterMap Node.text? = nodes'.filterMap Node.text? := by
        have := congrArg (filterMap Node.text?) hbare
        simpa [filterMap_map, Function.comp_def] using this
      exact .of_eq (by simp [Node.withChildren, visit, htexts])
    | caseOf expr => exact visit_splices_sameUpTo none rfl (visitList_sameUpTo h)
    | filter name attrs =>
      have hlines : linesOf nodes = linesOf nodes' := by
        rw [← linesOf_bare, hbare, linesOf_bare]
      exact .of_eq (by simp [Node.withChildren, visit, filter, hlines])
  | block nodes label p => exact visit_splices_sameUpTo none rfl (visitList_sameUpTo h)
  | tag t nodes label code p =>
    exact visit_tag_sameUpTo hn h (forall₂_same.mpr fun c _ => .refl c)

/-- Inlining one block does not change what a visit does. -/
theorem visit_inlines (h : Inlines o n n') (hn : ∀ m ∈ n.walk, m.IsPlain) :
    SameUpTo CompileError.bare (visit o embed none n) (visit o embed none n') := by
  -- By where the block is. At the node itself the lists give the same as a whole. Further down one
  -- node is replaced by one that looks the same and, by induction, does the same.
  induction h with
  | splice before after hsplices hlabel hchildren =>
    refine visit_splices_sameUpTo none hsplices (.of_eq ?_)
    rw [Node.hostBelow_none hsplices, hchildren, visitList_inlined hlabel]
  | @child n k k' before after hchildren h ih =>
    obtain ⟨hroot, hbelow, -⟩ := Node.forall_mem_walk.mp hn
    have hk : Like o embed k k' := ⟨h.bare_eq, ih (hbelow k (by simp [hchildren]))⟩
    refine visit_children_sameUpTo hroot ?_
    rw [hchildren]
    exact rel_append (forall₂_same.mpr fun l _ => .refl l)
      (.cons hk (forall₂_same.mpr fun l _ => .refl l))
  | @code t body c c' p h ih =>
    obtain ⟨hroot, -, hcode⟩ := Node.forall_mem_walk.mp hn
    have hc : Like o embed c c' := ⟨h.bare_eq, ih (hcode c rfl)⟩
    cases body
    exact visit_tag_sameUpTo hroot (forall₂_same.mpr fun l _ => .refl l) (.cons hc .nil)

/-! ## Any number of steps -/

theorem visit_inlined (h : Relation.ReflTransGen (Inlines o) n n')
    (hn : ∀ m ∈ n.walk, m.IsPlain) :
    SameUpTo CompileError.bare (visit o embed none n) (visit o embed none n') := by
  -- Being without components has to be carried along, since every step asks for it.
  suffices (∀ m ∈ n'.walk, m.IsPlain) ∧
      SameUpTo CompileError.bare (visit o embed none n) (visit o embed none n') from this.2
  induction h with
  | refl => exact ⟨hn, .refl _⟩
  | tail _ hstep ih => exact ⟨hstep.isPlain ih.1, ih.2.trans (visit_inlines hstep ih.1)⟩

end Inlined

/-- Inlining transparent blocks in a tree without components, wherever they are and however many,
changes nothing but the inside of a node that an error shows: neither the result, nor the error, nor
the state in which a front end is left. In particular a tree gives what its surface gives, node by
node and in order. -/
theorem visitRoot_inlined (o : Options) {root root' : Node}
    (hplain : ∀ n ∈ root.walk, n.IsPlain) (h : Relation.ReflTransGen (Inlines o) root root') :
    (∀ (σ : Type) (frontEnd : FrontEnd (ExceptT CompileError (StateM σ))) (depth : Nat),
      (∀ s : σ,
        Prod.map (mapBoth CompileError.bare id) id ((visitRoot o frontEnd depth root).run.run s) =
          Prod.map (mapBoth CompileError.bare id) id
            ((visitRoot o frontEnd depth root').run.run s)) ∧
      Visited.toList <$> visitRoot o frontEnd depth root =
        flatten <$> (root.surface o).mapM fun n =>
          Visited.toList <$> visitRoot o frontEnd depth n) ∧
    mapBoth CompileError.bare id (tree o root) = mapBoth CompileError.bare id (tree o root') ∧
    tree o root = ((root.surface o).mapM (tree o)).map flatten := by
  refine ⟨fun σ frontEnd depth => ⟨fun s => ?_, ?_⟩, ?_, ?_⟩
  · have hsame : SameUpTo CompileError.bare (visitRoot o frontEnd depth root)
        (visitRoot o frontEnd depth root') := visit_inlined h hplain
    rw [← run_rethrow, ← run_rethrow, hsame]
  · exact (visitList_surface root).symm.trans (visitList_eq_mapM _)
  · have hsame : SameUpTo CompileError.bare (tree o root) (tree o root') := by
      rw [tree_eq, tree_eq]
      exact (visit_inlined h hplain).map Visited.toList
    rwa [SameUpTo, rethrow_eq_mapBoth, rethrow_eq_mapBoth] at hsame
  · have hleaf : tree o = fun n => Visited.toList <$> visit o (nested o) none n :=
      funext (tree_eq o)
    rw [hleaf]
    exact (visitList_surface root).symm.trans (visitList_eq_mapM _)

/-- A block in a loop, which the tag around the loop does not see, with a sub-block in it. -/
theorem visitRoot_inlined_loop :
    let p : Place := ⟨1, none⟩
    let text (t : String) : Node := .leaf (.text t) p
    let note : Node := .block (.mk [text "a", text ""] ⟨some "!note", none, true⟩) p
    let side : Node := .block (.mk [note, text "b"] ⟨some "side", none, false⟩) p
    let loop (nodes : List Node) : Node := .lead (.each "x in xs" "i") (some (.plain nodes)) p
    let item (nodes : List Node) : Node := .tag ⟨"li", [], [], false⟩ (.plain [loop nodes]) none p
    let blocks := item [text "c", side]
    let flat := item [text "c", text "a", text "", text "b"]
    (∀ n ∈ blocks.walk, n.IsPlain) ∧ Relation.ReflTransGen (Inlines {}) blocks flat ∧
      mapBoth CompileError.bare id (tree {} blocks) =
        mapBoth CompileError.bare id (tree {} flat) := by
  intro p text note side loop item blocks flat
  have hli : isComponent "li" = false := by decide +kernel
  have hplain : ∀ n ∈ blocks.walk, n.IsPlain := by
    simp [blocks, item, loop, side, note, text, Block.plain, Node.walk, Node.walkAll,
      Node.IsPlain, hli]
  have hlabel : BlockLabel.IsTransparent {} ⟨some "side", none, false⟩ :=
    .inr (.inr ⟨"side", rfl, by decide⟩)
  have hside : Inlines {} (loop [text "c", side]) (loop [text "c", note, text "b"]) :=
    Inlines.splice (n := loop [text "c", side]) [text "c"] [] rfl hlabel rfl
  have hnote : Inlines {} (loop [text "c", note, text "b"])
      (loop [text "c", text "a", text "", text "b"]) :=
    Inlines.splice (n := loop [text "c", note, text "b"]) [text "c"] [text "b"] rfl
      (.inr (.inl rfl)) rfl
  have hsteps : Relation.ReflTransGen (Inlines {}) blocks flat :=
    .tail (.single (.child [] [] rfl hside)) (.child [] [] rfl hnote)
  exact ⟨hplain, hsteps, (visitRoot_inlined {} hplain hsteps).2.1⟩

end Compile

end Offside
