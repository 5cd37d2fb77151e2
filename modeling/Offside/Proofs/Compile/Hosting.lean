import Offside.Proofs.Compile.Effects
import Offside.Proofs.Compile.Lists
import Offside.Proofs.Compile.Relabel

/-!
# What a component does to its content

A component puts its class on what is directly inside it. What is directly inside is said in terms
of positions: `Node.reach?` follows a path of them through blocks, statements and loops, and keeps
the name of the innermost block it comes through. Comparing two lists position by position tells all
that can differ between them: a tag that is reached has one attribute more, text that is reached
stands in a `span`, and everything else is as it was (`Injected`). The host's `dress` gives the one
list that is related to the given one in this way (`eq_dress_iff_injected`).

Compiling does not rewrite the content of a component first; the visit takes the host along instead.
That comes to the same as visiting the rewritten content without a host (`visit_dressFor`).
-/

set_option autoImplicit false

namespace Offside

open List

/-! ## What is reached -/

namespace Node

/-- The nodes that are reached through a node in the given slot, with the slot they are in. Blocks
lead to nodes in a slot of their own, statements and loops to nodes in the same; no other node leads
any further. -/
def through? (slot : Option String) : Node → Option (Option String × List Node)
  | .block body _ => some (body.label.name, body.nodes)
  | .lead (.code _ _ _) (some body) _ | .lead (.each _ _) (some body) _ => some (slot, body.nodes)
  | _ => none

/-- The node can be given a class, or be put into something that can: it is a tag or text. -/
def takesClass : Node → Bool
  | .tag _ _ _ _ | .leaf (.text _) _ => true
  | _ => false

/-- The node at a path of positions, with the slot it is in. -/
def reach? (slot : Option String) (nodes : List Node) : List Nat → Option (Option String × Node)
  | [] => none
  | i :: path =>
    nodes[i]?.bind fun n =>
      if path.isEmpty then some (slot, n)
      else (n.through? slot).bind fun below => reach? below.1 below.2 path

end Node

/-- The class that a component gives to what is in one of its slots. -/
def componentClass (component : String) (slot : Option String) : Attr :=
  ⟨"class", .expr (Json.quote (component ++ "-block" ++ slot.elim "" ("-" ++ ·))), false⟩

/-- What becomes of a node that is reached in a slot, leaving aside what is reached through it. -/
inductive Dressed (component : String) (slot : Option String) : Node → Node → Prop
  | tag (t : Tag) (body : Block) (code : Option Node) (p : Place) :
    Dressed component slot (.tag t body code p)
      (.tag { t with attrs := t.attrs ++ [componentClass component slot] } body code p)
  | text (t : String) (p : Place) :
    Dressed component slot (.leaf (.text t) p)
      (.tag ⟨"span", [componentClass component slot], [], false⟩ (.plain [.leaf (.text t) p]) none
        p)
  /-- A node that leads further is the same by itself. -/
  | leading {n n' : Node} (h : (n.through? slot).isSome = true) (hbare : n'.bare = n.bare) :
    Dressed component slot n n'
  /-- Every other node is the same as a whole. -/
  | other {n : Node} (h : n.through? slot = none) (htakes : n.takesClass = false) :
    Dressed component slot n n

/-- The lists have nodes at the same paths and in the same slots, and what is at a path in the
second is what becomes of the node there in the first. -/
def Injected (component : String) (slot : Option String) (nodes nodes' : List Node) : Prop :=
  ∀ path, Option.Rel (fun x y => y.1 = x.1 ∧ Dressed component x.1 x.2 y.2)
    (Node.reach? slot nodes path) (Node.reach? slot nodes' path)

/-! ## Dressing is all there is -/

variable {component : String} {slot : Option String} {nodes nodes' : List Node} {n n' : Node}

theorem classAttr_eq (component : String) (slot : Option String) :
    Host.classAttr ⟨component, slot⟩ = componentClass component slot := by
  cases slot with
  | none => simp [Host.classAttr, Host.className, componentClass]
  | some slot =>
    have hclass : component ++ "-block-" ++ slot = component ++ "-block" ++ ("-" ++ slot) := by
      rw [show "-block-" = "-block" ++ "-" from rfl, String.append_assoc, String.append_assoc,
        String.append_assoc]
    exact congrArg (fun name => Attr.mk "class" (.expr (Json.quote name)) false) hclass

theorem through?_dress (component : String) (slot : Option String) (n : Node) :
    (Host.dress ⟨component, slot⟩ n).through? slot =
      (n.through? slot).map fun below =>
        (below.1, below.2.map (Host.dress ⟨component, below.1⟩)) := by
  cases n using Node.induct with
  | leaf l p => cases l <;> rfl
  | bare l p => cases l <;> rfl
  | lead l nodes label p =>
    cases l <;> simp [Host.dress, Lead.isTransparent, Node.through?, Block.nodes]
  | frame f nodes label p => rfl
  | block nodes label p =>
    simp [Host.dress, Node.through?, Block.nodes, Block.label, Host.inBlock]
  | tag t nodes label code p => rfl

theorem dressed_dress (component : String) (slot : Option String) (n : Node) :
    Dressed component slot n (Host.dress ⟨component, slot⟩ n) := by
  cases n using Node.induct with
  | leaf l p =>
    cases l with
    | text t =>
      rw [Host.dress, Host.span, classAttr_eq]
      exact .text t p
    | comment | literal | yield | mixinBlock | doctype => exact .other rfl rfl
  | bare l p => cases l <;> exact .other rfl rfl
  | lead l nodes label p =>
    cases l with
    | code | each => exact .leading rfl rfl
    | when | mixin => exact .other rfl rfl
  | frame f nodes label p => cases f <;> exact .other rfl rfl
  | block nodes label p => exact .leading rfl rfl
  | tag t nodes label code p =>
    rw [Host.dress, classAttr_eq]
    exact .tag t _ code p

theorem injected_dress (component : String) (slot : Option String) (nodes : List Node) :
    Injected component slot nodes (nodes.map (Host.dress ⟨component, slot⟩)) := by
  intro path
  -- Along the path: its first position picks the node, and the rest is followed in what the node
  -- leads to, which is dressed for the slot it is in.
  induction path generalizing slot nodes with
  | nil => exact .none
  | cons i path ih =>
    rw [Node.reach?, Node.reach?, getElem?_map]
    cases nodes[i]? with
    | none => exact .none
    | some n =>
      simp only [Option.map_some, Option.bind_some]
      by_cases hpath : path.isEmpty = true
      · rw [if_pos hpath, if_pos hpath]
        exact .some ⟨rfl, dressed_dress component slot n⟩
      · rw [if_neg hpath, if_neg hpath, through?_dress]
        cases n.through? slot with
        | none => exact .none
        | some below => exact ih below.1 below.2

/-- A node and what becomes of it lead to nodes in the same slot. -/
theorem Dressed.slot_eq (h : Dressed component slot n n') :
    (n'.through? slot).map Prod.fst = (n.through? slot).map Prod.fst := by
  -- Whether a node leads further, and into which slot, can be seen without what is below it.
  have hslot (n : Node) :
      (n.bare.through? slot).map Prod.fst = (n.through? slot).map Prod.fst := by
    cases n using Node.induct with
    | leaf l p | frame f nodes label p | block nodes label p | tag t nodes label code p => rfl
    | bare l p | lead l nodes label p => cases l <;> rfl
  cases h with
  | tag | text | other => rfl
  | leading _ hbare => rw [← hslot n', hbare, hslot n]

/-- A node that leads further is known from what it is by itself and what it leads to. -/
theorem eq_of_bare_of_through? (h : (n.through? slot).isSome = true) (hbare : n'.bare = n.bare)
    (hthrough : n'.through? slot = n.through? slot) : n' = n := by
  cases n using Node.induct with
  | leaf l p | frame f nodes label p | tag t nodes label code p => cases h
  | bare l p => cases l <;> cases h
  | lead l nodes label p =>
    cases n' using Node.induct with
    | lead l' nodes' label' p' =>
      cases hbare
      cases l with
      | code | each => cases hthrough; rfl
      | when | mixin => cases h
    | leaf | bare | frame | block | tag => cases hbare
  | block nodes label p =>
    cases n' using Node.induct with
    | block nodes' label' p' =>
      cases hbare
      cases hthrough
      rfl
    | leaf | bare | lead | frame | tag => cases hbare

theorem mem_held_of_through? {below : Option String × List Node}
    (h : n.through? slot = some below) : ∀ k ∈ below.2, k ∈ n.held := by
  cases n using Node.induct with
  | leaf l p | frame f nodes label p | tag t nodes label code p => cases h
  | bare l p => cases l <;> cases h
  | lead l nodes label p =>
    cases l with
    | code | each =>
      cases h
      exact fun k hk => Node.mem_held.mpr (.inr hk)
    | when | mixin => cases h
  | block nodes label p =>
    cases h
    exact fun k hk => Node.mem_held.mpr (.inr hk)

/-- Only one node can be what becomes of a node and lead to given nodes. -/
theorem Dressed.unique {n₁ n₂ : Node} (h₁ : Dressed component slot n n₁)
    (h₂ : Dressed component slot n n₂) (hthrough : n₁.through? slot = n₂.through? slot) :
    n₁ = n₂ := by
  -- Which of the four cases applies is decided by the node, so two of them never meet. Only a node
  -- that leads further is left open by its case, and what it leads to is given.
  cases h₁ with
  | tag =>
    cases h₂ with
    | tag => rfl
    | leading hsome hbare => cases hsome
    | other hnone htakes => cases htakes
  | text =>
    cases h₂ with
    | text => rfl
    | leading hsome hbare => cases hsome
    | other hnone htakes => cases htakes
  | leading hsome hbare =>
    have hslot₂ := h₂.slot_eq
    cases h₂ with
    | tag | text => cases hsome
    | leading _ hbare₂ =>
      refine eq_of_bare_of_through? ?_ (hbare.trans hbare₂.symm) hthrough
      rw [← Option.isSome_map (f := Prod.fst), hslot₂, Option.isSome_map, hsome]
    | other hnone htakes => rw [hnone] at hsome; cases hsome
  | other hnone htakes =>
    cases h₂ with
    | tag | text => cases htakes
    | leading hsome hbare => rw [hnone] at hsome; cases hsome
    | other => rfl

/-- The second node is what becomes of the first, also as far as the nodes are concerned that they
lead to. -/
def InjectedAt (component : String) (slot : Option String) (n n' : Node) : Prop :=
  Dressed component slot n n' ∧
    ∀ below below', n.through? slot = some below → n'.through? slot = some below' →
      Injected component below.1 below.2 below'.2

/-- What is said about two lists is said about the nodes in them one by one. -/
theorem Injected.getElem? (h : Injected component slot nodes nodes') (i : Nat) :
    Option.Rel (InjectedAt component slot) nodes[i]? nodes'[i]? := by
  -- The path of one position compares the nodes themselves, the longer ones what they lead to.
  have hself := h [i]
  have hpath (j : Nat) (path : List Nat) := h (i :: j :: path)
  simp only [Node.reach?] at hself
  cases hn : nodes[i]? with
  | none =>
    rw [hn] at hself
    cases hn' : nodes'[i]? with
    | none => exact .none
    | some n' => rw [hn'] at hself; cases hself
  | some n =>
    rw [hn] at hself
    cases hn' : nodes'[i]? with
    | none => rw [hn'] at hself; cases hself
    | some n' =>
      rw [hn'] at hself
      change Option.Rel _ (some (slot, n)) (some (slot, n')) at hself
      have hdressed : Dressed component slot n n' := (Option.rel_some_some.mp hself).2
      refine .some ⟨hdressed, fun below below' hbelow hbelow' path => ?_⟩
      have hslot := hdressed.slot_eq
      rw [hbelow, hbelow'] at hslot
      cases path with
      | nil => exact .none
      | cons j path =>
        have hrel := hpath j path
        rw [Node.reach?, Node.reach?, hn, hn'] at hrel
        simp only [Option.bind_some, isEmpty_cons, Bool.false_eq_true, if_false, hbelow, hbelow']
          at hrel
        rwa [Option.some.inj hslot] at hrel

theorem Injected.eq_map (h : Injected component slot nodes nodes')
    (hnodes : ∀ n ∈ nodes, ∀ slot n', InjectedAt component slot n n' →
      n' = Host.dress ⟨component, slot⟩ n) :
    nodes' = nodes.map (Host.dress ⟨component, slot⟩) := by
  refine ext_getElem? fun i => ?_
  have hi := h.getElem? i
  rw [getElem?_map]
  cases hn : nodes[i]? with
  | none =>
    rw [hn] at hi
    cases hn' : nodes'[i]? with
    | none => rfl
    | some n' => rw [hn'] at hi; cases hi
  | some n =>
    rw [hn] at hi
    cases hn' : nodes'[i]? with
    | none => rw [hn'] at hi; cases hi
    | some n' =>
      rw [hn'] at hi
      rw [hnodes n (mem_of_getElem? hn) slot n' (Option.rel_some_some.mp hi)]
      rfl

/-- By induction on the node: what becomes of it is known once it is known what becomes of the nodes
it leads to. -/
theorem InjectedAt.eq_dress (h : InjectedAt component slot n n') :
    n' = Host.dress ⟨component, slot⟩ n := by
  induction n using Node.induct_held generalizing slot n' with
  | _ n ih =>
    obtain ⟨hdressed, hbelow⟩ := h
    -- Both nodes are what becomes of `n`, so it is left to show that they lead to the same nodes.
    refine hdressed.unique (dressed_dress component slot n) ?_
    have hslot := hdressed.slot_eq
    rw [through?_dress]
    cases hn : n.through? slot with
    | none =>
      rw [hn] at hslot
      exact Option.map_eq_none_iff.mp hslot
    | some below =>
      rw [hn] at hslot
      obtain ⟨below', hn', hslot⟩ := Option.map_eq_some_iff.mp hslot
      have hnodes := (hbelow below below' hn hn').eq_map fun k hk slot n' hk' =>
        ih k (mem_held_of_through? hn k hk) hk'
      rw [hn', Option.map_some, ← hnodes, ← hslot]

/-- Dressing gives the one list that is related to the given one as it should be. -/
theorem eq_dress_iff_injected :
    nodes' = nodes.map (Host.dress ⟨component, slot⟩) ↔ Injected component slot nodes nodes' := by
  constructor
  · rintro rfl
    exact injected_dress component slot nodes
  · exact fun h => h.eq_map fun n _ slot n' hn => hn.eq_dress

/-! ## Visiting what is dressed -/

/-- Monads with compile errors in which an error ends the computation. -/
class ErrorsEnd (m : Type → Type) [Monad m] [MonadExceptOf CompileError m] : Prop
    extends LawfulMonad m where
  throw_bind {α β : Type} (e : CompileError) (k : α → m β) : (throw e : m α) >>= k = throw e

instance : ErrorsEnd (Except CompileError) where
  throw_bind _ _ := rfl

instance (σ : Type) : ErrorsEnd (ExceptT CompileError (StateM σ)) where
  throw_bind _ _ := rfl

namespace Compile

variable {m : Type → Type} [Monad m] [MonadExceptOf CompileError m] [ErrorsEnd m] {o : Options}
  {embed : Embed m}

theorem mapM_congr_of_mem {α β : Type} {f g : α → m β} {xs : List α} (h : ∀ x ∈ xs, f x = g x) :
    xs.mapM f = xs.mapM g := by
  induction xs with
  | nil => rfl
  | cons x xs ih =>
    obtain ⟨hx, hxs⟩ := forall_mem_cons.mp h
    rw [mapM_cons, mapM_cons, hx, ih hxs]

theorem visitList_dress {h : Host} {nodes : List Node}
    (hnodes : ∀ n ∈ nodes, visit o embed none (h.dress n) = visit o embed (some h) n) :
    visitList o embed none (nodes.map h.dress) = visitList o embed (some h) nodes := by
  rw [visitList_eq_mapM, visitList_eq_mapM, mapM_map]
  refine congrArg _ (mapM_congr_of_mem fun n hn => ?_)
  rw [Function.comp_apply, hnodes n hn]

/-- Text in the `span` of its host. -/
theorem visit_span (h : Host) (t : String) (p : Place) :
    visit o embed none (h.dress (.leaf (.text t) p)) =
      visit o embed (some h) (.leaf (.text t) p) := by
  have hspan : Host.ofTag h.span.name = none :=
    show Host.ofTag "span" = none by decide +kernel
  rw [Host.dress, Block.plain, visit_tag_eq, visit, leaf, hostedText, if_neg (by simp [Host.span])]
  by_cases hphrase : o.phraseTag = h.span.name
  · -- A phrase has no use for text.
    rw [if_pos hphrase.symm, if_pos hphrase, visitFragments_eq_mapM, contentOf]
    simp only [isEmpty_cons, Bool.false_eq_true, if_false, mapM_cons, fragmentName, bind_assoc]
    exact ErrorsEnd.throw_bind _ _
  · have hstatement : ¬ Tag.isStatement h.span.name = true :=
      show ¬ Tag.isStatement "span" = true by decide
    have hfunction : h.span.name ≠ "function" := show "span" ≠ "function" by decide
    rw [if_neg (Ne.symm hphrase), if_neg hphrase, if_neg hstatement, if_neg hfunction, hspan,
      contentOf]
    simp [visitBare, visit, leaf, ofExcept, tag, namedContent, plainContent, contentName?,
      Node.bare, hostedAttrs, Host.span]

/-- To visit a node with a host is to visit what the host makes of it. -/
theorem visit_dress (h : Host) (n : Node) :
    visit o embed none (h.dress n) = visit o embed (some h) n := by
  induction n using Node.induct generalizing h with
  | leaf l p =>
    cases l with
    | text t => exact visit_span h t p
    | comment | literal | yield | mixinBlock | doctype => rfl
  | bare l p => rfl
  | lead l nodes label p ih =>
    rw [visit_lead_eq]
    by_cases hl : l.isTransparent = true
    · have hnodes := visitList_dress fun n hn => ih n hn h
      rw [Host.dress, if_pos hl, Host.dressAll_eq_map, visit_lead_eq]
      simp only [hl, if_true, Node.children, Block.nodes, hnodes, Node.dressFor, Host.dress,
        Host.dressAll_eq_map]
    · rw [Host.dress, if_neg hl, visit_lead_eq]
      simp only [hl, Node.children, Block.nodes, Node.dressFor, Host.dress]
      rfl
  | frame f nodes label p _ => rfl
  | block nodes label p ih =>
    have hnodes := visitList_dress fun n hn => ih n hn (h.inBlock label)
    rw [Host.dress, Host.dressAll_eq_map, visit_block_eq, visit_block_eq, Option.map_none, hnodes,
      Option.map_some]
  -- A tag is not looked into: its class is one more attribute, in either way of visiting it.
  | tag t nodes label code p _ _ =>
    rw [Host.dress, visit_tag_eq, visit_tag_eq]
    simp [hostedAttrs]

theorem visit_dressFor (host : Option Host) (n : Node) :
    visit o embed none (n.dressFor host) = visit o embed host n := by
  cases host with
  | none => rfl
  | some h => exact visit_dress h n

theorem map_visitEach (host : Option Host) (nodes : List Node) :
    List.map Prod.snd <$> visitEach o embed host nodes = nodes.mapM (visit o embed host) := by
  induction nodes with
  | nil => simp [visitEach]
  | cons n rest ih => simp [visitEach, ← ih]

/-- A component hosts its content as it should: the content that it makes of the given nodes is the
one list in which what is directly inside has its class and all else is as it was, and this list is
what is compiled in place of the given one. A tag that is no component leaves its content alone. -/
theorem visitEach_injected (o : Options) (embed : Embed m) (name : String)
    (children : List Node) :
    (isComponent name = true → ∀ injected,
      injected = children.map (Node.dressFor (Host.ofTag name)) ↔
        Injected name none children injected) ∧
    (isComponent name = false → children.map (Node.dressFor (Host.ofTag name)) = children) ∧
    List.map Prod.snd <$> visitEach o embed (Host.ofTag name) children =
      List.map Prod.snd <$>
        visitEach o embed none (children.map (Node.dressFor (Host.ofTag name))) := by
  refine ⟨fun hname injected => ?component, fun hname => ?other, ?visits⟩
  case component =>
    rw [Host.ofTag, if_pos hname]
    exact eq_dress_iff_injected
  case other =>
    rw [Host.ofTag, if_neg (by simp [hname])]
    exact map_id children
  case visits =>
    -- The results are compared without the nodes they belong to, since those differ by the class.
    rw [map_visitEach, map_visitEach, mapM_map]
    refine mapM_congr_of_mem fun n _ => ?_
    rw [Function.comp_apply, visit_dressFor]

/-- A loop in a slot of a component, with text, a tag and a case in it. -/
theorem visitEach_injected_slot :
    let p : Place := ⟨1, none⟩
    let text : Node := .leaf (.text "a") p
    let item (attrs : List Attr) : Node := .tag ⟨"b", attrs, [], false⟩ (.plain [text]) none p
    let wrapped (a : Attr) : Node := .tag ⟨"span", [a], [], false⟩ (.plain [text]) none p
    let choice : Node := .frame (.caseOf "e") (.plain [text]) p
    let foot (nodes : List Node) : Node :=
      .block (.mk [.lead (.each "x in xs" "i") (some (.plain nodes)) p] ⟨some "foot", none, true⟩) p
    let slotted : Attr := ⟨"class", .expr "\"Card-block-foot\"", false⟩
    let children := [text, foot [text, item [], choice]]
    let injected := [wrapped ⟨"class", .expr "\"Card-block\"", false⟩,
      foot [wrapped slotted, item [slotted], choice]]
    let embed : Embed (Except CompileError) := embedded {} FrontEnd.bundled 1
    isComponent "Card" = true ∧ Injected "Card" none children injected ∧
      List.map Prod.snd <$> visitEach {} embed (Host.ofTag "Card") children =
        List.map Prod.snd <$> visitEach {} embed none injected := by
  intro p text item wrapped choice foot slotted children injected embed
  have hname : isComponent "Card" = true := by decide +kernel
  have hinjected : injected = children.map (Node.dressFor (Host.ofTag "Card")) := by
    rw [Host.ofTag, if_pos hname]
    rfl
  obtain ⟨hiff, -, hvisits⟩ := visitEach_injected {} embed "Card" children
  exact ⟨hname, (hiff hname injected).mp hinjected, hinjected ▸ hvisits⟩

end Compile

end Offside
