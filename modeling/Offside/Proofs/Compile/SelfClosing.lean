import Offside.Proofs.Compile.Assignment
import Offside.Proofs.Compile.Lists

/-!
# Self-closing tags

A tag that closes itself is not to have content, and what is in its block is turned down, unless it
is white space. The code on the line of a tag is not in its block, and nobody asks for it: where the
block is empty it becomes the content of the tag, whether the tag closes itself or not. So there are
three things that can become of a self-closing tag (`visit_selfClosing`): an error, a tag with
nothing in it but white space, or a tag around the code on its line.
-/

set_option autoImplicit false

namespace Offside

open List

instance (o : Options) (t : Tag) : Decidable (t.IsElement o) :=
  decidable_of_iff (t.name ≠ o.phraseTag ∧ Tag.isStatement t.name = false ∧ t.name ≠ "function")
    ⟨fun h => ⟨h.1, h.2.1, h.2.2⟩, fun h => ⟨h.not_phrase, h.not_statement, h.not_function⟩⟩

/-- The node is a self-closing tag that stands for itself, and no component. -/
def Node.SelfCloses (o : Options) : Node → Prop
  | .tag t _ _ _ => t.selfClosing = true ∧ t.IsElement o ∧ isComponent t.name = false
  | _ => False

instance (o : Options) : DecidablePred (Node.SelfCloses o)
  | .tag _ _ _ _ => inferInstanceAs (Decidable (_ ∧ _))
  | .leaf _ _ | .lead _ _ _ | .frame _ _ _ | .block _ _ => .isFalse id

namespace IR

/-- The node is text of white space only. -/
def IsSpace (n : IR) : Prop :=
  ∃ t origin, n = .atom (.text (Json.quote t) true) origin ∧ t.toList.all Text.isSpace = true

/-- The atom that the node is, if it is one. -/
def atom? : IR → Option Atom
  | .atom a _ => some a
  | _ => none

/-- The node is a tag that holds these children and is given no content under a name. -/
def Holds (name : String) (children : List IR) (origin : Provenance) (n : IR) : Prop :=
  ∃ props, Props.contents props = [] ∧ n = .tag name props children true origin

end IR

namespace Compile

variable {m : Type → Type} [Monad m] [MonadExceptOf CompileError m] {o : Options} {embed : Embed m}
  {host : Option Host} {t : Tag} {nodes : List Node} {label : BlockLabel} {code : Option Node}
  {p : Place}

theorem exists_text_of_isBlankText {n : Node} (h : isBlankText n = true) :
    ∃ t q, n = .leaf (.text t) q ∧ t.toList.all Text.isSpace = true := by
  cases n with
  | leaf l q =>
    cases l with
    | text t => exact ⟨t, q, rfl, h⟩
    | comment value buffer | literal expr buffer escape | yield name args | mixinBlock
    | doctype t => cases h
  | lead l body q | frame f body q | block body q | tag t body code q => cases h

theorem isSpace_of_mem_text {t : String} (ht : t.toList.all Text.isSpace = true) (q : Place) :
    ∀ x ∈ (text t q).toList, x.IsSpace := by
  intro x hx
  rw [text] at hx
  split at hx
  · cases hx
  · rw [mem_singleton.mp hx]
    exact ⟨t, _, rfl, ht⟩

/-- A tag is given no content under a name if there are no named blocks among its nodes. -/
theorem contents_gather_eq_nil {results : List (Node × Visited)}
    (h : namedContent results = []) (attrs : List Attr) (spreads : List String) :
    Props.contents (Props.gather (attrs.map Props.ofAttr ++ namedContent results) spreads) =
      [] := by
  rw [h, append_nil]
  -- Content that is gathered has been given by an attribute, and no attribute gives content.
  refine eq_nil_iff_forall_not_mem.mpr fun list hlist => ?_
  obtain ⟨entry, hentry, hcontent⟩ := Props.mem_contents.mp hlist
  have hsome : entry.2.content?.isSome = true := by rw [hcontent]; rfl
  exact not_content_of_mem_ofAttr (Props.mem_of_mem_gather hentry hsome) hsome

theorem holds_tag {results : List (Node × Visited)} (h : namedContent results = [])
    (name : String) (attrs : List Attr) (spreads : List String) :
    (tag name attrs spreads results p).Holds name (plainContent results) (.ofPlace p) :=
  ⟨_, contents_gather_eq_nil h attrs spreads, rfl⟩

variable [LawfulMonad m]

/-- White space gives white space, and none of it under a name. -/
theorem exists_visitBare_blank (o : Options) (embed : Embed m)
    (h : ∀ n ∈ nodes, isBlankText n = true) :
    ∃ results, visitBare o embed none nodes = pure results ∧ namedContent results = [] ∧
      ∀ x ∈ plainContent results, x.IsSpace := by
  -- Text is no named block and asks nobody, so every node is visited to a known result.
  induction nodes with
  | nil => exact ⟨[], rfl, rfl, fun x hx => absurd hx not_mem_nil⟩
  | cons n rest ih =>
    obtain ⟨hn, hrest⟩ := forall_mem_cons.mp h
    obtain ⟨results, hresults, hnamed, hplain⟩ := ih hrest
    obtain ⟨t, q, rfl, ht⟩ := exists_text_of_isBlankText hn
    refine ⟨(.leaf (.text t) q, text t q) :: results, ?_, hnamed, ?_⟩
    · rw [visitBare, mapM_cons, ← visitBare, hresults]
      simp [visit, leaf, ofExcept, Node.bare]
    · intro x hx
      rcases mem_append.mp hx with hx | hx
      · exact isSpace_of_mem_text ht q x hx
      · exact hplain x hx

theorem visit_selfClosing_throws (h : (Node.tag t (.mk nodes label) code p).SelfCloses o)
    (hnodes : ∃ k ∈ nodes, isBlankText k = false) :
    visit o embed host (.tag t (.mk nodes label) code p) =
      throw (.misplaced (.selfClosing t.name) p) := by
  obtain ⟨k, hk, hblank⟩ := hnodes
  refine visit_closed_eq fun hopen => ?_
  rw [hopen h.1 k hk] at hblank
  cases hblank

theorem visit_selfClosing_eq (h : (Node.tag t (.mk nodes label) code p).SelfCloses o)
    (hnodes : ∀ k ∈ nodes, isBlankText k = true) :
    visit o embed host (.tag t (.mk nodes label) code p) =
      (fun results => .one (tag t.name (hostedAttrs host t) t.spreads results p)) <$>
        visitBare o embed none (contentOf nodes code) := by
  obtain ⟨-, helement, hcomponent⟩ := h
  have hhost : Host.ofTag t.name = none := by simp [Host.ofTag, hcomponent]
  rw [visit_element_eq helement fun _ => hnodes, hhost]

/-- Where there is white space, or no code, a self-closing tag is left with white space at most. -/
theorem visit_selfClosing_holds (h : (Node.tag t (.mk nodes label) code p).SelfCloses o)
    (hnodes : ∀ k ∈ nodes, isBlankText k = true) (hcode : nodes ≠ [] ∨ code = none) :
    ∃ x children, visit o embed host (.tag t (.mk nodes label) code p) = pure (.one x) ∧
      x.Holds t.name children (.ofPlace p) ∧ ∀ c ∈ children, c.IsSpace := by
  have hcontent : contentOf nodes code = nodes := by
    rcases hcode with hne | rfl
    · exact contentOf_of_ne_nil hne code
    · exact contentOf_none nodes
  obtain ⟨results, hresults, hnamed, hplain⟩ := exists_visitBare_blank o embed hnodes
  refine ⟨_, plainContent results, ?_, holds_tag hnamed t.name (hostedAttrs host t) t.spreads,
    hplain⟩
  rw [visit_selfClosing_eq h hnodes, hcontent, hresults, map_pure]

/-- Where there is code and nothing else, it is what a self-closing tag holds. -/
theorem visit_selfClosing_code {c : Node}
    (h : (Node.tag t (.mk [] label) (some c) p).SelfCloses o) :
    visit o embed host (.tag t (.mk [] label) (some c) p) =
      (fun v => .one (tag t.name (hostedAttrs host t) t.spreads [(c, v)] p)) <$>
        visit o embed none c := by
  have htag (v : Visited) : tag t.name (hostedAttrs host t) t.spreads [(c.bare, v)] p =
      tag t.name (hostedAttrs host t) t.spreads [(c, v)] p :=
    tag_bare t.name (hostedAttrs host t) t.spreads [(c, v)] p
  rw [visit_selfClosing_eq h (fun k hk => absurd hk not_mem_nil)]
  simp [contentOf, visitBare, htag]

/-! ## Sources -/

/-- In a source that compiles, what is in the block of a self-closing tag is white space. -/
theorem isBlankText_of_walk {text : String} {f : Option String} {root : Node} {nodes' : List IR}
    (hok : nested o text f = .ok nodes') (hparse : Template.parse text f = .ok root)
    (hmem : .tag t (.mk nodes label) code p ∈ root.walk)
    (h : (Node.tag t (.mk nodes label) code p).SelfCloses o) :
    ∀ k ∈ nodes, isBlankText k = true := by
  rw [nested_eq, hparse] at hok
  obtain ⟨v, hv, -⟩ := exists_of_map_eq_ok hok
  -- A source that compiles has had each of its tags visited, and not one of the visits has failed.
  rcases visit_of_mem_walk (Template.conforms_of_parse hparse) hv hmem with
    hinert | ⟨host', v', hv'⟩
  · exact hinert.elim
  · intro k hk
    by_contra hblank
    rw [visit_selfClosing_throws h ⟨k, hk, by simpa using hblank⟩] at hv'
    cases hv'

theorem visit_expression {coded expr : String} {escape : Bool} {q : Place}
    (h : Statement.decode? coded = some (.expression, expr)) :
    visit o embed host (.lead (.code coded true escape) none q) =
      pure (.one (.atom (.expression expr escape true) (.ofPlace q))) := by
  simp [visit, lead, h, statement, ofExcept, Shell.fill]

/-- The children that a self-closing tag is left with: white space at most or, where its block is
empty, the expression on its line. -/
def SelfClosed (nodes : List Node) (code : Option Node) (children : List IR) : Prop :=
  (nodes ≠ [] ∨ code = none) ∧ (∀ c ∈ children, c.IsSpace) ∨
    nodes = [] ∧ ∃ coded expr escape q, code = some (.lead (.code coded true escape) none q) ∧
      Statement.decode? coded = some (.expression, expr) ∧
      children = [.atom (.expression expr escape true) (.ofPlace q)]

theorem visit_selfClosing_conforms {embed : Embed (Except CompileError)}
    (h : (Node.tag t (.mk nodes label) code p).SelfCloses o)
    (hconforms : (Node.tag t (.mk nodes label) code p).Conforms)
    (hnodes : ∀ k ∈ nodes, isBlankText k = true) :
    ∃ x children, visit o embed host (.tag t (.mk nodes label) code p) = .ok (.one x) ∧
      x.Holds t.name children (.ofPlace p) ∧ SelfClosed nodes code children := by
  by_cases hcode : nodes ≠ [] ∨ code = none
  · obtain ⟨x, children, hvisit, hholds, hspace⟩ :
        ∃ x children, visit o embed host (.tag t (.mk nodes label) code p) = .ok (.one x) ∧
          x.Holds t.name children (.ofPlace p) ∧ ∀ c ∈ children, c.IsSpace :=
      visit_selfClosing_holds h hnodes hcode
    exact ⟨x, children, hvisit, hholds, .inl ⟨hcode, hspace⟩⟩
  · -- There is nothing but the code, and the front end promises that it is an expression.
    rw [not_or, not_not] at hcode
    obtain ⟨rfl, hsome⟩ := hcode
    obtain ⟨c, rfl⟩ := Option.ne_none_iff_exists'.mp hsome
    obtain ⟨coded, escape, q, expr, rfl, hdecode⟩ := hconforms
    rw [visit_selfClosing_code h, visit_expression hdecode, map_pure]
    have hnamed := namedContent_singleton (n := .lead (.code coded true escape) none q) rfl
      (.one (.atom (.expression expr escape true) (.ofPlace q)))
    exact ⟨_, _, rfl, holds_tag hnamed t.name (hostedAttrs host t) t.spreads,
      .inr ⟨rfl, coded, expr, escape, q, rfl, hdecode, rfl⟩⟩

/-- What becomes of a self-closing tag. With something other than white space in its block it is an
error, and with white space alone, or without any code on its line, it has white space in it at
most. But if its block is empty and there is code on its line, then it holds what comes of the code.
In sources that compile, and in texts that are captured in them, that is an expression, and there
are no self-closing tags of the first kind. -/
theorem visit_selfClosing (embed : Embed m) (host : Option Host)
    (h : (Node.tag t (.mk nodes label) code p).SelfCloses o) :
    ((∃ k ∈ nodes, isBlankText k = false) →
      visit o embed host (.tag t (.mk nodes label) code p) =
        throw (.misplaced (.selfClosing t.name) p)) ∧
    ((∀ k ∈ nodes, isBlankText k = true) → nodes ≠ [] ∨ code = none →
      ∃ x children, visit o embed host (.tag t (.mk nodes label) code p) = pure (.one x) ∧
        x.Holds t.name children (.ofPlace p) ∧ ∀ c ∈ children, c.IsSpace) ∧
    (∀ c, nodes = [] → code = some c →
      visit o embed host (.tag t (.mk nodes label) code p) =
        (fun v => .one (tag t.name (hostedAttrs host t) t.spreads [(c, v)] p)) <$>
          visit o embed none c) ∧
    (∀ s text compiled f root, Compile.source o s = .ok compiled →
      Relation.ReflTransGen Embeds s text → Template.parse text f = .ok root →
      .tag t (.mk nodes label) code p ∈ root.walk →
      ∃ x children, visit o (nested o) host (.tag t (.mk nodes label) code p) = .ok (.one x) ∧
        x.Holds t.name children (.ofPlace p) ∧ SelfClosed nodes code children) := by
  refine ⟨visit_selfClosing_throws h, visit_selfClosing_holds h, ?_, ?_⟩
  · rintro c rfl rfl
    exact visit_selfClosing_code h
  · intro s text compiled f root hok htext hparse hmem
    obtain ⟨nodes', hnested⟩ := exists_nested_of_captured hok htext f
    exact visit_selfClosing_conforms h (Template.conforms_of_parse hparse _ hmem)
      (isBlankText_of_walk hnested hparse hmem h)

/-- Code on the line of a self-closing tag, in captured text, and one with white space in its block.
-/
theorem visit_selfClosing_captured :
    let s := "p\n  :capture\n    img/= x\n    hr/\n      |  \n"
    (Compile.source {} s).isOk = true ∧ Embeds s "img/= x\nhr/\n  |" ∧
      ∃ root t nodes label code p, Template.parse "img/= x\nhr/\n  |" none = .ok root ∧
        .tag t (.mk nodes label) code p ∈ root.walk ∧ code.isSome = true ∧
        (Node.tag t (.mk nodes label) code p).SelfCloses {} ∧ ∃ x children,
          visit {} (nested {}) none (.tag t (.mk nodes label) code p) = .ok (.one x) ∧
            x.Holds t.name children (.ofPlace p) ∧ SelfClosed nodes code children := by
  intro s
  have hok : (Compile.source {} s).isOk = true := by decide +kernel
  have hcaptured : Embeds s "img/= x\nhr/\n  |" := embeds_of_passes (o := {}) (by decide +kernel)
  have hcode : passes {} "img/= x\nhr/\n  |" (fun root _ =>
      root.walk.any fun k => decide (k.SelfCloses {}) && k.code?.isSome) = true := by
    decide +kernel
  obtain ⟨root, -, hparse, -, hany⟩ := exists_of_passes hcode
  obtain ⟨k, hmem, hk⟩ := any_eq_true.mp hany
  rw [Bool.and_eq_true, decide_eq_true_iff] at hk
  obtain ⟨hself, hsome⟩ := hk
  cases k with
  | leaf | lead | frame | block => exact hself.elim
  | tag t body code p =>
    obtain ⟨nodes, label⟩ := body
    refine ⟨hok, hcaptured, root, t, nodes, label, code, p, hparse, hmem, hsome, hself, ?_⟩
    cases hsource : Compile.source {} s with
    | error e =>
      rw [hsource] at hok
      cases hok
    | ok compiled =>
      exact (visit_selfClosing (nested {}) none hself).2.2.2 s _ compiled none root hsource
        (.single hcaptured) hparse hmem

/-- The atoms among the children of the nodes. -/
def childAtoms (nodes : List IR) : List Atom :=
  nodes.flatMap fun n => (n.children?.getD []).filterMap IR.atom?

/-- A self-closing tag has an expression in it. -/
theorem source_selfClosing_expression :
    (Compile.source {} "img/= x").toOption.map childAtoms = some [.expression "x" true true] := by
  decide +kernel

end Compile

end Offside
