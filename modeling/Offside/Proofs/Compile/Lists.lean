import Offside.Compile.Visit
import Offside.Proofs.Template.Tree

/-!
# Visits in terms of lists

Whoever visits a node reads two things off the nodes it holds: what they give when they are
visited, and what they are by themselves, with nothing below them (`Node.bare`). So a visit can be
told in terms of lists of nodes. Leads, cases, blocks and functions put together what their nodes
give (`visitList`); a tag keeps what each gives apart, and which node it was (`visitBare`). The code
on a tag's line is taken for its nodes where it has none (`contentOf`).

A tag is a phrase, a statement, a function or an element, which its name decides (`Tag.kind`), and
may be turned down before that for what it holds (`Tag.IsOpen`). There is one equation for each, so
that a proof about visits has a lemma for each kind of tag and never takes the visit apart itself.
-/

set_option autoImplicit false

namespace Offside

open List

/-! ## Nodes by themselves -/

namespace Node

/-- The node by itself, with nothing below it. -/
def bare : Node → Node
  | .leaf l p => .leaf l p
  | .lead l none p => .lead l none p
  | .lead l (some (.mk _ label)) p => .lead l (some (.mk [] label)) p
  | .frame f (.mk _ label) p => .frame f (.mk [] label) p
  | .block (.mk _ label) p => .block (.mk [] label) p
  | .tag t (.mk _ label) _ p => .tag t (.mk [] label) none p

@[simp] theorem place_bare (n : Node) : n.bare.place = n.place := by
  cases n using induct <;> rfl

@[simp] theorem text?_bare (n : Node) : n.bare.text? = n.text? := by
  cases n using induct <;> rfl

end Node

/-- The tag stands for itself: it is neither a phrase, nor a statement, nor a function. -/
structure Tag.IsElement (o : Options) (t : Tag) : Prop where
  not_phrase : t.name ≠ o.phraseTag
  not_statement : Tag.isStatement t.name = false
  not_function : t.name ≠ "function"

/-- The kinds of tags, told apart by their names. -/
inductive Tag.Kind (o : Options) (t : Tag) : Prop
  | phrase (hname : t.name = o.phraseTag)
  | statement (hphrase : t.name ≠ o.phraseTag) (hname : Tag.isStatement t.name = true)
  | function (hphrase : t.name ≠ o.phraseTag) (hname : t.name = "function")
  | element (ht : t.IsElement o)

theorem Tag.kind (o : Options) (t : Tag) : t.Kind o := by
  -- The order is that of the visit: a phrase may have the name of a statement or of a function.
  by_cases hphrase : t.name = o.phraseTag
  · exact .phrase hphrase
  by_cases hstatement : Tag.isStatement t.name = true
  · exact .statement hphrase hstatement
  by_cases hfunction : t.name = "function"
  · exact .function hphrase hfunction
  · exact .element ⟨hphrase, Bool.not_eq_true _ ▸ hstatement, hfunction⟩

/-- The tag may hold the nodes: it is not self-closing, or they are white space. -/
def Tag.IsOpen (t : Tag) (nodes : List Node) : Prop :=
  t.selfClosing = true → ∀ n ∈ nodes, Compile.isBlankText n = true

theorem Tag.isOpen_iff {t : Tag} {nodes : List Node} :
    t.IsOpen nodes ↔ ¬(t.selfClosing && !nodes.all Compile.isBlankText) = true := by
  rw [Bool.and_eq_true, Bool.not_eq_true', not_and, Bool.not_eq_false, all_eq_true, IsOpen]

namespace Compile

@[simp] theorem contentName?_bare (n : Node) : contentName? n.bare = contentName? n := by
  cases n using Node.induct with
  | block nodes label p _ => rcases label with ⟨_ | name, args, isSub⟩ <;> rfl
  | leaf l p | bare l p | lead l nodes label p | frame f nodes label p
  | tag t nodes label code p => rfl

@[simp] theorem isBlankText_bare (n : Node) : isBlankText n.bare = isBlankText n := by
  simp [isBlankText]

theorem fragmentName_bare (p : Place) (n : Node) : fragmentName p n.bare = fragmentName p n := by
  cases n using Node.induct with
  | block nodes label p' _ => rcases label with ⟨_ | name, args, isSub⟩ <;> rfl
  | leaf l p | bare l p | lead l nodes label p | frame f nodes label p
  | tag t nodes label code p => rfl

theorem linesOf_bare (nodes : List Node) : linesOf (nodes.map Node.bare) = linesOf nodes := by
  simp [linesOf, Function.comp_def]

theorem statementTag_bare (name : String) (nodes : List Node) (p : Place) :
    statementTag name (nodes.map Node.bare) p = statementTag name nodes p := by
  have hline (n : Node) : statementLine name n.bare = statementLine name n := by
    simp [statementLine]
  rw [statementTag, mapM_map, statementTag]
  simp only [Function.comp_def, hline]

theorem signature_bare (nodes : List Node) (p : Place) :
    signature (nodes.map Node.bare) p = signature nodes p := by
  cases nodes <;> simp [signature]

theorem tag_bare (name : String) (attrs : List Attr) (spreads : List String)
    (results : List (Node × Visited)) (p : Place) :
    tag name attrs spreads (results.map (Prod.map Node.bare id)) p =
      tag name attrs spreads results p := by
  have hnamed : namedContent (results.map (Prod.map Node.bare id)) = namedContent results := by
    rw [namedContent, filterMap_map, namedContent]
    exact congrArg (filterMap · results) (funext fun r => by simp)
  rw [tag, hnamed, tag]
  simp [plainContent, flatMap_map]

/-! ## Lists of nodes -/

variable {m : Type → Type} [Monad m] [MonadExceptOf CompileError m] {o : Options} {embed : Embed m}
  {host : Option Host} {p : Place} {nodes : List Node} {label : BlockLabel}

/-- The nodes that the nodes of a list give, in order. -/
def visitList (o : Options) (embed : Embed m) (host : Option Host) (nodes : List Node) :
    m (List IR) :=
  (fun results => results.flatMap fun r => r.2.toList) <$> visitEach o embed host nodes

/-- What the nodes of a list give, each with the node by itself. -/
def visitBare (o : Options) (embed : Embed m) (host : Option Host) (nodes : List Node) :
    m (List (Node × Visited)) :=
  nodes.mapM fun n => (n.bare, ·) <$> visit o embed host n

/-- What a tag holds: its block or, if that is empty, the code on its line. -/
def contentOf (nodes : List Node) (code : Option Node) : List Node :=
  if nodes.isEmpty then code.toList else nodes

theorem contentOf_of_ne_nil (h : nodes ≠ []) (code : Option Node) :
    contentOf nodes code = nodes := by
  rw [contentOf, if_neg (by simpa using h)]

theorem contentOf_none (nodes : List Node) : contentOf nodes none = nodes := by
  cases nodes <;> rfl

/-- The block it is, if it cannot be the code. -/
theorem contentOf_eq_of_not_mem {code : Option Node}
    (h : ∀ c, code = some c → c ∉ contentOf nodes code) : contentOf nodes code = nodes := by
  cases nodes with
  | cons n rest => rfl
  | nil =>
    cases code with
    | none => rfl
    | some c => exact absurd mem_cons_self (h c rfl)

theorem contentOf_map (g : Node → Node) (nodes : List Node) (code : Option Node) :
    contentOf (nodes.map g) (code.map g) = (contentOf nodes code).map g := by
  cases nodes <;> cases code <;> rfl

theorem forall_mem_contentOf {P : Node → Prop} {code : Option Node} (h : ∀ n ∈ nodes, P n)
    (hcode : ∀ c, code = some c → P c) : ∀ n ∈ contentOf nodes code, P n := by
  unfold contentOf
  split
  · simpa using hcode
  · exact h

variable [LawfulMonad m]

theorem visitList_nil : visitList o embed host [] = pure [] := by
  simp [visitList, visitEach]

theorem visitList_cons (n : Node) (rest : List Node) :
    visitList o embed host (n :: rest) = (do
      let visited ← visit o embed host n
      let others ← visitList o embed host rest
      pure (visited.toList ++ others)) := by
  simp [visitList, visitEach]

theorem visitList_append (xs ys : List Node) :
    visitList o embed host (xs ++ ys) = (do
      let first ← visitList o embed host xs
      let second ← visitList o embed host ys
      pure (first ++ second)) := by
  induction xs with
  | nil => simp [visitList_nil]
  | cons n rest ih =>
    simp only [cons_append, visitList_cons, ih, bind_assoc, pure_bind, append_assoc]

theorem visitList_eq_mapM (nodes : List Node) :
    visitList o embed host nodes =
      flatten <$> nodes.mapM fun n => Visited.toList <$> visit o embed host n := by
  induction nodes with
  | nil => simp [visitList_nil]
  | cons n rest ih => simp [visitList_cons, ih]

theorem visitBare_eq_map :
    visitBare o embed host nodes =
      List.map (Prod.map Node.bare id) <$> visitEach o embed host nodes := by
  induction nodes with
  | nil => simp [visitBare, visitEach]
  | cons n rest ih =>
    rw [visitBare, mapM_cons, ← visitBare, ih, visitEach]
    simp

theorem visitFragments_eq_mapM :
    visitFragments o embed p nodes = nodes.mapM fun n => (do
      let name ← ofExcept (fragmentName p n)
      fragment name <$> visit o embed none n) := by
  induction nodes with
  | nil => simp [visitFragments]
  | cons n rest ih => simp [visitFragments, ih]

theorem visit_lead_eq (l : Lead) (body : Option Block) :
    visit o embed host (.lead l body p) = (do
      let shell ← ofExcept (lead (Node.dressFor host (.lead l body p)) l)
      let children ← visitList o embed (if l.isTransparent then host else none)
        (Node.lead l body p).children
      pure (.one (shell.fill children p))) := by
  rcases body with _ | ⟨nodes, label⟩
  · simp [visit, Node.children, visitList_nil]
  · simp [visit, Node.children, visitList, Block.nodes]

theorem visit_case_eq (expr : String) :
    visit o embed host (.frame (.caseOf expr) (.mk nodes label) p) = (do
      let children ← visitList o embed none nodes
      pure (.one (.group (.switch expr true) children (.ofPlace p)))) := by
  simp [visit, visitList]

theorem visit_block_eq :
    visit o embed host (.block (.mk nodes label) p) = (do
      let children ← visitList o embed (host.map fun h => h.inBlock label) nodes
      pure (block o label p children)) := by
  simp [visit, visitList]

theorem visit_tag_eq (t : Tag) (code : Option Node) :
    visit o embed host (.tag t (.mk nodes label) code p) =
      if t.selfClosing && !nodes.all isBlankText then throw (.misplaced (.selfClosing t.name) p)
      else if t.name = o.phraseTag then do
        let fragments ← visitFragments o embed p (contentOf nodes code)
        pure (.one (phrase t.name (hostedAttrs host t) t.spreads fragments p))
      else if Tag.isStatement t.name then ofExcept (statementTag t.name nodes p)
      else if t.name = "function" then do
        let sig ← ofExcept (signature nodes p)
        let children ← visitList o embed none nodes.tail
        pure (.one (.group (.function sig false) children (.ofPlace p)))
      else (do
        let results ← visitBare o embed (Host.ofTag t.name) (contentOf nodes code)
        pure (.one (tag t.name (hostedAttrs host t) t.spreads results p))) := by
  rw [visit]
  refine ite_congr rfl (fun _ => rfl) fun _ => ite_congr rfl (fun _ => ?phrase) fun _ =>
    ite_congr rfl (fun _ => rfl) fun _ => ite_congr rfl (fun _ => ?function) fun _ => ?plain
  case phrase => cases code <;> cases nodes <;> simp [contentOf, visitFragments]
  case function => cases nodes <;> simp [visitList, visitEach]
  case plain =>
    rw [visitBare_eq_map, bind_map_left]
    simp only [tag_bare]
    cases code <;> cases nodes <;> simp [contentOf, visitEach]

/-! ## Tags by their kinds -/

section Kinds

variable {t : Tag} {code : Option Node}

/-- A self-closing tag is turned down if it holds more than white space. -/
theorem visit_closed_eq (hclosed : ¬t.IsOpen nodes) :
    visit o embed host (.tag t (.mk nodes label) code p) =
      throw (.misplaced (.selfClosing t.name) p) := by
  rw [Tag.isOpen_iff, Decidable.not_not] at hclosed
  rw [visit_tag_eq, if_pos hclosed]

/-- A phrase takes its fragments. -/
theorem visit_phrase_eq (hname : t.name = o.phraseTag) (hopen : t.IsOpen nodes) :
    visit o embed host (.tag t (.mk nodes label) code p) = (do
      let fragments ← visitFragments o embed p (contentOf nodes code)
      pure (.one (phrase t.name (hostedAttrs host t) t.spreads fragments p))) := by
  rw [visit_tag_eq, if_neg (Tag.isOpen_iff.mp hopen), if_pos hname]

/-- A statement takes the text of its lines, and visits nothing. -/
theorem visit_statement_eq (hphrase : t.name ≠ o.phraseTag) (hname : Tag.isStatement t.name = true)
    (hopen : t.IsOpen nodes) :
    visit o embed host (.tag t (.mk nodes label) code p) =
      ofExcept (statementTag t.name nodes p) := by
  rw [visit_tag_eq, if_neg (Tag.isOpen_iff.mp hopen), if_neg hphrase, if_pos hname]

/-- A function takes its first node for its signature, and visits the others. -/
theorem visit_function_eq (hphrase : t.name ≠ o.phraseTag) (hname : t.name = "function")
    (hopen : t.IsOpen nodes) :
    visit o embed host (.tag t (.mk nodes label) code p) = (do
      let sig ← ofExcept (signature nodes p)
      let children ← visitList o embed none nodes.tail
      pure (.one (.group (.function sig false) children (.ofPlace p)))) := by
  have hstatement : ¬Tag.isStatement t.name = true := by
    rw [hname]
    decide
  rw [visit_tag_eq, if_neg (Tag.isOpen_iff.mp hopen), if_neg hphrase, if_neg hstatement,
    if_pos hname]

/-- An element takes its content. -/
theorem visit_element_eq (ht : t.IsElement o) (hopen : t.IsOpen nodes) :
    visit o embed host (.tag t (.mk nodes label) code p) =
      (fun results => .one (tag t.name (hostedAttrs host t) t.spreads results p)) <$>
        visitBare o embed (Host.ofTag t.name) (contentOf nodes code) := by
  have hstatement : ¬Tag.isStatement t.name = true := by simp [ht.not_statement]
  rw [visit_tag_eq, if_neg (Tag.isOpen_iff.mp hopen), if_neg ht.not_phrase, if_neg hstatement,
    if_neg ht.not_function, map_eq_pure_bind]

/-- It makes no difference to an element what is below the nodes of its content. -/
theorem visit_element_eq_visitEach (ht : t.IsElement o) (hopen : t.IsOpen nodes) :
    visit o embed host (.tag t (.mk nodes label) code p) =
      (fun results => .one (tag t.name (hostedAttrs host t) t.spreads results p)) <$>
        visitEach o embed (Host.ofTag t.name) (contentOf nodes code) := by
  rw [visit_element_eq ht hopen, visitBare_eq_map, Functor.map_map]
  simp only [tag_bare]

end Kinds

end Compile

end Offside
