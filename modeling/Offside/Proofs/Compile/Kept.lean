import Offside.Proofs.Compile.Nested
import Offside.Proofs.Compile.Outcome
import Offside.Proofs.IR.Traced
import Offside.Proofs.Template.Contract

/-!
# No tag is lost

Every tag of a template is found again in what the template is compiled to: as a tag of its name, or
as the statement or function that it stands for, and with its line and file name
(`source_keeps_tags`).

A render tree is seen here as the list of its marks, that is, of the tags that its nodes stand for
and of the places they come from. The step is that a visit keeps the marks of everything it has
visited on the way (`visit_held`). There are two ways to lose them. An expression has no use for
what is nested below it. And of what is given to a tag under one name only the last is kept, where
some names are taken by the compiler: `class`, `className` and `style` are collected, `&props` is
for spread expressions, and a tag that is a whole fragment learns the name of the fragment under
`key`.
-/

set_option autoImplicit false

namespace Offside

open List

/-! ## Marks -/

namespace IR

/-- The name of the tag that the node stands for. -/
def tagName? : IR → Option String
  | .tag name _ _ _ _ => some name
  | .atom (.statement keyword _) _ => some keyword.word
  | .group (.function _ _) _ _ => some "function"
  | _ => none

/-- The tag that the node stands for and the place that it comes from. -/
def mark (n : IR) : Option String × Provenance :=
  (n.tagName?, n.origin)

/-- The marks of all nodes of the trees. -/
def marks (nodes : List IR) : List (Option String × Provenance) :=
  (walkAll nodes).map mark

theorem mem_marks {nodes : List IR} {x : Option String × Provenance} :
    x ∈ marks nodes ↔ ∃ n ∈ nodes, ∃ m ∈ walk n, m.mark = x := by
  simp only [marks, mem_map, mem_walkAll]
  constructor
  · rintro ⟨m, ⟨n, hn, hm⟩, rfl⟩
    exact ⟨n, hn, m, hm, rfl⟩
  · rintro ⟨n, hn, m, hm, rfl⟩
    exact ⟨m, ⟨n, hn, hm⟩, rfl⟩

theorem marks_subset {xs ys : List IR} (h : xs ⊆ ys) : marks xs ⊆ marks ys := by
  intro x hx
  obtain ⟨n, hn, hm⟩ := mem_marks.mp hx
  exact mem_marks.mpr ⟨n, h hn, hm⟩

theorem marks_subset_of_mem_lists {n : IR} {list : List IR} (h : list ∈ n.lists) :
    marks list ⊆ marks [n] := by
  intro x hx
  obtain ⟨c, hc, m, hm, rfl⟩ := mem_marks.mp hx
  have hn : m ∈ walk n := mem_walk.mpr (.inr ⟨list, h, mem_walkAll.mpr ⟨c, hc, hm⟩⟩)
  exact mem_marks.mpr ⟨n, mem_cons_self, m, hn, rfl⟩

/-- A tag with more content in its props has more marks. -/
theorem marks_tag_subset {name : String} {props props' : Props} {children : List IR} {buffer : Bool}
    {origin : Provenance} (h : Props.contents props ⊆ Props.contents props') :
    marks [.tag name props children buffer origin] ⊆
      marks [.tag name props' children buffer origin] := by
  intro x hx
  obtain ⟨n, hn, m, hm, rfl⟩ := mem_marks.mp hx
  obtain rfl := mem_singleton.mp hn
  rcases mem_walk.mp hm with rfl | ⟨list, hlist, hm⟩
  · exact mem_marks.mpr ⟨_, mem_cons_self, _, mem_walk.mpr (.inl rfl), rfl⟩
  · have hlist' : list ∈ (IR.tag name props' children buffer origin).lists :=
      cons_subset_cons _ h hlist
    obtain ⟨c, hc, hm⟩ := mem_walkAll.mp hm
    exact marks_subset_of_mem_lists hlist' (mem_marks.mpr ⟨c, hc, m, hm, rfl⟩)

end IR

/-! ## What stays in props -/

namespace Props

theorem mem_insertCollected_of_ne {key : String} {exprs : List String} {props : Props}
    {p : String × PropEntry} (h : p ∈ props) (hne : exprs ≠ [] → p.1 ≠ key) :
    p ∈ insertCollected key exprs props := by
  unfold insertCollected
  split
  · exact h
  · rename_i hexprs
    exact Ordered.mem_insert_of_ne h (hne (by simpa using hexprs))

/-- What is given under a name of its own stays, after whatever it is given, unless the name is one
of those that the compiler takes. -/
theorem mem_gather {before given : List (String × PropEntry)} {spreads : List String}
    {p : String × PropEntry} (h : p ∈ given) (hnodup : (given.map Prod.fst).Nodup)
    (hcollects : Attr.collects p.1 = false) (hspread : spreads ≠ [] → p.1 ≠ spreadKey) :
    p ∈ gather (before ++ given) spreads := by
  obtain ⟨xs, ys, rfl⟩ := append_of_mem h
  rw [map_append, map_cons] at hnodup
  have hlast : p.1 ∉ ys.map Prod.fst := (nodup_cons.mp (nodup_append.mp hnodup).2.1).1
  -- What is put in after the plain entries has other names.
  have hne (key : String) (hkey : Attr.collects key = true) : p.1 ≠ key := by
    rintro rfl
    rw [hcollects] at hkey
    cases hkey
  refine mem_insertCollected_of_ne (mem_insertCollected_of_ne (mem_insertCollected_of_ne ?_
    fun _ => hne "style" rfl) fun _ => hne "class" rfl) hspread
  rw [← append_assoc, filter_append, filter_cons_of_pos (by simp [hcollects])]
  refine Ordered.mem_ofPairs fun hmem => hlast ?_
  exact (filter_sublist.map Prod.fst).subset hmem

/-- The path of a phrase is an attribute. -/
theorem exists_namePath_append (attrs : List Attr) {given : List (String × PropEntry)}
    (h : ∀ p ∈ given, p.2.content?.isSome = true) :
    ∃ before, namePath (attrs.map ofAttr ++ given) = before ++ given := by
  cases attrs with
  | nil =>
    refine ⟨[], ?_⟩
    rw [map_nil, nil_append]
    unfold namePath
    split
    · rename_i name escaped args rest
      cases h _ mem_cons_self
    · rfl
  | cons a rest =>
    rw [map_cons, cons_append, ofAttr]
    unfold namePath
    split
    · rename_i name escaped args rest' heq
      obtain ⟨-, rfl⟩ := cons.inj heq
      split
      · exact ⟨_ :: rest.map ofAttr, rfl⟩
      · exact ⟨_ :: rest.map ofAttr, rfl⟩
    · exact ⟨_ :: rest.map ofAttr, rfl⟩

end Props

/-! ## Names -/

/-- The names of the named blocks among the nodes. -/
def Node.names (nodes : List Node) : List String :=
  nodes.filterMap Compile.blockName?

/-- The names under which a tag is given content. -/
def Node.given : Node → List String
  | .tag _ body _ _ => names body.nodes
  | _ => []

/-- The names of the attributes of a tag. -/
def Node.attrNames : Node → List String
  | .tag t _ _ _ => t.attrs.map Attr.name
  | _ => []

/-- The names under which the tag is given content differ from each other and from its attributes,
and none is one of those that are collected. -/
def Node.NamesApart (n : Node) : Prop :=
  n.given.Nodup ∧ ∀ name ∈ n.given, name ∉ n.attrNames ∧ Attr.collects name = false

instance : DecidablePred Node.NamesApart := fun _ => inferInstanceAs (Decidable (_ ∧ _))

mutual
/-- What is left of the node when blocks are left out, other than slots, and text without
characters. -/
def Node.surface (o : Options) : Node → List Node
  | .leaf (.text t) p => if t.isEmpty then [] else [.leaf (.text t) p]
  | .block (.mk nodes label) p =>
    if (Compile.slotName? o label).isSome then [.block (.mk nodes label) p] else surfaces o nodes
  | n => [n]

/-- What is left of the nodes of a list. -/
def Node.surfaces (o : Options) : List Node → List Node
  | [] => []
  | n :: rest => n.surface o ++ surfaces o rest
end

/-- The compiler leaves the names to the content that is given under them: a tag with spread
expressions is not given `&props`, and a tag that is all there is to a fragment of a phrase is not
given `key`. -/
def Node.NamesFree (o : Options) : Node → Prop
  | .tag t body code p =>
    (t.spreads ≠ [] → Props.spreadKey ∉ Node.given (.tag t body code p)) ∧
      (t.name = o.phraseTag → ∀ k ∈ body.nodes, (k.surface o).length = 1 →
        ∀ m ∈ k.surface o, "key" ∉ m.given)
  | _ => True

instance (o : Options) : DecidablePred (Node.NamesFree o)
  | .tag _ _ _ _ => inferInstanceAs (Decidable (_ ∧ _))
  | .leaf _ _ | .lead _ _ _ | .frame _ _ _ | .block _ _ => .isTrue trivial

namespace Compile

variable {o : Options} {embed : Embed (Except CompileError)} {host : Option Host} {p : Place}
  {nodes : List Node} {n : Node} {v : Visited}

theorem map_fst_namedContent (results : List (Node × Visited)) :
    (namedContent results).map Prod.fst = Node.names (results.map Prod.fst) := by
  simp only [namedContent, Node.names, map_filterMap, filterMap_map]
  congr 1
  funext r
  cases h : contentName? r.1 <;> simp [blockName?, h]

theorem namedContent_append (xs ys : List (Node × Visited)) :
    namedContent (xs ++ ys) = namedContent xs ++ namedContent ys :=
  filterMap_append

theorem fst_fragment (name : String) (v : Visited) : (fragment name v).1 = name := by
  unfold fragment
  split <;> rfl

theorem map_fst_fragments {results : List (Node × Visited)}
    (h : ∀ r ∈ results, (blockName? r.1).isSome = true) :
    (results.map fragmentOf).map Prod.fst = Node.names (results.map Prod.fst) := by
  rw [Node.names, filterMap_map, map_map, ← filterMap_eq_map]
  refine filterMap_congr fun r hr => ?_
  obtain ⟨name, hname⟩ := Option.isSome_iff_exists.mp (h r hr)
  simp [fragmentOf, fst_fragment, hname]

/-! ## Fragments -/

theorem isSome_content?_fragment (name : String) (v : Visited) :
    (fragment name v).2.content?.isSome = true := by
  unfold fragment
  split <;> rfl

/-- A fragment keeps the marks of what it is made of, if it is not a tag with content under
`key`. -/
theorem marks_fragment (name : String)
    (h : ∀ tagName props children buffer origin,
      v.toList = [.tag tagName props children buffer origin] →
        ∀ q ∈ props, q.2.content?.isSome = true → q.1 ≠ "key") :
    ∃ list, fragment name v = (name, .content list none none) ∧
      IR.marks v.toList ⊆ IR.marks list := by
  unfold fragment
  split
  · rename_i tagName props children buffer origin heq
    refine ⟨_, rfl, ?_⟩
    rw [heq]
    refine IR.marks_tag_subset fun list hlist => ?_
    obtain ⟨q, hq, hcontent⟩ := Props.mem_contents.mp hlist
    have hne := h _ _ _ _ _ heq q hq (hcontent ▸ rfl)
    exact Props.mem_contents.mpr ⟨q, Ordered.mem_insert_of_ne hq hne, hcontent⟩
  · exact ⟨_, rfl, Subset.refl _⟩

/-- The visit of a node that is not left out: there is something in it, and if that is one tag, then
it has no content but what the node gives it. -/
def Solid (n : Node) (v : Visited) : Prop :=
  v.toList ≠ [] ∧ ∀ tagName props children buffer origin,
    v.toList = [.tag tagName props children buffer origin] →
      ∀ q ∈ props, q.2.content?.isSome = true → q.1 ∈ n.given

theorem solid_of_not_tag {x : IR} {rest : List IR} (h : v.toList = x :: rest)
    (hx : ∀ tagName props children buffer origin, x ≠ .tag tagName props children buffer origin) :
    Solid n v := by
  refine ⟨by simp [h], fun tagName props children buffer origin htag => ?_⟩
  rw [h] at htag
  exact absurd (cons.inj htag).1 (hx _ _ _ _ _)

theorem contentName?_code {t : Tag} {body : Block} {code : Option Node}
    (h : (Node.tag t body code p).Conforms) : ∀ c, code = some c → contentName? c = none := by
  rintro c rfl
  obtain ⟨coded, escape, q, expr, rfl, -⟩ := h
  rfl

theorem not_content_of_mem_ofAttr {attrs : List Attr} {q : String × PropEntry}
    (h : q ∈ attrs.map Props.ofAttr) : ¬q.2.content?.isSome = true := by
  obtain ⟨a, -, rfl⟩ := mem_map.mp h
  exact Bool.false_ne_true

theorem solid_tag {t : Tag} {label : BlockLabel} {code : Option Node}
    (h : TagVisited o embed host t nodes p v) : Solid (.tag t (.mk nodes label) code p) v := by
  -- Attributes are no content; what else is given to the tag has one of the names.
  have hgiven {given : List (String × PropEntry)} {q : String × PropEntry}
      (hnames : given.map Prod.fst = Node.names nodes)
      (hq : q ∈ (hostedAttrs host t).map Props.ofAttr ++ given)
      (hcontent : q.2.content?.isSome = true) : q.1 ∈ Node.names nodes := by
    rcases mem_append.mp hq with hattr | hq
    · exact absurd hcontent (not_content_of_mem_ofAttr hattr)
    · exact hnames ▸ mem_map_of_mem hq
  cases h with
  | @phrase results hname hresults hnamed =>
    refine ⟨cons_ne_nil _ _, ?_⟩
    intro tagName props children buffer origin htag q hq hcontent
    obtain ⟨-, rfl, -⟩ := IR.tag.inj (cons.inj htag).1
    have hnames := map_fst_fragments hnamed
    rw [hresults.nodes_eq] at hnames
    exact hgiven hnames (Props.mem_of_mem_gatherPhrase hq hcontent) hcontent
  | statement expr hname htext => exact solid_of_not_tag rfl (by simp)
  | function sig hname hnodes hfirst hresults => exact solid_of_not_tag rfl (by simp)
  | @plain results inline hresults hinline =>
    refine ⟨cons_ne_nil _ _, ?_⟩
    intro tagName props children buffer origin htag q hq hcontent
    obtain ⟨-, rfl, -⟩ := IR.tag.inj (cons.inj htag).1
    have hnames := map_fst_namedContent results
    rw [hresults.nodes_eq] at hnames
    rw [namedContent_append, hinline, append_nil] at hq
    exact hgiven hnames (Props.mem_of_mem_gather hq hcontent) hcontent

/-- What visiting the nodes of a list has given, where each of them gives something. -/
def Given (o : Options) (embed : Embed (Except CompileError)) (nodes : List Node) (list : List IR) :
    Prop :=
  ∃ results, Results o embed none nodes results ∧ (∀ r ∈ results, Solid r.1 r.2) ∧
    list = results.flatMap fun r => r.2.toList

theorem Given.nil : Given o embed [] [] :=
  ⟨[], .nil, by simp, rfl⟩

theorem Given.single (h : visit o embed none n = .ok v) (hv : Solid n v) :
    Given o embed [n] v.toList :=
  ⟨[(n, v)], .cons h .nil, by simpa using hv, by simp⟩

theorem Given.append {xs ys : List Node} {list list' : List IR} (h : Given o embed xs list)
    (h' : Given o embed ys list') : Given o embed (xs ++ ys) (list ++ list') := by
  obtain ⟨results, hresults, hsolid, rfl⟩ := h
  obtain ⟨results', hresults', hsolid', rfl⟩ := h'
  refine ⟨results ++ results', hresults.append hresults', fun r hr => ?_, flatMap_append.symm⟩
  exact (mem_append.mp hr).elim (hsolid r) (hsolid' r)

theorem given_surfaces {results : List (Node × Visited)}
    (hvisit : ∀ n ∈ nodes, ∀ v, visit o embed none n = .ok v →
      Given o embed (n.surface o) v.toList)
    (h : Results o embed none nodes results) :
    Given o embed (Node.surfaces o nodes) (results.flatMap fun r => r.2.toList) := by
  obtain ⟨rfl, hvisits⟩ := h
  induction results with
  | nil => exact .nil
  | cons r rest ih =>
    rw [map_cons, Node.surfaces, flatMap_cons]
    refine (hvisit r.1 mem_cons_self r.2 (hvisits r mem_cons_self)).append (ih ?_ ?_)
    · exact fun r hr => hvisits r (mem_cons_of_mem _ hr)
    · exact fun n hn => hvisit n (mem_cons_of_mem _ hn)

/-- What a visit gives is what visiting the surface gives. -/
theorem given_surface (hn : ∀ m ∈ n.walk, m.Conforms) (h : visit o embed none n = .ok v) :
    Given o embed (n.surface o) v.toList := by
  induction n using Node.induct generalizing v with
  | leaf l q =>
    have hvisit := h
    rw [visit, ofExcept_eq] at h
    cases l with
    | text t =>
      cases h
      rw [Node.surface]
      by_cases ht : t.isEmpty = true
      · rw [text, if_pos ht, if_pos ht]
        exact .nil
      · rw [if_neg ht]
        refine .single hvisit (solid_of_not_tag (by rw [text, if_neg ht]; rfl) (by simp))
    | comment value buffer | literal expr buffer escape | yield name args =>
      cases h
      exact .single hvisit (solid_of_not_tag rfl (by simp))
    | mixinBlock | doctype t => cases h
  | bare l q | lead l nodes label q _ =>
    obtain ⟨shell, inner, results, -, -, rfl⟩ := visit_lead_ok h
    cases shell with
    | group head | atom a => exact .single h (solid_of_not_tag rfl (by simp [Shell.fill]))
  | frame f nodes label q _ =>
    have hvisit := h
    cases f with
    | comment value buffer =>
      rw [visit] at h
      cases h
      exact .single hvisit (solid_of_not_tag rfl (by simp))
    | caseOf expr =>
      obtain ⟨results, -, rfl⟩ := visit_case_ok h
      exact .single hvisit (solid_of_not_tag rfl (by simp))
    | filter name attrs =>
      rw [visit, filter] at h
      split at h
      · obtain ⟨captured, -, h⟩ := exists_of_bind_eq_ok h
        cases h
        exact .single hvisit (solid_of_not_tag rfl (by simp))
      · cases h
        exact .single hvisit (solid_of_not_tag rfl (by simp))
  | block nodes label q ih =>
    obtain ⟨-, hchildren, -⟩ := Node.forall_mem_walk.mp hn
    obtain ⟨results, hresults, rfl⟩ := visit_block_ok h
    rw [Node.surface]
    cases hslot : slotName? o label with
    | some name =>
      rw [block, hslot] at h ⊢
      exact .single h (solid_of_not_tag rfl (by simp))
    | none =>
      rw [block, hslot]
      exact given_surfaces (fun n hn v hv => ih n hn (hchildren n hn) hv) hresults
  | tag t nodes label code q _ _ =>
    obtain ⟨hself, -, -⟩ := Node.forall_mem_walk.mp hn
    exact .single h (solid_tag (visit_tag_ok (contentName?_code hself) h))

theorem Given.exists_of_singleton {x : IR} (h : Given o embed nodes [x]) :
    ∃ m v, nodes = [m] ∧ Solid m v ∧ v.toList = [x] := by
  obtain ⟨results, ⟨rfl, -⟩, hsolid, hlist⟩ := h
  cases results with
  | nil => cases hlist
  | cons r rest =>
    rw [flatMap_cons] at hlist
    rcases append_eq_singleton_iff.mp hlist.symm with ⟨hnil, -⟩ | ⟨hx, hnil⟩
    · exact absurd hnil (hsolid r mem_cons_self).1
    · refine ⟨r.1, r.2, ?_, hsolid r mem_cons_self, hx⟩
      cases rest with
      | nil => rfl
      | cons r' rest =>
        rw [flatMap_cons, append_eq_nil_iff] at hnil
        exact absurd hnil.1 (hsolid r' (mem_cons_of_mem _ mem_cons_self)).1

/-- A fragment keeps the marks of the block it comes of. -/
theorem marks_fragment_of_visit (hn : ∀ m ∈ n.walk, m.Conforms)
    (h : visit o embed none n = .ok v)
    (hkey : (n.surface o).length = 1 → ∀ m ∈ n.surface o, "key" ∉ m.given) (name : String) :
    ∃ list, fragment name v = (name, .content list none none) ∧
      IR.marks v.toList ⊆ IR.marks list := by
  refine marks_fragment name fun tagName props children buffer origin htag q hq hcontent hname => ?_
  have hgiven := given_surface hn h
  rw [htag] at hgiven
  obtain ⟨m, vm, hm, hsolid, hvm⟩ := hgiven.exists_of_singleton
  rw [hm] at hkey
  exact hkey rfl m mem_cons_self (hname ▸ hsolid.2 _ _ _ _ _ hvm q hq hcontent)

end Compile

/-! ## The step -/

/-- Nodes that are never tags and hold nothing. -/
def Node.Inert : Node → Prop
  | .leaf (.text _) _ | .lead (.code _ _ _) none _ => True
  | _ => False

theorem Node.inert_of_text {n : Node} (h : n.text?.isSome = true) : n.Inert := by
  cases n with
  | leaf l p =>
    cases l with
    | text t => trivial
    | comment value buffer | literal expr buffer escape | yield name args | mixinBlock
    | doctype t => cases h
  | lead l body p | frame f body p | block body p | tag t body code p => cases h

theorem Node.Inert.held_eq_nil {n : Node} (h : n.Inert) : n.held = [] := by
  cases n with
  | leaf l p => rfl
  | lead l body p =>
    cases body with
    | none => rfl
    | some body => cases l <;> exact h.elim
  | frame f body p | block body p | tag t body code p => exact h.elim

/-- The node is an expression. -/
def Node.isExpression : Node → Bool
  | .lead (.code coded _ _) _ _ => (Statement.decode? coded).any fun s => s.1 == .expression
  | _ => false

namespace Compile

variable {o : Options} {embed : Embed (Except CompileError)} {host : Option Host} {p : Place}
  {nodes : List Node} {n k : Node} {v : Visited}

theorem isExpression_of_lead {node : Node} {l : Lead} {body : Option Block} {a : Atom}
    (h : lead node l = .ok (.atom a)) : (Node.lead l body p).isExpression = true := by
  cases l with
  | code coded buffer escape =>
    rw [lead] at h
    split at h
    · rename_i s expr hs
      cases s with
      | condition word => cases word <;> cases h
      | expression => simp [Node.isExpression, hs]
    · cases h
  | each header key | when expr => cases h
  | mixin name args call => cases h

theorem marks_flatMap {results : List (Node × Visited)} {r : Node × Visited} (hr : r ∈ results) :
    IR.marks r.2.toList ⊆ IR.marks (results.flatMap fun r => r.2.toList) :=
  IR.marks_subset fun _ hx => mem_flatMap.mpr ⟨r, hr, hx⟩

/-- The marks of a list below the only node of a visit. -/
theorem marks_below {x : IR} {list : List IR} (hlist : list ∈ x.lists)
    (h : IR.marks v.toList ⊆ IR.marks list) : IR.marks v.toList ⊆ IR.marks (Visited.one x).toList :=
  List.Subset.trans h (IR.marks_subset_of_mem_lists hlist)

/-- What is given to a tag under names stays in its props. -/
theorem mem_contents_gather {t : Tag} {label : BlockLabel} {code : Option Node}
    (hapart : (Node.tag t (.mk nodes label) code p).NamesApart)
    (hfree : (Node.tag t (.mk nodes label) code p).NamesFree o)
    {given : List (String × PropEntry)} (hnames : given.map Prod.fst = Node.names nodes)
    {q : String × PropEntry} (hq : q ∈ given) {list : List IR} (hlist : q.2.content? = some list)
    (before : List (String × PropEntry)) :
    list ∈ Props.contents (Props.gather (before ++ given) t.spreads) := by
  have hname : q.1 ∈ Node.names nodes := hnames ▸ mem_map_of_mem hq
  refine Props.mem_contents.mpr ⟨q, Props.mem_gather hq (hnames ▸ hapart.1) ?_ ?_, hlist⟩
  · exact (hapart.2 q.1 hname).2
  · intro hspreads heq
    exact hfree.1 hspreads (heq ▸ hname)

theorem tag_keeps {t : Tag} {label : BlockLabel} {code : Option Node}
    {results inline : List (Node × Visited)} (hresults : results.map Prod.fst = nodes)
    (hinline : namedContent inline = []) {r : Node × Visited} (hr : r ∈ results)
    (hapart : (Node.tag t (.mk nodes label) code p).NamesApart)
    (hfree : (Node.tag t (.mk nodes label) code p).NamesFree o) (attrs : List Attr) :
    IR.marks r.2.toList ⊆ IR.marks [tag t.name attrs t.spreads (results ++ inline) p] := by
  cases hname : contentName? r.1 with
  | none =>
    refine marks_below mem_cons_self (IR.marks_subset fun x hx => mem_flatMap.mpr ?_)
    exact ⟨r, mem_append_left _ hr, by simpa [hname] using hx⟩
  | some content =>
    have hmem : (content.1, .content r.2.toList none content.2) ∈ namedContent results :=
      mem_filterMap.mpr ⟨r, hr, by simp [hname]⟩
    have hnames : (namedContent results).map Prod.fst = Node.names nodes :=
      hresults ▸ map_fst_namedContent results
    have hkept := mem_contents_gather hapart hfree hnames hmem rfl (attrs.map Props.ofAttr)
    rw [tag, namedContent_append, hinline, append_nil]
    exact marks_below (mem_cons_of_mem _ hkept) (Subset.refl _)

theorem phrase_keeps {t : Tag} {label : BlockLabel} {code : Option Node}
    {results : List (Node × Visited)} (hresults : Results o embed none nodes results)
    (hnamed : ∀ r ∈ results, (blockName? r.1).isSome = true)
    (hn : ∀ k ∈ nodes, ∀ m ∈ k.walk, m.Conforms) (hphrase : t.name = o.phraseTag)
    {r : Node × Visited} (hr : r ∈ results)
    (hapart : (Node.tag t (.mk nodes label) code p).NamesApart)
    (hfree : (Node.tag t (.mk nodes label) code p).NamesFree o) (attrs : List Attr) :
    IR.marks r.2.toList ⊆ IR.marks [phrase t.name attrs t.spreads (results.map fragmentOf) p] := by
  have hnode : r.1 ∈ nodes := hresults.nodes_eq ▸ mem_map_of_mem hr
  have hnames : (results.map fragmentOf).map Prod.fst = Node.names nodes :=
    hresults.nodes_eq ▸ map_fst_fragments hnamed
  have hcontent : ∀ q ∈ results.map fragmentOf, q.2.content?.isSome = true :=
    forall_mem_map.mpr fun r _ => isSome_content?_fragment _ r.2
  -- The fragment keeps the marks of the block, and the props keep the fragment.
  obtain ⟨list, heq, hmarks⟩ := marks_fragment_of_visit (hn r.1 hnode) (hresults.visits r hr)
    (hfree.2 hphrase r.1 hnode) ((blockName? r.1).getD "")
  obtain ⟨before, hbefore⟩ := Props.exists_namePath_append attrs hcontent
  have hkept := mem_contents_gather hapart hfree hnames (mem_map_of_mem hr)
    (congrArg (·.2.content?) heq) before
  rw [phrase, Props.gatherPhrase, hbefore]
  exact marks_below (mem_cons_of_mem _ hkept) hmarks

/-- What a node holds has been visited like the node itself, unless it is text or code, and its
marks are kept, unless the node is an expression. -/
theorem visit_held (hn : ∀ m ∈ n.walk, m.Conforms) (h : visit o embed host n = .ok v)
    (hk : k ∈ n.held) :
    k.Inert ∨ ∃ host' v', visit o embed host' k = .ok v' ∧
      (n.NamesApart → n.NamesFree o → n.isExpression = false →
        IR.marks v'.toList ⊆ IR.marks v.toList) := by
  obtain ⟨hself, hchildren, -⟩ := Node.forall_mem_walk.mp hn
  cases n with
  | leaf l q => cases hk
  | lead l body q =>
    obtain ⟨shell, inner, results, hshell, hresults, rfl⟩ := visit_lead_ok h
    obtain ⟨vk, hr, hvk⟩ := hresults.exists_mem hk
    refine .inr ⟨inner, vk, hvk, fun _ _ hexpr => ?_⟩
    cases shell with
    | group head => exact marks_below mem_cons_self (marks_flatMap hr)
    | atom a =>
      rw [isExpression_of_lead hshell] at hexpr
      cases hexpr
  | frame f body q =>
    cases f with
    -- The lines of a comment and of a filter are read off and not visited.
    | comment value buffer | filter name attrs => exact .inl (Node.inert_of_text (hself k hk))
    | caseOf expr =>
      obtain ⟨nodes, label⟩ := body
      obtain ⟨results, hresults, rfl⟩ := visit_case_ok h
      obtain ⟨vk, hr, hvk⟩ := hresults.exists_mem hk
      exact .inr ⟨none, vk, hvk, fun _ _ _ => marks_below mem_cons_self (marks_flatMap hr)⟩
  | block body q =>
    obtain ⟨nodes, label⟩ := body
    obtain ⟨results, hresults, rfl⟩ := visit_block_ok h
    obtain ⟨vk, hr, hvk⟩ := hresults.exists_mem hk
    refine .inr ⟨_, vk, hvk, fun _ _ _ => ?_⟩
    unfold block
    split
    · exact marks_below mem_cons_self (marks_flatMap hr)
    · exact marks_flatMap hr
  | tag t body code q =>
    obtain ⟨nodes, label⟩ := body
    rcases Node.mem_held.mp hk with hcode | hk
    · obtain rfl : code = some k := hcode
      obtain ⟨coded, escape, q', expr, rfl, -⟩ := hself
      exact .inl trivial
    · cases visit_tag_ok (contentName?_code hself) h with
      | phrase hname hresults hnamed =>
        obtain ⟨vk, hr, hvk⟩ := hresults.exists_mem hk
        refine .inr ⟨none, vk, hvk, fun hapart hfree _ => ?_⟩
        exact phrase_keeps hresults hnamed hchildren hname hr hapart hfree _
      | statement expr hname htext => exact .inl (Node.inert_of_text (htext k hk))
      | function sig hname hnodes hfirst hresults =>
        rcases mem_cons.mp (hnodes ▸ hk) with rfl | hk
        · exact .inl (Node.inert_of_text hfirst)
        · obtain ⟨vk, hr, hvk⟩ := hresults.exists_mem hk
          exact .inr ⟨none, vk, hvk, fun _ _ _ => marks_below mem_cons_self (marks_flatMap hr)⟩
      | plain inline hresults hinline =>
        obtain ⟨vk, hr, hvk⟩ := hresults.exists_mem hk
        refine .inr ⟨_, vk, hvk, fun hapart hfree _ => ?_⟩
        exact tag_keeps hresults.nodes_eq hinline hr hapart hfree _

end Compile

/-! ## The tags of a tree -/

/-- The name of a tag. -/
def Node.tagName? : Node → Option String
  | .tag t _ _ _ => some t.name
  | _ => none

/-- The node `m` is in the tree of `n` and not below an expression in it. -/
inductive Node.Attached : Node → Node → Prop
  | self (n : Node) : Attached n n
  | under {n k m : Node} (hn : n.isExpression = false) (hk : k ∈ n.held) (h : Attached k m) :
    Attached n m

/-- Where expressions hold nothing, every node is attached. -/
theorem Node.attached_of_mem_walk {n m : Node} (hm : m ∈ n.walk)
    (h : ∀ k ∈ n.walk, k.isExpression = true → k.held = []) : n.Attached m := by
  induction n using induct_held with
  | h n ih =>
    rw [walk_eq] at hm h
    rcases mem_cons.mp hm with rfl | hm
    · exact .self _
    · obtain ⟨k, hk, hm⟩ := mem_walkAll.mp hm
      refine .under ?_ hk (ih k hk hm fun x hx => ?_)
      · by_contra hexpr
        rw [h n mem_cons_self (by simpa using hexpr)] at hk
        cases hk
      · exact h x (mem_cons_of_mem _ (mem_walkAll.mpr ⟨k, hk, hx⟩))

theorem Node.Inert.tagName?_of_attached {n m : Node} (hn : n.Inert) (h : n.Attached m) :
    m.tagName? = none := by
  cases h with
  | self =>
    cases n with
    | tag t body code p => exact hn.elim
    | leaf l p | lead l body p | frame f body p | block body p => rfl
  | under _ hk _ =>
    rw [hn.held_eq_nil] at hk
    cases hk

namespace Compile

variable {o : Options} {embed : Embed (Except CompileError)} {host : Option Host} {p : Place}
  {n m : Node} {v : Visited} {name : String}

theorem word_keyword (h : Tag.isStatement name = true) : (keyword name).word = name := by
  simp only [Tag.isStatement, Bool.or_eq_true, beq_iff_eq] at h
  rcases h with ((rfl | rfl) | rfl) | rfl <;> rfl

/-- A tag is marked in what a visit makes of it. -/
theorem mark_of_tagVisited {t : Tag} {nodes : List Node} (h : TagVisited o embed host t nodes p v) :
    (some t.name, .ofPlace p) ∈ IR.marks v.toList := by
  have hone {x : IR} (hx : x.mark = (some t.name, .ofPlace p)) :
      (some t.name, .ofPlace p) ∈ IR.marks [x] :=
    IR.mem_marks.mpr ⟨x, mem_cons_self, x, IR.mem_walk.mpr (.inl rfl), hx⟩
  cases h with
  | phrase | plain => exact hone rfl
  | statement expr hname htext => exact hone (congrArg (some ·, _) (word_keyword hname))
  | function sig hname hnodes hfirst hresults => exact hone (congrArg (some ·, _) hname.symm)

/-- Every tag that is attached to a node is marked in what comes of a visit. -/
theorem mark_of_attached (hattached : n.Attached m) (hname : m.tagName? = some name)
    (hn : ∀ k ∈ n.walk, k.Conforms) (hnames : ∀ k ∈ n.walk, k.NamesApart ∧ k.NamesFree o)
    (h : visit o embed host n = .ok v) :
    (some name, .ofPlace m.place) ∈ IR.marks v.toList := by
  -- One step down keeps the marks, so what is marked below is marked at the top.
  induction hattached generalizing host v with
  | self n =>
    cases n with
    | tag t body code p =>
      obtain ⟨nodes, label⟩ := body
      obtain rfl := Option.some.inj hname
      exact mark_of_tagVisited (visit_tag_ok (contentName?_code (hn _ (Node.self_mem_walk _))) h)
    | leaf l p | lead l body p | frame f body p | block body p => cases hname
  | @under n k m hexpr hk hattached ih =>
    have hwalk : ∀ x ∈ k.walk, x ∈ n.walk := by
      intro x hx
      rw [Node.walk_eq]
      exact mem_cons_of_mem _ (Node.mem_walkAll.mpr ⟨k, hk, hx⟩)
    rcases visit_held hn h hk with hinert | ⟨host', vk, hvk, hkept⟩
    · rw [hinert.tagName?_of_attached hattached] at hname
      cases hname
    · obtain ⟨hapart, hfree⟩ := hnames n n.self_mem_walk
      refine hkept hapart hfree hexpr (ih hname ?_ ?_ hvk)
      · exact fun x hx => hn x (hwalk x hx)
      · exact fun x hx => hnames x (hwalk x hx)

/-- No tag is dropped. Where the names of content that is given to tags are all different and left
alone by the compiler, every tag of the tree that is not below an expression is found again in what
the source is compiled to, among children or in props, by its name and place: it is a tag there, or
the statement or function of that name. -/
theorem source_keeps_tags {s : String} {root : Node} {nodes : List IR}
    (hparse : Template.parse s o.filename = .ok root) (hok : Compile.source o s = .ok nodes)
    (hnames : ∀ k ∈ root.walk, k.NamesApart ∧ k.NamesFree o) (hattached : root.Attached m)
    (hname : m.tagName? = some name) :
    ∃ n ∈ IR.walkAll nodes, n.tagName? = some name ∧ n.origin = .ofPlace m.place := by
  rw [source_eq, nested_eq, hparse] at hok
  obtain ⟨v, hv, rfl⟩ := exists_of_map_eq_ok hok
  have hmark := mark_of_attached hattached hname (Template.conforms_of_parse hparse) hnames hv
  obtain ⟨n, hn, hmark⟩ := mem_map.mp hmark
  exact ⟨n, hn, congrArg Prod.fst hmark, congrArg Prod.snd hmark⟩

/-- The source has a tree and is compiled, and `test` is true of both. -/
def passes (o : Options) (s : String) (test : Node → List IR → Bool) : Bool :=
  match Template.parse s o.filename, Compile.source o s with
  | .ok root, .ok nodes => test root nodes
  | _, _ => false

theorem exists_of_passes {s : String} {test : Node → List IR → Bool} (h : passes o s test = true) :
    ∃ root nodes, Template.parse s o.filename = .ok root ∧ Compile.source o s = .ok nodes ∧
      test root nodes = true := by
  unfold passes at h
  split at h
  · exact ⟨_, _, ‹_›, ‹_›, h⟩
  · cases h

/-- Content under names in a component and in a phrase, branches, a function and a statement. -/
theorem source_keeps_tags_nested :
    let s := "Card(title=x)\n  @header\n    if y\n      b= z\n  p&attributes(w)\n    @note\n" ++
      "      i\nt\n  @who\n    a\n      @title\n        u\nfunction f()\n  em\nvar k = 1\n"
    ∃ root nodes, Template.parse s none = .ok root ∧ Compile.source {} s = .ok nodes ∧
      (∀ k ∈ root.walk, k.NamesApart ∧ k.NamesFree {}) ∧
      ∀ name ∈ ["Card", "b", "p", "i", "t", "a", "u", "function", "em", "var"],
        ∃ m, root.Attached m ∧ m.tagName? = some name ∧
          ∃ n ∈ IR.walkAll nodes, n.tagName? = some name ∧ n.origin = .ofPlace m.place := by
  intro s
  have hpasses : passes {} s (fun root _ =>
      root.walk.all (fun k => decide (k.NamesApart ∧ k.NamesFree {})) &&
        root.walk.all (fun k => !k.isExpression || k.held.isEmpty) &&
          ["Card", "b", "p", "i", "t", "a", "u", "function", "em", "var"].all fun name =>
            root.walk.any fun m => m.tagName? == some name) = true := by
    decide +kernel
  obtain ⟨root, nodes, hparse, hok, htest⟩ := exists_of_passes hpasses
  simp only [Bool.and_eq_true, all_eq_true, decide_eq_true_eq] at htest
  obtain ⟨⟨hnames, hexpr⟩, htags⟩ := htest
  refine ⟨root, nodes, hparse, hok, hnames, fun name hname => ?_⟩
  obtain ⟨m, hm, hmname⟩ := any_eq_true.mp (htags name hname)
  have hattached : root.Attached m := by
    refine Node.attached_of_mem_walk hm fun k hk hkexpr => ?_
    simpa [hkexpr] using hexpr k hk
  have hmname : m.tagName? = some name := by simpa using hmname
  exact ⟨m, hattached, hmname, source_keeps_tags hparse hok hnames hattached hmname⟩

/-- Names that are all different are not enough. What is given under a name that the compiler takes
is replaced, and what is nested below an expression has no place to go. -/
theorem source_drops_tags :
    let s := "p&attributes(x)\n  block &props\n    b\nt\n  @x\n    a\n      @key\n        i\n" ++
      "= y\n  u\n"
    ∃ root nodes, Template.parse s none = .ok root ∧ Compile.source {} s = .ok nodes ∧
      (∀ k ∈ root.walk, k.NamesApart) ∧
      ∀ name ∈ ["b", "i", "u"], (∃ m ∈ root.walk, m.tagName? = some name) ∧
        ∀ n ∈ IR.walkAll nodes, n.tagName? ≠ some name := by
  intro s
  have hpasses : passes {} s (fun root nodes =>
      root.walk.all (fun k => decide k.NamesApart) && ["b", "i", "u"].all fun name =>
        root.walk.any (fun m => m.tagName? == some name) &&
          (IR.walkAll nodes).all fun n => n.tagName? != some name) = true := by
    decide +kernel
  obtain ⟨root, nodes, hparse, hok, htest⟩ := exists_of_passes hpasses
  simp only [Bool.and_eq_true, all_eq_true, any_eq_true, decide_eq_true_eq, beq_iff_eq,
    bne_iff_ne] at htest
  exact ⟨root, nodes, hparse, hok, htest.1, htest.2⟩

end Compile

end Offside
