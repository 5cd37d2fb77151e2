import Offside.Proofs.Compile.Effects
import Offside.Proofs.Compile.Lists
import Offside.Proofs.IR.WellFormed

/-!
# What compiles is well-formed

Whatever tree is compiled, by hand or from a source, and whatever a front end makes of the text that
is captured in it, the render trees that come out are well-formed (`visitRoot_wellFormed`).

A visit is followed through all that it has done to yield its result. What it visits below a node is
well-formed by induction over the tree, what is compiled from captured text by induction over the
depth of captures, and each node that is built on top of those is looked at by itself.
-/

set_option autoImplicit false

namespace Offside

open List Observable

namespace Compile

variable {o : Options} {host : Option Host} {p : Place} {v : Visited}

/-! ## Nodes by themselves -/

theorem wellFormed_atom {a : Atom} {origin : Provenance} (h : (IR.atom a origin).WellFormed o) :
    IR.AllWellFormed o [.atom a origin] :=
  .single h (by simp [IR.lists])

theorem wellFormed_group {head : Group} {children : List IR} {origin : Provenance}
    (h : (IR.group head children origin).WellFormed o) (hchildren : IR.AllWellFormed o children) :
    IR.AllWellFormed o [.group head children origin] :=
  .single h fun _ hlist => (mem_singleton.mp hlist).symm ▸ hchildren

theorem wellFormed_tag {name : String} {props : Props} {children : List IR} {origin : Provenance}
    (hprops : Props.WellFormed props) (hname : name = o.phraseTag → children = [])
    (hchildren : IR.AllWellFormed o children)
    (hcontents : ∀ list ∈ Props.contents props, IR.AllWellFormed o list) :
    IR.AllWellFormed o [.tag name props children true origin] :=
  .single ⟨hprops, rfl, hname⟩ fun list hlist =>
    (mem_cons.mp hlist).elim (fun heq => heq ▸ hchildren) (hcontents list)

theorem wellFormed_text (t : String) (p : Place) : IR.AllWellFormed o (text t p).toList := by
  unfold text
  split
  · exact .nil
  · rename_i ht
    exact wellFormed_atom ⟨t, by simpa using ht, rfl⟩

theorem wellFormed_leaf {l : Leaf} (h : leaf o host p l = .ok v) :
    IR.AllWellFormed o v.toList := by
  cases l with
  | text t =>
    cases host with
    | none =>
      cases h
      exact wellFormed_text t p
    | some hst =>
      simp only [leaf, hostedText] at h
      split at h
      · cases h
      · rename_i hname
        cases h
        refine wellFormed_tag (.gather _ _) (absurd ·.symm hname) (wellFormed_text t p) ?_
        intro list hlist
        have hgiven := Props.contents_gather hlist
        rw [Props.contents_ofAttr] at hgiven
        cases hgiven
  | comment value buffer =>
    cases h
    cases buffer <;> exact wellFormed_atom trivial
  | literal expr buffer escape | yield name args =>
    cases h
    exact wellFormed_atom trivial
  | mixinBlock | doctype t => cases h

/-- No lead becomes text or a function. -/
theorem wellFormed_fill {n : Node} {l : Lead} {shell : Shell} {children : List IR}
    (h : lead n l = .ok shell) (hchildren : IR.AllWellFormed o children) :
    IR.AllWellFormed o [shell.fill children p] := by
  cases l with
  | code coded buffer escape =>
    simp only [lead] at h
    split at h
    · rename_i s expr _
      cases h
      cases s with
      | condition word => cases word <;> exact wellFormed_group trivial hchildren
      | expression => exact wellFormed_atom trivial
    · cases h
  | each header key =>
    cases h
    cases hloop : LoopHeader.read header with
    | each value key? expr => exact wellFormed_group (by simp [loop, IR.WellFormed]) hchildren
    | plain header => exact wellFormed_group (by simp [loop, IR.WellFormed]) hchildren
  | when expr =>
    cases h
    simp only [Shell.fill]
    split <;> exact wellFormed_group trivial hchildren
  | mixin name args call => cases h

theorem wellFormed_statementTag {name : String} {nodes : List Node}
    (h : statementTag name nodes p = .ok v) : IR.AllWellFormed o v.toList := by
  unfold statementTag at h
  cases hlines : nodes.mapM (statementLine name) with
  | error e =>
    rw [hlines] at h
    cases h
  | ok lines =>
    rw [hlines] at h
    cases h
    exact wellFormed_atom trivial

theorem wellFormed_block {children : List IR} (h : IR.AllWellFormed o children)
    (label : BlockLabel) : IR.AllWellFormed o (block o label p children).toList := by
  unfold block
  split
  · exact wellFormed_group trivial h
  · exact h

/-! ## Tags and phrases -/

theorem wellFormed_plainTag {name : String} {attrs : List Attr} {spreads : List String}
    {results : List (Node × Visited)} (hname : name ≠ o.phraseTag)
    (h : ∀ r ∈ results, IR.AllWellFormed o r.2.toList) :
    IR.AllWellFormed o [tag name attrs spreads results p] := by
  refine wellFormed_tag (.gather _ _) (absurd · hname) (.flatMap fun r hr => ?_) ?_
  · dsimp only
    split
    · exact .nil
    · exact h r hr
  · intro list hlist
    have hgiven := Props.contents_gather hlist
    rw [Props.contents_append, Props.contents_ofAttr, nil_append] at hgiven
    -- Content in the props is what a named block among the nodes has given.
    obtain ⟨q, hq, hcontent⟩ := Props.mem_contents.mp hgiven
    obtain ⟨r, hr, hnamed⟩ := mem_filterMap.mp hq
    obtain ⟨⟨key, args⟩, -, rfl⟩ := Option.map_eq_some_iff.mp hnamed
    obtain rfl : r.2.toList = list := Option.some.inj hcontent
    exact h r hr

/-- A fragment that learns its name stays well-formed: the name is one prop more. -/
theorem wellFormed_fragment (name : String) (h : IR.AllWellFormed o v.toList) :
    ∀ list ∈ Props.contents [fragment name v], IR.AllWellFormed o list := by
  intro list hlist
  unfold fragment at hlist
  split at hlist
  · rename_i tagName props children buffer origin heq
    rw [heq] at h
    obtain rfl : list = _ := by simpa [Props.contents, PropEntry.content?] using hlist
    -- Only the entry under `key` is new, and it holds no nodes.
    obtain ⟨hprops, hbuffer, hname⟩ := h.root
    have hkey : Props.Fits "key" (.key name (Json.quote name)) :=
      Props.fits_of_not_collects rfl _
    refine .single ⟨hprops.insert hkey, hbuffer, hname⟩ fun list hlist => h.lists list ?_
    rcases mem_cons.mp hlist with rfl | hlist
    · exact mem_cons_self
    · refine mem_cons_of_mem _ ((Props.contents_insert hlist).resolve_left ?_)
      simp [PropEntry.content?]
  · obtain rfl : list = v.toList := by simpa [Props.contents, PropEntry.content?] using hlist
    exact h

theorem wellFormed_phrase {name : String} {attrs : List Attr} {spreads : List String}
    {fragments : List (String × PropEntry)}
    (h : ∀ list ∈ Props.contents fragments, IR.AllWellFormed o list) :
    IR.AllWellFormed o [phrase name attrs spreads fragments p] := by
  refine wellFormed_tag (.gather _ _) (fun _ => rfl) .nil fun list hlist => ?_
  have hgiven := Props.contents_gatherPhrase hlist
  rw [Props.contents_append, Props.contents_ofAttr, nil_append] at hgiven
  exact h list hgiven

/-! ## The visit -/

section Visit

variable {m : Type → Type} [Monad m] [MonadExceptOf CompileError m] [Observable m]
  {embed : Embed m} {nodes : List Node}

/-- Captured text compiles to well-formed trees. -/
def EmbedsWellFormed (o : Options) (embed : Embed m) : Prop :=
  ∀ source f nodes, Yields (embed source f) nodes → IR.AllWellFormed o nodes

/-- All that a visit of the node can yield is well-formed, whoever hosts it. -/
def VisitsWellFormed (o : Options) (embed : Embed m) (n : Node) : Prop :=
  ∀ host v, Yields (visit o embed host n) v → IR.AllWellFormed o v.toList

theorem capture_wellFormed (hembed : EmbedsWellFormed o embed) {attrs : List Attr} {source : String}
    (h : Yields (capture o embed attrs source p) v) : IR.AllWellFormed o v.toList := by
  unfold capture at h
  obtain ⟨nodes, hnodes, h⟩ := exists_of_yields_bind h
  rw [eq_of_yields_pure h]
  have hwell : IR.AllWellFormed o nodes := by
    -- The handler passes the error on, so it yields nothing.
    rcases of_yields_tryCatch hnodes with hnodes | ⟨e, hthrow⟩
    · exact hembed _ _ _ hnodes
    · exact (not_yields_throw _ _ hthrow).elim
  refine IR.AllWellFormed.iff_forall.mpr fun n hn => ?_
  rcases mem_cons.mp hn with rfl | hn
  · exact wellFormed_atom trivial
  · exact IR.AllWellFormed.iff_forall.mp (hwell.map_mapOrigin _) n hn

variable [LawfulMonad m]

theorem visitList_wellFormed {children : List IR} (ih : ∀ n ∈ nodes, VisitsWellFormed o embed n)
    (h : Yields (visitList o embed host nodes) children) : IR.AllWellFormed o children := by
  rw [visitList_eq_mapM] at h
  obtain ⟨lists, hlists, rfl⟩ := exists_of_yields_map h
  rw [← flatMap_id]
  refine .flatMap fun list hlist => ?_
  obtain ⟨n, hn, hlist⟩ := exists_of_yields_mapM hlists list hlist
  obtain ⟨v, hv, rfl⟩ := exists_of_yields_map hlist
  exact ih n hn host v hv

theorem visitBare_wellFormed {results : List (Node × Visited)}
    (ih : ∀ n ∈ nodes, VisitsWellFormed o embed n)
    (h : Yields (visitBare o embed host nodes) results) :
    ∀ r ∈ results, IR.AllWellFormed o r.2.toList := by
  intro r hr
  obtain ⟨n, hn, hr⟩ := exists_of_yields_mapM h r hr
  obtain ⟨v, hv, rfl⟩ := exists_of_yields_map hr
  exact ih n hn host v hv

theorem visitFragments_wellFormed {fragments : List (String × PropEntry)}
    (ih : ∀ n ∈ nodes, VisitsWellFormed o embed n)
    (h : Yields (visitFragments o embed p nodes) fragments) :
    ∀ list ∈ Props.contents fragments, IR.AllWellFormed o list := by
  intro list hlist
  obtain ⟨q, hq, hcontent⟩ := Props.mem_contents.mp hlist
  rw [visitFragments_eq_mapM] at h
  obtain ⟨n, hn, hq⟩ := exists_of_yields_mapM h q hq
  obtain ⟨name, -, hq⟩ := exists_of_yields_bind hq
  obtain ⟨v, hv, rfl⟩ := exists_of_yields_map hq
  exact wellFormed_fragment name (ih n hn none v hv) list
    (Props.mem_contents.mpr ⟨_, mem_singleton_self _, hcontent⟩)

theorem visit_tag_wellFormed {t : Tag} {label : BlockLabel} {code : Option Node}
    (ih : ∀ n ∈ nodes, VisitsWellFormed o embed n)
    (ihcode : ∀ c, code = some c → VisitsWellFormed o embed c) :
    VisitsWellFormed o embed (.tag t (.mk nodes label) code p) := by
  have hcontent := forall_mem_contentOf ih ihcode
  intro host v h
  by_cases hopen : t.IsOpen nodes
  case neg =>
    rw [visit_closed_eq hopen] at h
    exact (not_yields_throw _ _ h).elim
  cases t.kind o with
  | phrase hname =>
    rw [visit_phrase_eq hname hopen] at h
    obtain ⟨fragments, hfragments, h⟩ := exists_of_yields_bind h
    rw [eq_of_yields_pure h]
    exact wellFormed_phrase (visitFragments_wellFormed hcontent hfragments)
  -- Nothing is visited below a statement, so the induction is not needed.
  | statement hphrase hname =>
    rw [visit_statement_eq hphrase hname hopen] at h
    exact wellFormed_statementTag (eq_ok_of_yields_ofExcept h)
  | function hphrase hname =>
    rw [visit_function_eq hphrase hname hopen] at h
    obtain ⟨sig, -, h⟩ := exists_of_yields_bind h
    obtain ⟨children, hchildren, h⟩ := exists_of_yields_bind h
    rw [eq_of_yields_pure h]
    exact wellFormed_group rfl
      (visitList_wellFormed (fun n hn => ih n (mem_of_mem_tail hn)) hchildren)
  | element ht =>
    rw [visit_element_eq ht hopen] at h
    obtain ⟨results, hresults, rfl⟩ := exists_of_yields_map h
    exact wellFormed_plainTag ht.not_phrase (visitBare_wellFormed hcontent hresults)

theorem visit_lead_wellFormed {l : Lead} {body : Option Block}
    (ih : ∀ n ∈ (Node.lead l body p).children, VisitsWellFormed o embed n) :
    VisitsWellFormed o embed (.lead l body p) := by
  intro host v h
  rw [visit_lead_eq] at h
  obtain ⟨shell, hshell, h⟩ := exists_of_yields_bind h
  obtain ⟨children, hchildren, h⟩ := exists_of_yields_bind h
  rw [eq_of_yields_pure h]
  exact wellFormed_fill (eq_ok_of_yields_ofExcept hshell) (visitList_wellFormed ih hchildren)

theorem visit_wellFormed (hembed : EmbedsWellFormed o embed) (n : Node) :
    VisitsWellFormed o embed n := by
  induction n using Node.induct with
  | leaf l p =>
    intro host v h
    rw [visit] at h
    exact wellFormed_leaf (eq_ok_of_yields_ofExcept h)
  | bare l p => exact visit_lead_wellFormed (by simp [Node.children])
  | lead l nodes label p ih => exact visit_lead_wellFormed ih
  | frame f nodes label p ih =>
    intro host v h
    cases f with
    | comment value buffer =>
      rw [visit] at h
      rw [eq_of_yields_pure h]
      cases buffer <;> exact wellFormed_atom trivial
    | caseOf expr =>
      rw [visit_case_eq] at h
      obtain ⟨children, hchildren, h⟩ := exists_of_yields_bind h
      rw [eq_of_yields_pure h]
      exact wellFormed_group trivial (visitList_wellFormed ih hchildren)
    | filter name attrs =>
      rw [visit, filter] at h
      split at h
      · exact capture_wellFormed hembed h
      · rw [eq_of_yields_pure h]
        exact wellFormed_atom trivial
  | block nodes label p ih =>
    intro host v h
    rw [visit_block_eq] at h
    obtain ⟨children, hchildren, h⟩ := exists_of_yields_bind h
    rw [eq_of_yields_pure h]
    exact wellFormed_block (visitList_wellFormed ih hchildren) label
  | tag t nodes label code p ih ihcode => exact visit_tag_wellFormed ih ihcode

/-! ## Whole compilations -/

theorem embedded_wellFormed (frontEnd : FrontEnd m) (depth : Nat) :
    EmbedsWellFormed o (embedded o frontEnd depth) := by
  -- The tree that a front end answers with can be any tree; its captures are compiled with one
  -- level less.
  induction depth with
  | zero => exact fun source f nodes h => (not_yields_throw _ _ h).elim
  | succ depth ih =>
    intro source f nodes h
    rw [embedded] at h
    obtain ⟨answer, -, h⟩ := exists_of_yields_bind h
    cases answer with
    | error e => exact (not_yields_throw _ _ h).elim
    | ok root =>
      obtain ⟨visited, hvisited, h⟩ := exists_of_yields_bind h
      rw [eq_of_yields_pure h]
      exact visit_wellFormed ih root none visited hvisited

theorem yields_wellFormed {frontEnd : FrontEnd m} {depth : Nat} {root : Node}
    (h : Yields (visitRoot o frontEnd depth root) v) : IR.AllWellFormed o v.toList :=
  visit_wellFormed (embedded_wellFormed frontEnd depth) root none v h

end Visit

/-- What compiles is well-formed, at any depth, in props and in captured text as well. This is so
for any tree and any options, with a front end that depends on a state of any kind and may change
it, and with the bundled one. -/
theorem visitRoot_wellFormed (o : Options) (root : Node) :
    (∀ (σ : Type) (frontEnd : FrontEnd (ExceptT CompileError (StateM σ))) (depth : Nat) (s s' : σ)
        (v : Visited), (visitRoot o frontEnd depth root).run.run s = (.ok v, s') →
          IR.AllWellFormed o v.toList) ∧
      ∀ nodes, tree o root = .ok nodes → IR.AllWellFormed o nodes := by
  constructor
  · intro σ frontEnd depth s s' v h
    have hyields : Yields (visitRoot o frontEnd depth root) v := ⟨s, s', h⟩
    exact yields_wellFormed hyields
  · intro nodes h
    obtain ⟨v, hv, rfl⟩ := exists_of_map_eq_ok h
    have hyields : Yields (visitTree o root) v := hv
    exact yields_wellFormed hyields

/-- A component with text in it, and a phrase that is given a tag under a name and a class. -/
def sampleTree (p : Place) : Node :=
  .block (.plain
    [.tag ⟨"Card", [], [], false⟩ (.plain [.leaf (.text "a") p]) none p,
      .tag ⟨"t", [⟨"home", .flag true, true⟩], [], false⟩
        (.plain [.block (.mk [.tag ⟨"b", [⟨"className", .expr "c", true⟩], [], false⟩ (.plain [])
          none p] ⟨some "name", none, true⟩) p]) none p]) p

/-- The tree around a capture, with a front end that answers with the tree itself. -/
theorem visitRoot_wellFormed_replayed :
    let p : Place := ⟨1, none⟩
    let root : Node := .block (.plain [sampleTree p,
      .frame (.filter "capture" []) (.plain [.leaf (.text "b") p]) p]) p
    ∃ v calls, (visitRoot {} (FrontEnd.replay (.ok (sampleTree p)) []) 1 root).run.run [] =
        (.ok v, calls) ∧ IR.AllWellFormed {} v.toList := by
  intro p root
  have hok : ((visitRoot {} (FrontEnd.replay (.ok (sampleTree p)) []) 1 root).run.run
      []).1.isOk = true := by decide +kernel
  cases h : (visitRoot {} (FrontEnd.replay (.ok (sampleTree p)) []) 1 root).run.run [] with
  | mk outcome calls =>
    cases outcome with
    | error e =>
      rw [h] at hok
      cases hok
    | ok v => exact ⟨v, calls, rfl, (visitRoot_wellFormed {} root).1 _ _ _ _ _ _ h⟩

end Compile

end Offside
