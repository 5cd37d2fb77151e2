import Offside.Proofs.Compile.Nested
import Offside.Proofs.IR.Traced
import Offside.Proofs.Template.Layout

/-!
# Provenance of compiled templates

A visit takes nodes that stand in order on some lines to render nodes that come from those lines, in
order (`visit_traced`). Captured text is numbered from one and then moved down by the line of its
capture. It has as many lines as the capture has below it, so what is moved down comes to lie on
those, and the order is kept however deeply captures lie inside each other (`nested_traced`).
-/

set_option autoImplicit false

namespace Offside

open List

/-- The error is about a place in the template `f`, on one of the lines from `lo` to `hi`. -/
def CompileError.Within (f : Option String) (lo hi : Nat) (e : CompileError) : Prop :=
  ∃ place, e.place? = some place ∧ place.Within f lo hi

theorem CompileError.Within.mono {f : Option String} {lo lo' hi hi' : Nat} {e : CompileError}
    (h : e.Within f lo hi) (hlo : lo' ≤ lo) (hhi : hi ≤ hi') : e.Within f lo' hi' := by
  obtain ⟨place, heq, hplace⟩ := h
  exact ⟨place, heq, hplace.mono hlo hhi⟩

theorem CompileError.place?_shift (offset : UInt64) (e : CompileError) :
    (e.shift offset).place? = e.place?.map (Place.shift offset) := by
  cases e <;> rfl

theorem CompileError.Within.shift {f : Option String} {lo hi : Nat} {e : CompileError}
    {offset : UInt64} (h : e.Within f lo hi) (hword : hi + offset.toNat < UInt64.size) :
    (e.shift offset).Within f (lo + offset.toNat) (hi + offset.toNat) := by
  obtain ⟨place, heq, hfile, hlo, hhi⟩ := h
  refine ⟨place.shift offset, by rw [place?_shift, heq]; rfl, hfile, ?_⟩
  rw [Place.shift, toNat_add_line hhi hword]
  omega

namespace Node.Laid

variable {f : Option String} {lo hi : Nat} {n : Node} {xs nodes : List Node}

/-- Some of the nodes, in the same order. -/
theorem sublist (h : Laid f lo hi nodes) (hsub : walkAll xs <+ walkAll nodes) : Laid f lo hi xs :=
  ⟨fun m hm => h.within m (hsub.subset hm), h.ordered.sublist hsub,
    fun m hm => h.texts m (hsub.subset hm)⟩

/-- What a node holds starts on its line. -/
theorem held (h : Laid f lo hi [n]) : Laid f n.line hi n.held := by
  have hsub : walkAll n.held <+ walkAll [n] := walkAll_singleton n ▸ sublist_cons_self _ _
  have hordered := h.ordered
  rw [walkAll_singleton, pairwise_cons] at hordered
  refine ⟨fun m hm => ?_, hordered.2, fun m hm => h.texts m (hsub.subset hm)⟩
  have hm' := h.within m (hsub.subset hm)
  exact ⟨hm'.1, hordered.1 m hm, hm'.2.2⟩

/-- The first node ends before the others start. -/
theorem split (h : Laid f lo hi (n :: xs)) :
    ∃ mid, lo ≤ mid ∧ mid ≤ hi ∧ Laid f lo mid [n] ∧ Laid f mid hi xs := by
  have hwalk : walkAll (n :: xs) = walkAll [n] ++ walkAll xs := walkAll_append [n] xs
  have hordered := h.ordered
  rw [hwalk, pairwise_append] at hordered
  have hfirst : Laid f lo hi [n] := h.sublist (hwalk ▸ sublist_append_left _ _)
  have hothers : Laid f lo hi xs := h.sublist (hwalk ▸ sublist_append_right _ _)
  -- The first node ends on the line of the last of its nodes.
  obtain ⟨init, k, hlast⟩ : ∃ init k, walkAll [n] = init ++ [k] := by
    rcases eq_nil_or_concat (walkAll [n]) with hnil | ⟨init, k, hlast⟩
    · rw [walkAll_singleton] at hnil
      cases hnil
    · exact ⟨init, k, by rw [hlast, concat_eq_append]⟩
  have hk : k ∈ walkAll [n] := hlast ▸ mem_append_right _ mem_cons_self
  have hmax : ∀ m ∈ walkAll [n], m.line ≤ k.line := by
    intro m hm
    rw [hlast, pairwise_append] at hordered
    rw [hlast, mem_append, mem_singleton] at hm
    exact hm.elim (fun h => hordered.1.2.2 m h k mem_cons_self) fun h => h ▸ Nat.le_refl _
  refine ⟨k.line, (hfirst.within k hk).2.1, (hfirst.within k hk).2.2, ?_, ?_⟩
  · refine ⟨fun m hm => ?_, hfirst.ordered, hfirst.texts⟩
    exact ⟨(hfirst.within m hm).1, (hfirst.within m hm).2.1, hmax m hm⟩
  · refine ⟨fun m hm => ?_, hothers.ordered, hothers.texts⟩
    exact ⟨(hothers.within m hm).1, hordered.2.2 k hk m hm, (hothers.within m hm).2.2⟩

end Node.Laid

namespace Compile

variable {o : Options} {embed : Embed (Except CompileError)} {lo mid hi : Nat}

/-! ## What a visit needs and gives -/

/-- The nodes can be visited: they stand in order, their statements have known codes, and what they
capture is compiled to nodes that come from the lines of the captured text. -/
structure Settled (o : Options) (embed : Embed (Except CompileError)) (lo hi : Nat)
    (nodes : List Node) : Prop where
  laid : Node.Laid o.filename lo hi nodes
  grounded : ∀ m ∈ Node.walkAll nodes, ∃ source, m.Grounded source
  embeds : ∀ attrs body p, .frame (.filter "capture" attrs) body p ∈ Node.walkAll nodes →
    Ends (CompileError.Within o.filename 1 (Line.ofSource (linesOf body.nodes)).length)
      (IR.Traced o.filename 1 (Line.ofSource (linesOf body.nodes)).length)
      (embed (linesOf body.nodes) o.filename)

/-- The visit gives nodes from the lines from `lo` to `hi`, or an error there. -/
def VisitTraced (o : Options) (lo hi : Nat) : Except CompileError Visited → Prop :=
  Ends (CompileError.Within o.filename lo hi) fun v => IR.Traced o.filename lo hi v.toList

/-- Each of the results comes from lines after those of the one before. -/
def Steps (f : Option String) (lo hi : Nat) : List (Node × Visited) → Prop
  | [] => True
  | r :: rest => ∃ mid, lo ≤ mid ∧ mid ≤ hi ∧ IR.Traced f lo mid r.2.toList ∧ Steps f mid hi rest

namespace Settled

variable {n : Node} {nodes xs : List Node}

theorem of_laid {lo' hi' : Nat} (h : Settled o embed lo hi nodes)
    (hlaid : Node.Laid o.filename lo' hi' xs) (hsub : Node.walkAll xs ⊆ Node.walkAll nodes) :
    Settled o embed lo' hi' xs :=
  ⟨hlaid, fun m hm => h.grounded m (hsub hm),
    fun attrs body p hm => h.embeds attrs body p (hsub hm)⟩

theorem mono {lo' hi' : Nat} (h : Settled o embed lo hi nodes) (hlo : lo' ≤ lo) (hhi : hi ≤ hi') :
    Settled o embed lo' hi' nodes :=
  h.of_laid (h.laid.mono hlo hhi) (Subset.refl _)

theorem within (h : Settled o embed lo hi [n]) : n.place.Within o.filename lo hi :=
  h.laid.within n (Node.mem_walkAll.mpr ⟨n, mem_cons_self, n.self_mem_walk⟩)

theorem held (h : Settled o embed lo hi [n]) : Settled o embed n.line hi n.held := by
  refine h.of_laid h.laid.held fun m hm => ?_
  rw [Node.walkAll_singleton]
  exact mem_cons_of_mem _ hm

theorem children (h : Settled o embed lo hi [n]) : Settled o embed n.line hi n.children := by
  have hsub : Node.walkAll n.children <+ Node.walkAll n.held := by
    rw [Node.held, Node.walkAll_append]
    exact sublist_append_right _ _
  exact h.held.of_laid (h.held.laid.sublist hsub) hsub.subset

/-- What a tag takes for its content is in its block or is the code on its line. -/
theorem content {t : Tag} {label : BlockLabel} {code : Option Node} {p : Place}
    (h : Settled o embed lo hi [.tag t (.mk nodes label) code p]) :
    Settled o embed p.line.toNat hi (contentOf nodes code) := by
  have hheld : Node.held (.tag t (.mk nodes label) code p) = code.toList ++ nodes := rfl
  have hsub : Node.walkAll (contentOf nodes code) <+
      Node.walkAll (Node.held (.tag t (.mk nodes label) code p)) := by
    rw [hheld, Node.walkAll_append, contentOf]
    split
    · exact sublist_append_left _ _
    · exact sublist_append_right _ _
  exact h.held.of_laid (h.held.laid.sublist hsub) hsub.subset

theorem within_children (h : Settled o embed lo hi [n]) :
    ∀ k ∈ n.children, k.place.Within o.filename lo hi := fun k hk =>
  (h.children.laid.within k (Node.mem_walkAll.mpr ⟨k, hk, k.self_mem_walk⟩)).mono h.within.2.1
    (Nat.le_refl hi)

theorem split (h : Settled o embed lo hi (n :: xs)) :
    ∃ mid, lo ≤ mid ∧ mid ≤ hi ∧ Settled o embed lo mid [n] ∧ Settled o embed mid hi xs := by
  obtain ⟨mid, hlo, hhi, hfirst, hothers⟩ := h.laid.split
  have hwalk : Node.walkAll (n :: xs) = Node.walkAll [n] ++ Node.walkAll xs :=
    Node.walkAll_append [n] xs
  refine ⟨mid, hlo, hhi, h.of_laid hfirst ?_, h.of_laid hothers ?_⟩
  · exact hwalk ▸ subset_append_left _ _
  · exact hwalk ▸ subset_append_right _ _

theorem tail (h : Settled o embed lo hi nodes) : Settled o embed lo hi nodes.tail := by
  cases nodes with
  | nil => exact h
  | cons n rest =>
    obtain ⟨mid, hlo, hhi, -, hothers⟩ := h.split
    exact hothers.mono hlo (Nat.le_refl hi)

end Settled

namespace Steps

variable {f : Option String} {results : List (Node × Visited)}

/-- The nodes of the results, without those that `skip` says. -/
theorem flatMap (h : Steps f lo hi results) (skip : Node → Bool) :
    IR.Traced f lo hi (results.flatMap fun r => if skip r.1 then [] else r.2.toList) := by
  induction results generalizing lo with
  | nil => exact .nil
  | cons r rest ih =>
    obtain ⟨mid, hlo, hhi, hfirst, hrest⟩ := h
    rw [flatMap_cons]
    refine IR.Traced.append ?_ (ih hrest) hlo hhi
    split
    · exact .nil
    · exact hfirst

theorem mem (h : Steps f lo hi results) {r : Node × Visited} (hr : r ∈ results) :
    IR.Traced f lo hi r.2.toList := by
  induction results generalizing lo with
  | nil => simp at hr
  | cons x rest ih =>
    obtain ⟨mid, hlo, hhi, hfirst, hrest⟩ := h
    rcases mem_cons.mp hr with rfl | hr
    · exact hfirst.mono (Nat.le_refl lo) hhi
    · exact (ih hrest hr).mono hlo (Nat.le_refl hi)

end Steps

/-! ## Lists of nodes -/

/-- All visits of the node are traced, whoever hosts it. -/
def Traces (o : Options) (embed : Embed (Except CompileError)) (n : Node) : Prop :=
  ∀ lo hi host, Settled o embed lo hi [n] → VisitTraced o lo hi (visit o embed host n)

theorem visitEach_traced {nodes : List Node} (ih : ∀ n ∈ nodes, Traces o embed n)
    (h : Settled o embed lo hi nodes) (host : Option Host) :
    Ends (CompileError.Within o.filename lo hi) (Steps o.filename lo hi)
      (visitEach o embed host nodes) := by
  induction nodes generalizing lo with
  | nil =>
    rw [visitEach]
    trivial
  | cons n rest ihrest =>
    obtain ⟨mid, hlo, hhi, hfirst, hothers⟩ := h.split
    rw [visitEach]
    have hvisit := ih n mem_cons_self lo mid host hfirst
    have heach := ihrest (fun m hm => ih m (mem_cons_of_mem _ hm)) hothers
    refine Ends.bind (hvisit.mono (fun e he => he.mono (Nat.le_refl lo) hhi) fun _ hv => hv)
      fun v hv => ?_
    refine Ends.bind (heach.mono (fun e he => he.mono hlo (Nat.le_refl hi)) fun _ hr => hr)
      fun others hothers => ?_
    exact ⟨mid, hlo, hhi, hv, hothers⟩

/-! ## The parts of a visit -/

variable {f : Option String} {p : Place}

theorem ofPlace_within (hp : p.Within f lo hi) : (Provenance.ofPlace p).Within f lo hi :=
  ⟨hp.1, p.line, rfl, hp.2⟩

theorem traced_atom (hp : p.Within f lo hi) (a : Atom) : IR.Traced f lo hi [.atom a (.ofPlace p)] :=
  .single (ofPlace_within hp) (by simp [IR.lists])

theorem traced_group (hp : p.Within f lo hi) (head : Group) {children : List IR}
    (h : IR.Traced f p.line.toNat hi children) :
    IR.Traced f lo hi [.group head children (.ofPlace p)] :=
  .single (ofPlace_within hp) fun _ hlist => (mem_singleton.mp hlist).symm ▸ h

theorem traced_tag (hp : p.Within f lo hi) (name : String) {props : Props} {children : List IR}
    (h : IR.Traced f p.line.toNat hi children)
    (hprops : ∀ list ∈ Props.contents props, IR.Traced f p.line.toNat hi list) :
    IR.Traced f lo hi [.tag name props children true (.ofPlace p)] :=
  .single (ofPlace_within hp) fun list hlist =>
    (mem_cons.mp hlist).elim (fun heq => heq ▸ h) (hprops list)

theorem within_self (hp : p.Within f lo hi) : p.Within f p.line.toNat hi :=
  ⟨hp.1, Nat.le_refl _, hp.2.2⟩

theorem misplaced_within (hp : p.Within f lo hi) (what : Misplaced) :
    (CompileError.misplaced what p).Within f lo hi :=
  ⟨p, rfl, hp⟩

theorem unsupported_within (hp : p.Within f lo hi) (what : Unsupported) :
    (CompileError.unsupported what p).Within f lo hi :=
  ⟨p, rfl, hp⟩

theorem traced_text (hp : p.Within f lo hi) (t : String) : IR.Traced f lo hi (text t p).toList := by
  unfold text
  split
  · exact .nil
  · exact traced_atom hp _

theorem leaf_traced (hp : p.Within o.filename lo hi) (host : Option Host) (l : Leaf) :
    VisitTraced o lo hi (leaf o host p l) := by
  cases l with
  | text t =>
    cases host with
    | none => exact traced_text hp t
    | some h =>
      simp only [leaf, hostedText]
      split
      · exact misplaced_within hp _
      · refine traced_tag hp _ (traced_text (within_self hp) t) fun list hlist => ?_
        have hgiven := Props.contents_gather hlist
        rw [Props.contents_ofAttr] at hgiven
        cases hgiven
  | comment value buffer => exact traced_atom hp _
  | literal expr buffer escape | yield name args => exact traced_atom hp _
  | mixinBlock | doctype t => exact unsupported_within hp _

theorem statementTag_traced {nodes : List Node} (hp : p.Within o.filename lo hi)
    (hnodes : ∀ n ∈ nodes, n.place.Within o.filename lo hi) (name : String) :
    VisitTraced o lo hi (statementTag name nodes p) := by
  have hlines : Ends (CompileError.Within o.filename lo hi) (fun _ => True)
      (nodes.mapM (statementLine name)) := by
    induction nodes with
    | nil => trivial
    | cons n rest ih =>
      rw [mapM_cons]
      have hline : Ends (CompileError.Within o.filename lo hi) (fun _ => True)
          (statementLine name n) := by
        unfold statementLine
        split
        · trivial
        · exact misplaced_within (hnodes n mem_cons_self) _
      refine hline.bind fun t _ => ?_
      exact (ih fun m hm => hnodes m (mem_cons_of_mem _ hm)).bind fun ts _ => trivial
  rw [statementTag]
  exact hlines.bind fun lines _ => traced_atom hp _

theorem signature_within {nodes : List Node} (hp : p.Within f lo hi)
    (hnodes : ∀ n ∈ nodes, n.place.Within f lo hi) :
    Ends (CompileError.Within f lo hi) (fun _ => True) (signature nodes p) := by
  cases nodes with
  | nil => exact misplaced_within hp _
  | cons first rest =>
    simp only [signature]
    split
    · trivial
    · exact misplaced_within (hnodes first mem_cons_self) _

theorem fragmentName_within (hp : p.Within f lo hi) (n : Node) :
    Ends (CompileError.Within f lo hi) (fun _ => True) (fragmentName p n) := by
  unfold fragmentName
  split
  · trivial
  · exact misplaced_within hp _
  · exact misplaced_within hp _

/-- A fragment holds what has been visited; the name that a tag learns is no content. -/
theorem fragment_traced (name : String) {v : Visited} (h : IR.Traced f lo hi v.toList) :
    ∀ list ∈ Props.contents [fragment name v], IR.Traced f lo hi list := by
  intro list hlist
  unfold fragment at hlist
  split at hlist
  · rename_i tagName props children buffer origin heq
    rw [heq] at h
    obtain rfl : list = _ := by simpa [Props.contents, PropEntry.content?] using hlist
    refine h.sub rfl fun list hlist => ?_
    rcases mem_cons.mp hlist with rfl | hlist
    · exact mem_cons_self
    · exact mem_cons_of_mem _ ((Props.contents_insert hlist).resolve_left
        (by simp [PropEntry.content?]))
  · obtain rfl : list = v.toList := by simpa [Props.contents, PropEntry.content?] using hlist
    exact h

theorem visitFragments_traced {nodes : List Node} (ih : ∀ n ∈ nodes, Traces o embed n)
    (h : Settled o embed lo hi nodes) (hp : p.Within o.filename lo hi) :
    Ends (CompileError.Within o.filename lo hi)
      (fun fragments => ∀ list ∈ Props.contents fragments, IR.Traced o.filename lo hi list)
      (visitFragments o embed p nodes) := by
  induction nodes with
  | nil =>
    rw [visitFragments]
    simp [Ends, pure, Except.pure, Props.contents]
  | cons n rest ihrest =>
    obtain ⟨mid, hlo, hhi, hfirst, hothers⟩ := h.split
    have hvisit := ih n mem_cons_self lo hi none (hfirst.mono (Nat.le_refl lo) hhi)
    have hrest := ihrest (fun m hm => ih m (mem_cons_of_mem _ hm))
      (hothers.mono hlo (Nat.le_refl hi))
    rw [visitFragments, ofExcept_eq]
    -- A fragment without a name is reported at the phrase, not at the fragment.
    refine (fragmentName_within hp n).bind fun name _ => ?_
    refine Ends.bind hvisit fun v hv => ?_
    refine hrest.bind fun others hothers list hlist => ?_
    have hcons : Props.contents (fragment name v :: others) =
        Props.contents [fragment name v] ++ Props.contents others :=
      Props.contents_append [fragment name v] others
    rw [hcons, mem_append] at hlist
    exact hlist.elim (fragment_traced name hv list) (hothers list)

/-- A capture takes the lines below it. -/
theorem capture_traced {attrs : List Attr} {body : Block}
    (h : Settled o embed lo hi [.frame (.filter "capture" attrs) body p]) :
    VisitTraced o lo hi (capture o embed attrs (linesOf body.nodes) p) := by
  have hmem : .frame (.filter "capture" attrs) body p ∈
      Node.walkAll [.frame (.filter "capture" attrs) body p] :=
    Node.mem_walkAll.mpr ⟨_, mem_cons_self, Node.self_mem_walk _⟩
  have hp : p.Within o.filename lo hi := h.laid.within _ hmem
  have hembed := h.embeds attrs body p hmem
  obtain ⟨k, hk, hfits⟩ := h.laid.texts _ hmem
  have hhi : k.line ≤ hi :=
    (h.laid.within k (Node.mem_walkAll.mpr ⟨_, mem_cons_self, hk⟩)).2.2
  -- The text ends no later than `k`, so none of its lines wraps around when it is moved down.
  have hword : (Line.ofSource (linesOf body.nodes)).length + p.line.toNat < UInt64.size := by
    have hlt : k.line < UInt64.size := k.place.line.toNat_lt_size
    omega
  have hfile : (p.filename <|> o.filename) = o.filename := by
    rw [hp.1]
    cases o.filename <;> rfl
  rw [capture_eq, hfile]
  have hlo := hp.2.1
  cases hresult : embed (linesOf body.nodes) o.filename with
  | error e =>
    rw [hresult] at hembed
    exact (CompileError.Within.shift hembed hword).mono (by omega) (by omega)
  | ok nodes =>
    rw [hresult] at hembed
    have hnodes := (IR.Traced.shift hembed hword).mono (show p.line.toNat ≤ _ by omega)
      (show _ ≤ hi by omega)
    have hself : p.Within o.filename lo p.line.toNat := ⟨hp.1, hlo, Nat.le_refl _⟩
    exact (traced_atom hself _).append hnodes hlo hp.2.2

theorem filter_traced {name : String} {attrs : List Attr} {body : Block}
    (h : Settled o embed lo hi [.frame (.filter name attrs) body p]) :
    VisitTraced o lo hi (filter o embed name attrs body.nodes p) := by
  unfold filter
  split
  · rename_i hname
    subst hname
    exact capture_traced h
  · exact traced_atom h.within _

/-! ## The visit -/

theorem lead_within {l : Lead} {body : Option Block} (h : Settled o embed lo hi [.lead l body p])
    (host : Option Host) :
    Ends (CompileError.Within o.filename lo hi) (fun _ => True)
      (lead (Node.dressFor host (.lead l body p)) l) := by
  cases l with
  | code coded buffer escape =>
    obtain ⟨source, hground⟩ :=
      h.grounded _ (Node.mem_walkAll.mpr ⟨_, mem_cons_self, Node.self_mem_walk _⟩)
    obtain ⟨⟨s, expr⟩, hs⟩ := Option.isSome_iff_exists.mp hground
    simp [lead, hs, Ends]
  | each header key | when expr => trivial
  | mixin name args call =>
    simp only [lead, Host.place_dressFor]
    exact unsupported_within h.within _

theorem fill_traced (hp : p.Within f lo hi) {children : List IR}
    (h : IR.Traced f p.line.toNat hi children) (shell : Shell) :
    IR.Traced f lo hi [shell.fill children p] := by
  cases shell with
  | group head => exact traced_group hp head h
  | atom a => exact traced_atom hp a

theorem block_traced (hp : p.Within o.filename lo hi) {children : List IR}
    (h : IR.Traced o.filename p.line.toNat hi children) (label : BlockLabel) :
    IR.Traced o.filename lo hi (block o label p children).toList := by
  unfold block
  split
  · exact traced_group hp _ h
  · exact h.mono hp.2.1 (Nat.le_refl hi)

theorem tag_traced (hp : p.Within f lo hi) {results : List (Node × Visited)}
    (h : Steps f p.line.toNat hi results) (name : String) (attrs : List Attr)
    (spreads : List String) :
    IR.Traced f lo hi [tag name attrs spreads results p] := by
  refine traced_tag hp name (h.flatMap fun n => (contentName? n).isSome) fun list hlist => ?_
  have hgiven := Props.contents_gather hlist
  rw [Props.contents_append, Props.contents_ofAttr, nil_append] at hgiven
  obtain ⟨q, hq, hcontent⟩ := Props.mem_contents.mp hgiven
  obtain ⟨r, hr, hnamed⟩ := mem_filterMap.mp hq
  obtain ⟨⟨key, args⟩, -, rfl⟩ := Option.map_eq_some_iff.mp hnamed
  obtain rfl : r.2.toList = list := Option.some.inj hcontent
  exact h.mem hr

theorem phrase_traced (hp : p.Within f lo hi) {fragments : List (String × PropEntry)}
    (h : ∀ list ∈ Props.contents fragments, IR.Traced f p.line.toNat hi list) (name : String)
    (attrs : List Attr) (spreads : List String) :
    IR.Traced f lo hi [phrase name attrs spreads fragments p] := by
  refine traced_tag hp name .nil fun list hlist => ?_
  have hgiven := Props.contents_gatherPhrase hlist
  rw [Props.contents_append, Props.contents_ofAttr, nil_append] at hgiven
  exact h list hgiven

/-- What is said from the line of a node on is said of all lines it stands among. -/
theorem ends_of_within {α : Type} {P : α → Prop} {x : Except CompileError α}
    (hp : p.Within f lo hi) (h : Ends (CompileError.Within f p.line.toNat hi) P x) :
    Ends (CompileError.Within f lo hi) P x :=
  h.mono (fun _ he => he.mono hp.2.1 (Nat.le_refl hi)) fun _ ha => ha

theorem visitList_traced {nodes : List Node} (ih : ∀ n ∈ nodes, Traces o embed n)
    (h : Settled o embed lo hi nodes) (host : Option Host) :
    Ends (CompileError.Within o.filename lo hi) (IR.Traced o.filename lo hi)
      (visitList o embed host nodes) :=
  Ends.map ((visitEach_traced ih h host).mono (fun _ he => he)
    fun _ hsteps => hsteps.flatMap fun _ => false)

/-! ### The kinds of nodes -/

section Kinds

variable {nodes : List Node} {label : BlockLabel} {t : Tag} {code : Option Node}

theorem visit_lead_traced {l : Lead} {body : Option Block}
    (ih : ∀ n ∈ (Node.lead l body p).children, Traces o embed n) :
    Traces o embed (.lead l body p) := by
  intro lo hi host h
  have hchildren := ends_of_within h.within (visitList_traced ih h.children
    (if l.isTransparent then host else none))
  rw [visit_lead_eq, ofExcept_eq]
  refine (lead_within h host).bind fun shell _ => ?_
  exact hchildren.bind fun children htraced => fill_traced h.within htraced shell

theorem visit_frame_traced {fr : Frame} (ih : ∀ n ∈ nodes, Traces o embed n) :
    Traces o embed (.frame fr (.mk nodes label) p) := by
  intro lo hi host h
  cases fr with
  | comment value buffer =>
    rw [visit]
    exact traced_atom h.within _
  | caseOf expr =>
    rw [visit_case_eq]
    exact (ends_of_within h.within (visitList_traced ih h.children none)).bind
      fun children htraced => traced_group h.within _ htraced
  | filter name attrs =>
    rw [visit]
    exact filter_traced h

theorem visit_block_traced (ih : ∀ n ∈ nodes, Traces o embed n) :
    Traces o embed (.block (.mk nodes label) p) := by
  intro lo hi host h
  rw [visit_block_eq]
  exact (ends_of_within h.within (visitList_traced ih h.children _)).bind
    fun children htraced => block_traced h.within htraced label

theorem visit_closed_traced (hclosed : ¬t.IsOpen nodes) :
    Traces o embed (.tag t (.mk nodes label) code p) := by
  intro lo hi host h
  rw [visit_closed_eq hclosed]
  exact misplaced_within h.within _

theorem visit_phrase_traced (hname : t.name = o.phraseTag) (hopen : t.IsOpen nodes)
    (ih : ∀ n ∈ contentOf nodes code, Traces o embed n) :
    Traces o embed (.tag t (.mk nodes label) code p) := by
  intro lo hi host h
  have hp : p.Within o.filename lo hi := h.within
  rw [visit_phrase_eq hname hopen]
  exact (ends_of_within hp (visitFragments_traced ih h.content (within_self hp))).bind
    fun fragments htraced => phrase_traced hp htraced _ _ _

theorem visit_statement_traced (hphrase : t.name ≠ o.phraseTag)
    (hname : Tag.isStatement t.name = true) (hopen : t.IsOpen nodes) :
    Traces o embed (.tag t (.mk nodes label) code p) := by
  intro lo hi host h
  rw [visit_statement_eq hphrase hname hopen, ofExcept_eq]
  exact statementTag_traced h.within h.within_children t.name

theorem visit_function_traced (hphrase : t.name ≠ o.phraseTag) (hname : t.name = "function")
    (hopen : t.IsOpen nodes) (ih : ∀ n ∈ nodes.tail, Traces o embed n) :
    Traces o embed (.tag t (.mk nodes label) code p) := by
  intro lo hi host h
  have hp : p.Within o.filename lo hi := h.within
  have hbody : Settled o embed p.line.toNat hi nodes.tail := h.children.tail
  rw [visit_function_eq hphrase hname hopen, ofExcept_eq]
  refine (signature_within hp h.within_children).bind fun sig _ => ?_
  exact (ends_of_within hp (visitList_traced ih hbody none)).bind
    fun children htraced => traced_group hp _ htraced

theorem visit_element_traced (ht : t.IsElement o) (hopen : t.IsOpen nodes)
    (ih : ∀ n ∈ contentOf nodes code, Traces o embed n) :
    Traces o embed (.tag t (.mk nodes label) code p) := by
  intro lo hi host h
  have hp : p.Within o.filename lo hi := h.within
  rw [visit_element_eq_visitEach ht hopen]
  exact Ends.map ((ends_of_within hp (visitEach_traced ih h.content _)).mono (fun _ he => he)
    fun results hsteps => tag_traced hp hsteps _ _ _)

theorem visit_tag_traced (hnodes : ∀ n ∈ nodes, Traces o embed n)
    (hcode : ∀ c, code = some c → Traces o embed c) :
    Traces o embed (.tag t (.mk nodes label) code p) := by
  have hcontent := forall_mem_contentOf hnodes hcode
  by_cases hopen : t.IsOpen nodes
  · cases t.kind o with
    | phrase hname => exact visit_phrase_traced hname hopen hcontent
    | statement hphrase hname => exact visit_statement_traced hphrase hname hopen
    | function hphrase hname =>
      exact visit_function_traced hphrase hname hopen fun n hn => hnodes n (mem_of_mem_tail hn)
    | element ht => exact visit_element_traced ht hopen hcontent
  · exact visit_closed_traced hopen

end Kinds

/-- Nodes that stand in order on some lines are visited to nodes that come from those lines, in
order. -/
theorem visit_traced (n : Node) : Traces o embed n := by
  -- The lines are not fixed in the induction: what a node holds is visited from its own line on.
  induction n using Node.induct with
  | leaf l p =>
    intro lo hi host h
    rw [visit, ofExcept_eq]
    exact leaf_traced h.within host l
  | bare l p => exact visit_lead_traced (by simp [Node.children])
  | lead l nodes label p ih => exact visit_lead_traced ih
  | frame fr nodes label p ih => exact visit_frame_traced ih
  | block nodes label p ih => exact visit_block_traced ih
  | tag t nodes label code p ih ihc => exact visit_tag_traced ih ihc

/-! ## Whole templates -/

/-- What text is compiled to comes from its lines, in order, and so does an error. -/
theorem nested_traced (o : Options) (text : String)
    (hword : (Line.ofSource text).length < UInt64.size) :
    Ends (CompileError.Within o.filename 1 (Line.ofSource text).length)
      (IR.Traced o.filename 1 (Line.ofSource text).length) (nested o text o.filename) := by
  -- Captured text weighs less than the text it is captured from.
  induction hweight : Text.weight text.toList using Nat.strongRecOn generalizing text with
  | ind w ih =>
    have hlaid := Template.nodesOf_laid (f := o.filename) hword
    rw [nested_eq_visitLines, visitLines]
    cases hnodes : Template.nodesOf o.filename (Line.ofSource text) with
    | error e =>
      rw [hnodes] at hlaid
      exact ⟨e.place, rfl, hlaid⟩
    | ok nodes =>
      rw [hnodes] at hlaid
      have hground := Template.grounded_of_nodesOf hnodes
      have hsettled : Settled o (nested o) 1 (Line.ofSource text).length nodes := by
        refine ⟨hlaid, fun m hm => ?_, fun attrs body p hm => ?_⟩
        · obtain ⟨k, hk, hm⟩ := Node.mem_walkAll.mp hm
          exact ⟨text.toList, hground k hk m hm⟩
        · obtain ⟨k, hk, hmem⟩ := Node.mem_walkAll.mp hm
          obtain ⟨c, hc, hsub⟩ := hground k hk _ hmem
          obtain ⟨last, -, hfits⟩ := hlaid.texts _ hm
          have hlt : last.line < UInt64.size := last.place.line.toNat_lt_size
          exact ih _ (hweight ▸ Text.weight_lt_of_cons_sublist hc hsub) (linesOf body.nodes)
            (by omega) rfl
      exact Ends.map ((visitEach_traced (fun n _ => visit_traced n) hsettled none).mono
        (fun _ he => he) fun results hr => hr.flatMap fun _ => false)

/-- Provenance is true to the source. Every node that a template is compiled to, at any depth, in
props and in captured text as well, comes from a known line of the template; lines never decrease
along a list of nodes, and no node comes from a line before that of its parent. If the template does
not compile, the error is about a place on one of its lines. Lines are counted in words of 64 bits,
which no text that fits into memory exceeds. -/
theorem source_traced (o : Options) (s : String) (hword : (Line.ofSource s).length < UInt64.size) :
    match Compile.source o s with
    | .ok nodes => IR.Traced o.filename 1 (Line.ofSource s).length nodes
    | .error e =>
      ∃ place, e.place? = some place ∧ place.Within o.filename 1 (Line.ofSource s).length := by
  have htraced := nested_traced o s hword
  rw [source_eq]
  cases hresult : nested o s o.filename with
  | ok nodes =>
    rw [hresult] at htraced
    exact htraced
  | error e =>
    rw [hresult] at htraced
    exact htraced

/-- A capture in a block that is handed to a component, with a capture in it, after a blank line. -/
theorem source_traced_captures :
    let s := "Card\n  @side\n    :capture\n\n      :capture\n        p= x\n"
    (Line.ofSource s).length < UInt64.size ∧
      ∃ nodes, Compile.source { filename := some "card" } s = .ok nodes ∧
        IR.Traced (some "card") 1 6 nodes := by
  intro s
  have hlength : (Line.ofSource s).length = 6 := by decide
  have hword : (Line.ofSource s).length < UInt64.size := by rw [hlength]; decide
  have htraced := source_traced { filename := some "card" } s hword
  have hok : (Compile.source { filename := some "card" } s).isOk = true := by decide +kernel
  refine ⟨hword, ?_⟩
  cases hnodes : Compile.source { filename := some "card" } s with
  | error e => rw [hnodes] at hok; cases hok
  | ok nodes =>
    rw [hnodes, hlength] at htraced
    exact ⟨nodes, rfl, htraced⟩

end Compile

end Offside
