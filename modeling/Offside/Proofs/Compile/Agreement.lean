import Offside.Proofs.Compile.Relabel

/-!
# What a visit depends on

Of the function that compiles captured text a visit uses nothing but the answers for the text of the
captures in the tree. So two such functions that answer alike there give the same visit, and the
errors of a visit are those of the captures, those that a template can cause by itself, and the
complaint about a statement of unknown code, if the tree has one (`visit_agree`).

Both facts come out of one walk over the tree: `Agree E x y` says that `x` and `y` come to the same,
and that `E` holds of the error in case they fail.
-/

set_option autoImplicit false

namespace Offside

open List

/-! ## Outcomes that agree -/

section Outcome

variable {ε α β : Type} {E : ε → Prop}

/-- Both come to the same, and if that is an error, it is one of which `E` holds. -/
def Agree (E : ε → Prop) (x y : Except ε α) : Prop :=
  x = y ∧ Ends E (fun _ => True) y

theorem Agree.of_ends {x : Except ε α} (h : Ends E (fun _ => True) x) : Agree E x x :=
  ⟨rfl, h⟩

theorem Agree.ok (a : α) : Agree E (.ok a) (.ok a) :=
  .of_ends trivial

theorem Agree.bind {x y : Except ε α} {k k' : α → Except ε β} (h : Agree E x y)
    (hk : ∀ a, Agree E (k a) (k' a)) : Agree E (x >>= k) (y >>= k') := by
  obtain ⟨rfl, hends⟩ := h
  cases x with
  | ok a => exact hk a
  | error e => exact ⟨rfl, hends⟩

theorem Agree.map {x y : Except ε α} (h : Agree E x y) (g : α → β) :
    Agree E (g <$> x) (g <$> y) := by
  obtain ⟨rfl, hends⟩ := h
  exact ⟨rfl, hends.map⟩

end Outcome

namespace Compile

/-- `E` holds of the errors that a template can cause by itself. -/
structure Admits (E : CompileError → Prop) : Prop where
  misplaced : ∀ what place, E (.misplaced what place)
  unsupported : ∀ what place, E (.unsupported what place)

end Compile

open Compile in
/-- Visits of the node itself with `embed'` and with `embed` agree: its statement has a known code,
unless `E` allows for that error, and as a capture it is compiled alike. -/
def Node.Agrees (E : CompileError → Prop) (o : Options)
    (embed' embed : Embed (Except CompileError)) :
    Node → Prop
  | .lead (.code coded _ _) _ _ =>
    (Statement.decode? coded).isSome = true ∨ ∀ found node, E (.violation found node)
  | .frame (.filter name attrs) body p =>
    name = "capture" → Agree E (capture o embed' attrs (linesOf body.nodes) p)
      (capture o embed attrs (linesOf body.nodes) p)
  | _ => True

/-- Only statements and captures need to be looked at. -/
theorem Node.agrees_of {E : CompileError → Prop} {o : Options}
    {embed embed' : Embed (Except CompileError)} {n : Node}
    (hcode : ∀ coded buffer escape body p, n = .lead (.code coded buffer escape) body p →
      (Statement.decode? coded).isSome = true ∨ ∀ found node, E (.violation found node))
    (hcapture : ∀ attrs body p, n = .frame (.filter "capture" attrs) body p →
      Agree E (Compile.capture o embed' attrs (Compile.linesOf body.nodes) p)
        (Compile.capture o embed attrs (Compile.linesOf body.nodes) p)) :
    n.Agrees E o embed' embed := by
  cases n with
  | lead l body p =>
    cases l with
    | code coded buffer escape => exact hcode _ _ _ _ _ rfl
    | each header key | when expr | mixin name args call => trivial
  | frame f body p =>
    cases f with
    | filter name attrs =>
      rintro rfl
      exact hcapture attrs body p rfl
    | comment text buffer | caseOf expr => trivial
  | leaf l p | block body p | tag t body code p => trivial

namespace Compile

variable {E : CompileError → Prop} {o : Options} {embed embed' : Embed (Except CompileError)}
  {p : Place}

/-! ## The errors of the parts -/

theorem leaf_ends (hE : Admits E) (host : Option Host) (l : Leaf) :
    Ends E (fun _ => True) (leaf o host p l) := by
  cases l with
  | text t =>
    cases host with
    | none => trivial
    | some h =>
      simp only [leaf, hostedText]
      split
      · exact hE.misplaced _ _
      · trivial
  | comment value buffer | literal expr buffer escape | yield name args => trivial
  | mixinBlock | doctype t => exact hE.unsupported _ _

theorem lead_ends (hE : Admits E) {l : Lead} {body : Option Block}
    (h : (Node.lead l body p).Agrees E o embed' embed) (host : Option Host) :
    Ends E (fun _ => True) (lead (Node.dressFor host (.lead l body p)) l) := by
  cases l with
  | code coded buffer escape =>
    simp only [lead]
    split
    · trivial
    · rename_i hnone
      exact h.elim (fun hsome => absurd hsome (by simp [hnone])) fun hviolation => hviolation _ _
  | each header key | when expr => trivial
  | mixin name args call => exact hE.unsupported _ _

theorem statementTag_ends (hE : Admits E) (name : String) (nodes : List Node) :
    Ends E (fun _ => True) (statementTag name nodes p) := by
  have hline (n : Node) : Ends E (fun _ => True) (statementLine name n) := by
    unfold statementLine
    split
    · trivial
    · exact hE.misplaced _ _
  have hlines : Ends E (fun _ => True) (nodes.mapM (statementLine name)) := by
    induction nodes with
    | nil => trivial
    | cons n rest ih =>
      rw [mapM_cons]
      exact (hline n).bind fun t _ => ih.bind fun ts _ => trivial
  rw [statementTag]
  exact hlines.bind fun lines _ => trivial

theorem signature_ends (hE : Admits E) (nodes : List Node) :
    Ends E (fun _ => True) (signature nodes p) := by
  cases nodes with
  | nil => exact hE.misplaced _ _
  | cons first rest =>
    simp only [signature]
    split
    · trivial
    · exact hE.misplaced _ _

theorem fragmentName_ends (hE : Admits E) (n : Node) :
    Ends E (fun _ => True) (fragmentName p n) := by
  unfold fragmentName
  split
  · trivial
  · exact hE.misplaced _ _
  · exact hE.misplaced _ _

/-! ## The visit -/

/-- Visits of the node agree, whoever hosts it. -/
def VisitsAgree (E : CompileError → Prop) (o : Options)
    (embed' embed : Embed (Except CompileError)) (n : Node) : Prop :=
  ∀ host, Agree E (visit o embed' host n) (visit o embed host n)

theorem visitEach_agree {nodes : List Node} (h : ∀ n ∈ nodes, VisitsAgree E o embed' embed n)
    (host : Option Host) :
    Agree E (visitEach o embed' host nodes) (visitEach o embed host nodes) := by
  induction nodes with
  | nil =>
    rw [visitEach, visitEach]
    exact .ok _
  | cons n rest ih =>
    rw [visitEach, visitEach]
    refine (h n mem_cons_self host).bind fun v => ?_
    exact (ih fun m hm => h m (mem_cons_of_mem _ hm)).bind fun others => .ok _

theorem visitFragments_agree (hE : Admits E) {nodes : List Node}
    (h : ∀ n ∈ nodes, VisitsAgree E o embed' embed n) :
    Agree E (visitFragments o embed' p nodes) (visitFragments o embed p nodes) := by
  induction nodes with
  | nil =>
    rw [visitFragments, visitFragments]
    exact .ok _
  | cons n rest ih =>
    rw [visitFragments, visitFragments, ofExcept_eq]
    refine (Agree.of_ends (fragmentName_ends hE n)).bind fun name => ?_
    refine (h n mem_cons_self none).bind fun v => ?_
    exact (ih fun m hm => h m (mem_cons_of_mem _ hm)).bind fun others => .ok _

theorem visitList_agree {nodes : List Node} (h : ∀ n ∈ nodes, VisitsAgree E o embed' embed n)
    (host : Option Host) :
    Agree E (visitList o embed' host nodes) (visitList o embed host nodes) :=
  (visitEach_agree h host).map _

/-! ### The kinds of nodes -/

section Kinds

variable {nodes : List Node} {label : BlockLabel} {t : Tag} {code : Option Node}

theorem visit_lead_agree (hE : Admits E) {l : Lead} {body : Option Block}
    (hself : (Node.lead l body p).Agrees E o embed' embed)
    (h : ∀ n ∈ (Node.lead l body p).children, VisitsAgree E o embed' embed n) :
    VisitsAgree E o embed' embed (.lead l body p) := by
  intro host
  rw [visit_lead_eq, visit_lead_eq, ofExcept_eq]
  refine (Agree.of_ends (lead_ends hE hself host)).bind fun shell => ?_
  exact (visitList_agree h _).bind fun children => .ok _

theorem visit_frame_agree {f : Frame}
    (hself : (Node.frame f (.mk nodes label) p).Agrees E o embed' embed)
    (h : ∀ n ∈ nodes, VisitsAgree E o embed' embed n) :
    VisitsAgree E o embed' embed (.frame f (.mk nodes label) p) := by
  intro host
  cases f with
  | comment text buffer =>
    rw [visit, visit]
    exact .ok _
  | caseOf expr =>
    rw [visit_case_eq, visit_case_eq]
    exact (visitList_agree h none).bind fun children => .ok _
  | filter name attrs =>
    rw [visit, visit]
    simp only [filter]
    split
    · -- This is the one place where the two visits do not do the same by themselves.
      rename_i hname
      exact hself hname
    · exact .ok _

theorem visit_block_agree (h : ∀ n ∈ nodes, VisitsAgree E o embed' embed n) :
    VisitsAgree E o embed' embed (.block (.mk nodes label) p) := by
  intro host
  rw [visit_block_eq, visit_block_eq]
  exact (visitList_agree h _).bind fun children => .ok _

theorem visit_closed_agree (hE : Admits E) (hclosed : ¬t.IsOpen nodes) :
    VisitsAgree E o embed' embed (.tag t (.mk nodes label) code p) := by
  intro host
  rw [visit_closed_eq hclosed, visit_closed_eq hclosed]
  exact .of_ends (hE.misplaced _ _)

theorem visit_phrase_agree (hE : Admits E) (hname : t.name = o.phraseTag) (hopen : t.IsOpen nodes)
    (h : ∀ n ∈ contentOf nodes code, VisitsAgree E o embed' embed n) :
    VisitsAgree E o embed' embed (.tag t (.mk nodes label) code p) := by
  intro host
  rw [visit_phrase_eq hname hopen, visit_phrase_eq hname hopen]
  exact (visitFragments_agree hE h).bind fun fragments => .ok _

theorem visit_statement_agree (hE : Admits E) (hphrase : t.name ≠ o.phraseTag)
    (hname : Tag.isStatement t.name = true) (hopen : t.IsOpen nodes) :
    VisitsAgree E o embed' embed (.tag t (.mk nodes label) code p) := by
  intro host
  rw [visit_statement_eq hphrase hname hopen, visit_statement_eq hphrase hname hopen, ofExcept_eq]
  exact .of_ends (statementTag_ends hE t.name nodes)

theorem visit_function_agree (hE : Admits E) (hphrase : t.name ≠ o.phraseTag)
    (hname : t.name = "function") (hopen : t.IsOpen nodes)
    (h : ∀ n ∈ nodes.tail, VisitsAgree E o embed' embed n) :
    VisitsAgree E o embed' embed (.tag t (.mk nodes label) code p) := by
  intro host
  rw [visit_function_eq hphrase hname hopen, visit_function_eq hphrase hname hopen, ofExcept_eq]
  refine (Agree.of_ends (signature_ends hE nodes)).bind fun sig => ?_
  exact (visitList_agree h none).bind fun children => .ok _

theorem visit_element_agree (ht : t.IsElement o) (hopen : t.IsOpen nodes)
    (h : ∀ n ∈ contentOf nodes code, VisitsAgree E o embed' embed n) :
    VisitsAgree E o embed' embed (.tag t (.mk nodes label) code p) := by
  intro host
  rw [visit_element_eq_visitEach ht hopen, visit_element_eq_visitEach ht hopen]
  exact (visitEach_agree h _).map _

theorem visit_tag_agree (hE : Admits E) (hnodes : ∀ n ∈ nodes, VisitsAgree E o embed' embed n)
    (hcode : ∀ c, code = some c → VisitsAgree E o embed' embed c) :
    VisitsAgree E o embed' embed (.tag t (.mk nodes label) code p) := by
  have hcontent := forall_mem_contentOf hnodes hcode
  by_cases hopen : t.IsOpen nodes
  · cases t.kind o with
    | phrase hname => exact visit_phrase_agree hE hname hopen hcontent
    | statement hphrase hname => exact visit_statement_agree hE hphrase hname hopen
    | function hphrase hname =>
      exact visit_function_agree hE hphrase hname hopen fun n hn => hnodes n (mem_of_mem_tail hn)
    | element ht => exact visit_element_agree ht hopen hcontent
  · exact visit_closed_agree hE hopen

end Kinds

/-- Visits agree as soon as they do so at every capture of the tree, and their errors are among
those of the captures, as far as `E` goes. -/
theorem visit_agree (hE : Admits E) {n : Node} (h : ∀ m ∈ n.walk, m.Agrees E o embed' embed) :
    VisitsAgree E o embed' embed n := by
  -- Errors of the visit itself are in `E` by `hE`; those from captured text are by `h`.
  induction n using Node.induct with
  | leaf l p =>
    intro host
    rw [visit, visit, ofExcept_eq]
    exact .of_ends (leaf_ends hE host l)
  | bare l p =>
    exact visit_lead_agree hE (Node.forall_mem_walk.mp h).1 (by simp [Node.children])
  | lead l nodes label p ih =>
    obtain ⟨hself, hbelow, -⟩ := Node.forall_mem_walk.mp h
    exact visit_lead_agree hE hself fun n hn => ih n hn (hbelow n hn)
  | frame f nodes label p ih =>
    obtain ⟨hself, hbelow, -⟩ := Node.forall_mem_walk.mp h
    exact visit_frame_agree hself fun n hn => ih n hn (hbelow n hn)
  | block nodes label p ih =>
    obtain ⟨-, hbelow, -⟩ := Node.forall_mem_walk.mp h
    exact visit_block_agree fun n hn => ih n hn (hbelow n hn)
  | tag t nodes label code p ih ihc =>
    obtain ⟨-, hbelow, hcode⟩ := Node.forall_mem_walk.mp h
    exact visit_tag_agree hE (fun n hn => ih n hn (hbelow n hn)) fun c hc => ihc c hc (hcode c hc)

/-- A capture agrees if its text does, and its errors are those of the text further down. -/
theorem capture_agree {attrs : List Attr} {text : String}
    (h : embed' text (p.filename <|> o.filename) = embed text (p.filename <|> o.filename))
    (hends : Ends (fun e => E (e.shift p.line)) (fun _ => True)
      (embed text (p.filename <|> o.filename))) :
    Agree E (capture o embed' attrs text p) (capture o embed attrs text p) := by
  rw [capture_eq, capture_eq, h]
  refine .of_ends ?_
  cases hresult : embed text (p.filename <|> o.filename) with
  | ok nodes => trivial
  | error e =>
    rw [hresult] at hends
    exact hends

end Compile

end Offside
