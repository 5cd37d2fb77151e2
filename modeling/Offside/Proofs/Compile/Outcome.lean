import Offside.Proofs.Compile.Relabel

/-!
# What a visit makes of a node

A visit that succeeds has gone through the node in one of a few ways. They are listed here, once for
each kind of node, together with the visits it has made on the way: `visit_lead_ok`,
`visit_case_ok`, `visit_block_ok`, and for tags `TagVisited` with `visit_tag_ok`. Proofs about
successful compilations go by these cases.
-/

set_option autoImplicit false

namespace Offside

open List

namespace Compile

variable {o : Options} {embed : Embed (Except CompileError)} {host : Option Host} {p : Place}
  {nodes : List Node} {label : BlockLabel} {v : Visited}

/-- The nodes of a list have been visited with these results. -/
structure Results (o : Options) (embed : Embed (Except CompileError)) (host : Option Host)
    (nodes : List Node) (results : List (Node × Visited)) : Prop where
  nodes_eq : results.map Prod.fst = nodes
  visits : ∀ r ∈ results, visit o embed host r.1 = .ok r.2

namespace Results

theorem nil : Results o embed host [] [] :=
  ⟨rfl, by simp⟩

theorem cons {n : Node} {results : List (Node × Visited)} (hn : visit o embed host n = .ok v)
    (h : Results o embed host nodes results) :
    Results o embed host (n :: nodes) ((n, v) :: results) :=
  ⟨congrArg (n :: ·) h.nodes_eq, forall_mem_cons.mpr ⟨hn, h.visits⟩⟩

theorem append {nodes' : List Node} {results results' : List (Node × Visited)}
    (h : Results o embed host nodes results) (h' : Results o embed host nodes' results') :
    Results o embed host (nodes ++ nodes') (results ++ results') :=
  ⟨by rw [map_append, h.nodes_eq, h'.nodes_eq],
    fun r hr => (mem_append.mp hr).elim (h.visits r) (h'.visits r)⟩

/-- Each of the nodes has its result. -/
theorem exists_mem {n : Node} {results : List (Node × Visited)}
    (h : Results o embed host nodes results) (hn : n ∈ nodes) :
    ∃ v, (n, v) ∈ results ∧ visit o embed host n = .ok v := by
  rw [← h.nodes_eq] at hn
  obtain ⟨⟨m, v⟩, hr, rfl⟩ := mem_map.mp hn
  exact ⟨v, hr, h.visits _ hr⟩

theorem exists_singleton {n : Node} {results : List (Node × Visited)}
    (h : Results o embed host [n] results) : ∃ v, results = [(n, v)] := by
  obtain ⟨⟨m, v⟩, rfl, rfl⟩ := map_eq_singleton_iff.mp h.nodes_eq
  exact ⟨v, rfl⟩

end Results

theorem visitEach_results {results : List (Node × Visited)}
    (h : visitEach o embed host nodes = .ok results) : Results o embed host nodes results := by
  induction nodes generalizing results with
  | nil =>
    rw [visitEach] at h
    cases h
    exact .nil
  | cons n rest ih =>
    rw [visitEach] at h
    obtain ⟨v, hv, h⟩ := exists_of_bind_eq_ok h
    obtain ⟨others, hothers, h⟩ := exists_of_bind_eq_ok h
    cases h
    exact .cons hv (ih hothers)

/-! ## Statements, loops, cases and blocks -/

theorem visit_lead_ok {l : Lead} {body : Option Block}
    (h : visit o embed host (.lead l body p) = .ok v) :
    ∃ shell inner results, lead (Node.dressFor host (.lead l body p)) l = .ok shell ∧
      Results o embed inner (Node.lead l body p).children results ∧
      v = .one (shell.fill (results.flatMap fun r => r.2.toList) p) := by
  rcases body with _ | ⟨nodes, label⟩
  all_goals
    rw [visit, ofExcept_eq] at h
    obtain ⟨shell, hshell, h⟩ := exists_of_bind_eq_ok h
    obtain ⟨results, hresults, h⟩ := exists_of_bind_eq_ok h
    cases h
  · cases hresults
    exact ⟨shell, none, [], hshell, .nil, rfl⟩
  · exact ⟨shell, _, results, hshell, visitEach_results hresults, rfl⟩

theorem visit_case_ok {expr : String}
    (h : visit o embed host (.frame (.caseOf expr) (.mk nodes label) p) = .ok v) :
    ∃ results, Results o embed none nodes results ∧
      v = .one (.group (.switch expr true) (results.flatMap fun r => r.2.toList) (.ofPlace p)) := by
  rw [visit] at h
  obtain ⟨results, hresults, h⟩ := exists_of_bind_eq_ok h
  cases h
  exact ⟨results, visitEach_results hresults, rfl⟩

theorem visit_block_ok (h : visit o embed host (.block (.mk nodes label) p) = .ok v) :
    ∃ results, Results o embed (host.map fun h => h.inBlock label) nodes results ∧
      v = block o label p (results.flatMap fun r => r.2.toList) := by
  rw [visit] at h
  obtain ⟨results, hresults, h⟩ := exists_of_bind_eq_ok h
  cases h
  exact ⟨results, visitEach_results hresults, rfl⟩

/-! ## Tags -/

/-- The name of a named block. -/
def blockName? (n : Node) : Option String :=
  (contentName? n).map Prod.fst

theorem blockName?_of_fragmentName {n : Node} {name : String} (h : fragmentName p n = .ok name) :
    blockName? n = some name := by
  cases n with
  | block body q =>
    obtain ⟨nodes, ⟨name', args, isSub⟩⟩ := body
    cases name' <;> cases h
    rfl
  | leaf l q | lead l body q | frame f body q | tag t body code q => cases h

/-- The fragment that comes of a visited block. -/
def fragmentOf (r : Node × Visited) : String × PropEntry :=
  fragment ((blockName? r.1).getD "") r.2

theorem visitFragments_results {fragments : List (String × PropEntry)}
    (h : visitFragments o embed p nodes = .ok fragments) :
    ∃ results, Results o embed none nodes results ∧ fragments = results.map fragmentOf ∧
      ∀ r ∈ results, (blockName? r.1).isSome = true := by
  induction nodes generalizing fragments with
  | nil =>
    rw [visitFragments] at h
    cases h
    exact ⟨[], .nil, rfl, by simp⟩
  | cons n rest ih =>
    rw [visitFragments, ofExcept_eq] at h
    obtain ⟨name, hname, h⟩ := exists_of_bind_eq_ok h
    obtain ⟨v, hv, h⟩ := exists_of_bind_eq_ok h
    obtain ⟨others, hothers, h⟩ := exists_of_bind_eq_ok h
    cases h
    have hblock := blockName?_of_fragmentName hname
    obtain ⟨results, hresults, rfl, hnamed⟩ := ih hothers
    refine ⟨_, .cons hv hresults, ?_, forall_mem_cons.mpr ⟨hblock ▸ rfl, hnamed⟩⟩
    rw [map_cons, fragmentOf, hblock, Option.getD_some]

/-- What a visit makes of a tag around nodes. The results `inline` are those of the code on the line
of the tag. -/
inductive TagVisited (o : Options) (embed : Embed (Except CompileError)) (host : Option Host)
    (t : Tag) (nodes : List Node) (p : Place) : Visited → Prop
  | phrase {results : List (Node × Visited)} (hname : t.name = o.phraseTag)
    (hresults : Results o embed none nodes results)
    (hnamed : ∀ r ∈ results, (blockName? r.1).isSome = true) :
    TagVisited o embed host t nodes p
      (.one (phrase t.name (hostedAttrs host t) t.spreads (results.map fragmentOf) p))
  | statement (expr : String) (hname : Tag.isStatement t.name = true)
    (htext : ∀ k ∈ nodes, k.text?.isSome = true) :
    TagVisited o embed host t nodes p
      (.one (.atom (.statement (keyword t.name) expr) (.ofPlace p)))
  | function {first : Node} {body : List Node} {results : List (Node × Visited)} (sig : String)
    (hname : t.name = "function") (hnodes : nodes = first :: body)
    (hfirst : first.text?.isSome = true) (hresults : Results o embed none body results) :
    TagVisited o embed host t nodes p
      (.one (.group (.function sig false) (results.flatMap fun r => r.2.toList) (.ofPlace p)))
  | plain {results : List (Node × Visited)} (inline : List (Node × Visited))
    (hresults : Results o embed (Host.ofTag t.name) nodes results)
    (hinline : namedContent inline = []) :
    TagVisited o embed host t nodes p
      (.one (tag t.name (hostedAttrs host t) t.spreads (results ++ inline) p))

theorem statementTag_ok {name : String} (h : statementTag name nodes p = .ok v) :
    (∀ k ∈ nodes, k.text?.isSome = true) ∧
      ∃ expr, v = .one (.atom (.statement (keyword name) expr) (.ofPlace p)) := by
  obtain ⟨lines, hlines, h⟩ := exists_of_bind_eq_ok h
  cases h
  refine ⟨?_, _, rfl⟩
  clear h
  induction nodes generalizing lines with
  | nil => simp
  | cons n rest ih =>
    rw [mapM_cons] at hlines
    obtain ⟨t, ht, hlines⟩ := exists_of_bind_eq_ok hlines
    obtain ⟨others, hothers, -⟩ := exists_of_bind_eq_ok hlines
    refine forall_mem_cons.mpr ⟨?_, ih others hothers⟩
    cases htext : n.text? with
    | some t => rfl
    | none =>
      rw [statementLine, htext] at ht
      cases ht

theorem signature_ok {sig : String} (h : signature nodes p = .ok sig) :
    ∃ first body, nodes = first :: body ∧ first.text?.isSome = true := by
  cases nodes with
  | nil => cases h
  | cons first body =>
    refine ⟨first, body, rfl, ?_⟩
    cases htext : first.text? with
    | some t => rfl
    | none =>
      rw [signature, htext] at h
      cases h

theorem namedContent_singleton {n : Node} (h : contentName? n = none) (v : Visited) :
    namedContent [(n, v)] = [] := by
  simp [namedContent, h]

/-- A visit makes of a tag one of four things, unless the code on its line gives content under a
name. -/
theorem visit_tag_ok {t : Tag} {code : Option Node}
    (hcode : ∀ c, code = some c → contentName? c = none)
    (h : visit o embed host (.tag t (.mk nodes label) code p) = .ok v) :
    TagVisited o embed host t nodes p v := by
  by_cases hopen : t.IsOpen nodes
  case neg =>
    rw [visit_closed_eq hopen] at h
    cases h
  cases t.kind o with
  | phrase hname =>
    rw [visit_phrase_eq hname hopen] at h
    obtain ⟨fragments, hfragments, h⟩ := exists_of_bind_eq_ok h
    obtain ⟨results, hresults, rfl, hnamed⟩ := visitFragments_results hfragments
    cases h
    -- The code of a phrase would have to be a fragment, so it is the block that has been visited.
    have hcontent : contentOf nodes code = nodes := by
      refine contentOf_eq_of_not_mem fun c hc hmem => ?_
      obtain ⟨w, hr, -⟩ := hresults.exists_mem hmem
      have hsome := hnamed _ hr
      rw [blockName?, hcode c hc] at hsome
      cases hsome
    exact .phrase hname (hcontent ▸ hresults) hnamed
  | statement hphrase hname =>
    rw [visit_statement_eq hphrase hname hopen, ofExcept_eq] at h
    obtain ⟨htext, expr, rfl⟩ := statementTag_ok h
    exact .statement expr hname htext
  | function hphrase hname =>
    rw [visit_function_eq hphrase hname hopen, ofExcept_eq] at h
    obtain ⟨sig, hsig, h⟩ := exists_of_bind_eq_ok h
    obtain ⟨first, body, rfl, hfirst⟩ := signature_ok hsig
    obtain ⟨children, hchildren, h⟩ := exists_of_bind_eq_ok h
    obtain ⟨results, hresults, rfl⟩ := exists_of_map_eq_ok hchildren
    cases h
    exact .function sig hname rfl hfirst (visitEach_results hresults)
  | element ht =>
    rw [visit_element_eq_visitEach ht hopen] at h
    obtain ⟨results, hresults, rfl⟩ := exists_of_map_eq_ok h
    have hresults := visitEach_results hresults
    cases nodes with
    | cons n rest => exact append_nil results ▸ .plain [] hresults rfl
    | nil =>
      cases code with
      | none => exact append_nil results ▸ .plain [] hresults rfl
      | some c =>
        -- The results are those of the code, and none of the block.
        obtain ⟨v, rfl⟩ := hresults.exists_singleton
        have hblock : Results o embed (Host.ofTag t.name) [] [] := .nil
        exact .plain [(c, v)] hblock (namedContent_singleton (hcode c rfl) v)

end Compile

end Offside
