import Offside.Proofs.Compile.Aggregation
import Offside.Proofs.Compile.Effects
import Offside.Proofs.Compile.Kept
import Offside.Proofs.Compile.Lists

/-!
# Phrases

What stands in a phrase are its fragments, each a block with a name. They are visited in order, by
the general visit, and the first that is no such block, or that cannot be visited, decides: a phrase
compiles exactly if there is none, and fails as the first of them does. What a fragment gives is
found under its name in the props of the phrase, and the only change that is made to it concerns a
fragment that is a single tag, which is told its name (`visit_phrase`).

All of this holds along the run of a visit. A front end with a state is asked in the order of the
fragments, and not any more once one of them has failed.
-/

set_option autoImplicit false

namespace Offside

open List

/-! ## One more entry in a map -/

/-- The second map is the first with `key` given `value`, in the place of what it was given before
or, if there is no such place, at the end. -/
inductive Ordered.Put {α : Type} (key : String) (value : α) : Ordered α → Ordered α → Prop
  | replaced (before : Ordered α) (old : α) (after : Ordered α) (h : key ∉ keys before) :
      Put key value (before ++ (key, old) :: after) (before ++ (key, value) :: after)
  | added {m : Ordered α} (h : key ∉ keys m) : Put key value m (m ++ [(key, value)])

/-- There is one way to do that, and insertion does it. -/
theorem Ordered.put_iff {α : Type} {key : String} {value : α} {m m' : Ordered α} :
    Put key value m m' ↔ m' = insert key value m := by
  constructor
  · intro h
    cases h with
    | replaced before old after hkey =>
      induction before with
      | nil => rw [nil_append, nil_append, insert, if_pos rfl]
      | cons e rest ih =>
        rw [keys, map_cons, mem_cons, not_or] at hkey
        rw [cons_append, cons_append, insert, if_neg (Ne.symm hkey.1), ← ih hkey.2]
    | added hkey => rw [insert_of_not_mem value hkey]
  · rintro rfl
    -- Where the key is already there, it is found by induction; `added` cannot come out of that,
    -- since the key is in the rest of the map.
    by_cases hkey : key ∈ keys m
    · induction m with
      | nil => cases hkey
      | cons e rest ih =>
        obtain ⟨k, v⟩ := e
        by_cases hk : k = key
        · subst hk
          rw [insert, if_pos rfl]
          exact .replaced [] v rest (by simp [keys])
        · have hrest : key ∈ keys rest := (mem_cons.mp hkey).resolve_left (Ne.symm hk)
          have hput := ih hrest
          rw [insert, if_neg hk]
          generalize insert key value rest = rest' at hput ⊢
          cases hput with
          | replaced before old after hbefore =>
            refine .replaced ((k, v) :: before) old after ?_
            rw [keys, map_cons, mem_cons, not_or]
            exact ⟨Ne.symm hk, hbefore⟩
          | added hnone => exact absurd hrest hnone
    · rw [insert_of_not_mem value hkey]
      exact .added hkey

namespace Compile

/-! ## What becomes of a fragment -/

/-- The second list is what the fragment `name` hands to its phrase if the first is what it gives:
the same nodes, but a single tag is told the name. -/
inductive Told (name : String) : List IR → List IR → Prop
  | tag {tagName : String} {props props' : Props} {children : List IR} {buffer : Bool}
      {origin : Provenance} (h : Ordered.Put "key" (.key name (Json.quote name)) props props') :
      Told name [.tag tagName props children buffer origin]
        [.tag tagName props' children buffer origin]
  | other {nodes : List IR}
      (h : ∀ tagName props children buffer origin,
        nodes ≠ [.tag tagName props children buffer origin]) : Told name nodes nodes

theorem exists_told (name : String) (v : Visited) :
    ∃ nodes, fragment name v = (name, .content nodes none none) ∧ Told name v.toList nodes := by
  unfold fragment
  split
  · rename_i tagName props children buffer origin heq
    exact ⟨_, rfl, heq ▸ .tag (Ordered.put_iff.mpr rfl)⟩
  · rename_i heq
    exact ⟨_, rfl, .other heq⟩

/-- The last fragment of a name is what the phrase has under it. -/
theorem get?_phrase {attrs : List Attr} {spreads : List String} {name : String}
    {before after : List (Node × Visited)} {r : Node × Visited} (hname : blockName? r.1 = some name)
    (hnamed : ∀ r ∈ after, (blockName? r.1).isSome = true)
    (hfree : name ∉ ["class", "className", "style", "&props"])
    (hlast : ∀ r ∈ after, blockName? r.1 ≠ some name) :
    Ordered.get? name (Props.gatherPhrase (attrs.map Props.ofAttr ++
      (before ++ r :: after).map fragmentOf) spreads) = some (fragment name r.2).2 := by
  have hcontent : ∀ q ∈ (before ++ r :: after).map fragmentOf, q.2.content?.isSome = true :=
    forall_mem_map.mpr fun r _ => isSome_content?_fragment _ r.2
  obtain ⟨first, hfirst⟩ := Props.exists_namePath_append attrs hcontent
  obtain ⟨hown, hspread⟩ : name ∉ ["class", "className", "style"] ∧ name ≠ "&props" := by
    simp only [mem_cons, not_mem_nil, or_false, not_or] at hfree ⊢
    exact ⟨⟨hfree.1, hfree.2.1, hfree.2.2.1⟩, hfree.2.2.2⟩
  have hcollects : Attr.collects name = false := Attr.collects_eq_false_iff.mpr hown
  simp only [mem_cons, not_mem_nil, or_false, not_or] at hown
  -- No later fragment has the name, so the entry of `r` is the last one under it.
  have hafter : name ∉ Ordered.keys (after.map fragmentOf) := by
    rw [Ordered.keys, map_fst_fragments hnamed]
    intro hmem
    obtain ⟨k, hk, hname'⟩ := mem_filterMap.mp hmem
    obtain ⟨r', hr', rfl⟩ := mem_map.mp hk
    exact hlast r' hr' hname'
  have hentry : fragmentOf r = (name, (fragment name r.2).2) := by
    rw [fragmentOf, hname, Option.getD_some]
    exact Prod.ext (fst_fragment name r.2) rfl
  rw [Props.gatherPhrase, hfirst, Props.get?_gather, if_neg fun h => hspread h.1,
    if_neg fun h => hown.1 h.1, if_neg fun h => hown.2.2 h.1, Props.last?_filter hcollects,
    map_append, map_cons, ← append_assoc, append_cons, Ordered.last?_append_of_not_mem hafter,
    Ordered.last?_concat, hentry, if_pos rfl]

/-! ## Visits in turn -/

section Runs

open Runnable

variable {m : Type → Type} [Monad m] [MonadExceptOf CompileError m] [Runnable m] {o : Options}
  {embed : Embed m} {p : Place} {n : Node} {nodes : List Node} {s s' : State m} {e : CompileError}

/-- The nodes have been visited one after the other with these results, from the state `s` to the
state `s'`. -/
inductive InTurn (o : Options) (embed : Embed m) : State m → List (Node × Visited) → State m → Prop
  | nil (s : State m) : InTurn o embed s [] s
  | cons {n : Node} {v : Visited} {results : List (Node × Visited)} {s s₁ s' : State m}
      (hn : run (visit o embed none n) s = (.ok v, s₁)) (hrest : InTurn o embed s₁ results s') :
      InTurn o embed s ((n, v) :: results) s'

theorem InTurn.of_cons {v : Visited} {results : List (Node × Visited)}
    (h : InTurn o embed s ((n, v) :: results) s') :
    ∃ s₁, run (visit o embed none n) s = (.ok v, s₁) ∧ InTurn o embed s₁ results s' := by
  cases h with
  | cons hn hrest => exact ⟨_, hn, hrest⟩

/-- The node is not accepted as a fragment of the phrase at `p`: it is no block, it has no name, or
it cannot be visited. -/
inductive Refused (o : Options) (embed : Embed m) (p : Place) :
    Node → State m → CompileError → State m → Prop
  | notABlock {n : Node} {s : State m} (h : ∀ body q, n ≠ .block body q) :
      Refused o embed p n s (.misplaced .notAFragment p) s
  | unnamed {body : Block} {q : Place} {s : State m} (h : body.label.name = none) :
      Refused o embed p (.block body q) s (.misplaced .unnamedFragment p) s
  | fails {n : Node} {s s' : State m} {e : CompileError} (hnamed : (blockName? n).isSome = true)
      (h : run (visit o embed none n) s = (.error e, s')) : Refused o embed p n s e s'

theorem fragmentName_of_blockName? {name : String} (h : blockName? n = some name) :
    fragmentName p n = .ok name := by
  cases n with
  | block body q =>
    obtain ⟨nodes, ⟨name', args, isSub⟩⟩ := body
    cases name' <;> cases h
    rfl
  | leaf l q | lead l body q | frame f body q | tag t body code q => cases h

/-- A node is refused if it does not have the name of a fragment or if its visit fails. -/
theorem refused_iff :
    Refused o embed p n s e s' ↔
      fragmentName p n = .error e ∧ s' = s ∨
        ∃ name, fragmentName p n = .ok name ∧ run (visit o embed none n) s = (.error e, s') := by
  constructor
  · intro h
    cases h with
    | notABlock hblock =>
      cases n with
      | block body q => exact absurd rfl (hblock body q)
      | leaf l q | lead l body q | frame f body q | tag t body code q => exact .inl ⟨rfl, rfl⟩
    | @unnamed body q _ hname =>
      obtain ⟨nodes, ⟨name, args, isSub⟩⟩ := body
      obtain rfl : name = none := hname
      exact .inl ⟨rfl, rfl⟩
    | fails hnamed hvisit =>
      obtain ⟨name, hname⟩ := Option.isSome_iff_exists.mp hnamed
      exact .inr ⟨name, fragmentName_of_blockName? hname, hvisit⟩
  · rintro (⟨hname, rfl⟩ | ⟨name, hname, hvisit⟩)
    · cases n with
      | block body q =>
        obtain ⟨nodes, ⟨name, args, isSub⟩⟩ := body
        cases name <;> cases hname
        exact .unnamed rfl
      | leaf l q | lead l body q | frame f body q | tag t body code q =>
        cases hname
        exact .notABlock (by simp)
    · exact .fails (blockName?_of_fragmentName hname ▸ rfl) hvisit

/-- Fragments are taken if all of them are named blocks that can be visited in turn. -/
theorem run_visitFragments_ok_iff {fragments : List (String × PropEntry)} :
    run (visitFragments o embed p nodes) s = (.ok fragments, s') ↔
      ∃ results, results.map Prod.fst = nodes ∧ (∀ n ∈ nodes, (blockName? n).isSome = true) ∧
        InTurn o embed s results s' ∧ fragments = results.map fragmentOf := by
  -- The state is not fixed, since each visit hands its own on to the next.
  induction nodes generalizing s fragments with
  | nil =>
    rw [visitFragments, run_pure_eq_ok_iff]
    constructor
    · rintro ⟨rfl, rfl⟩
      exact ⟨[], rfl, by simp, .nil s', rfl⟩
    · rintro ⟨results, hnil, -, hturn, rfl⟩
      obtain rfl := map_eq_nil_iff.mp hnil
      cases hturn
      exact ⟨rfl, rfl⟩
  | cons n rest ih =>
    rw [visitFragments, run_bind_eq_ok_iff]
    simp only [run_ofExcept, run_bind_eq_ok_iff, run_pure_eq_ok_iff]
    constructor
    · rintro ⟨name, s₀, hfragment, v, s₁, hv, others, s₂, hothers, rfl, rfl⟩
      obtain ⟨hname, rfl⟩ := Prod.mk.inj hfragment
      have hblock := blockName?_of_fragmentName hname
      obtain ⟨results, hnodes, hnamed, hturn, rfl⟩ := ih.mp hothers
      refine ⟨(n, v) :: results, congrArg (n :: ·) hnodes,
        forall_mem_cons.mpr ⟨hblock ▸ rfl, hnamed⟩, .cons hv hturn, ?_⟩
      rw [map_cons, fragmentOf, hblock, Option.getD_some]
    · rintro ⟨_, hnodes, hnamed, hturn, rfl⟩
      obtain ⟨⟨_, v⟩, results, rfl, rfl, hrest⟩ := map_eq_cons_iff.mp hnodes
      obtain ⟨hn, hothers⟩ := forall_mem_cons.mp hnamed
      obtain ⟨name, hblock⟩ := Option.isSome_iff_exists.mp hn
      cases hturn with
      | @cons _ _ _ _ s₁ _ hv hturn =>
        refine ⟨name, s, by rw [fragmentName_of_blockName? hblock], v, s₁, hv, _, s',
          ih.mpr ⟨results, hrest, hothers, hturn, rfl⟩, ?_, rfl⟩
        rw [map_cons, fragmentOf, hblock, Option.getD_some]

/-- Fragments fail as the first of them that is refused. -/
theorem run_visitFragments_error_iff :
    run (visitFragments o embed p nodes) s = (.error e, s') ↔
      ∃ before n after s₁, nodes = before.map Prod.fst ++ n :: after ∧
        (∀ r ∈ before, (blockName? r.1).isSome = true) ∧ InTurn o embed s before s₁ ∧
        Refused o embed p n s₁ e s' := by
  induction nodes generalizing s with
  | nil =>
    rw [visitFragments]
    refine iff_of_false run_pure_ne_error ?_
    rintro ⟨before, n, after, s₁, hnil, -⟩
    simp at hnil
  | cons n rest ih =>
    rw [visitFragments, run_bind_eq_error_iff]
    simp only [run_ofExcept, run_bind_eq_error_iff, run_pure_ne_error, and_false, exists_false,
      or_false]
    -- A node can be refused for its name, by its visit, or not at all; then the rest decides.
    constructor
    · rintro (hfragment | ⟨name, s₀, hfragment, hvisit | ⟨v, s₁, hv, hothers⟩⟩)
      · obtain ⟨hname, rfl⟩ := Prod.mk.inj hfragment
        exact ⟨[], n, rest, s, rfl, by simp, .nil s, refused_iff.mpr (.inl ⟨hname, rfl⟩)⟩
      · obtain ⟨hname, rfl⟩ := Prod.mk.inj hfragment
        exact ⟨[], n, rest, s, rfl, by simp, .nil s, refused_iff.mpr (.inr ⟨name, hname, hvisit⟩)⟩
      · obtain ⟨hname, rfl⟩ := Prod.mk.inj hfragment
        obtain ⟨before, n', after, s₂, rfl, hnamed, hturn, hrefused⟩ := ih.mp hothers
        exact ⟨(n, v) :: before, n', after, s₂, rfl,
          forall_mem_cons.mpr ⟨blockName?_of_fragmentName hname ▸ rfl, hnamed⟩, .cons hv hturn,
          hrefused⟩
    · rintro ⟨before, n', after, s₁, hnodes, hnamed, hturn, hrefused⟩
      cases hturn with
      | nil =>
        obtain ⟨rfl, -⟩ := cons.inj hnodes
        rcases refused_iff.mp hrefused with ⟨hname, rfl⟩ | ⟨name, hname, hvisit⟩
        · exact .inl (by rw [hname])
        · exact .inr ⟨name, s, by rw [hname], .inl hvisit⟩
      | @cons _ v before _ s₂ _ hv hturn =>
        obtain ⟨rfl, hrest⟩ := cons.inj hnodes
        obtain ⟨hn, hothers⟩ := forall_mem_cons.mp hnamed
        obtain ⟨name, hblock⟩ := Option.isSome_iff_exists.mp hn
        exact .inr ⟨name, s, by rw [fragmentName_of_blockName? hblock], .inr ⟨v, s₂, hv,
          ih.mpr ⟨before, n', after, s₁, hrest, hothers, hturn, hrefused⟩⟩⟩

end Runs

/-! ## Phrases as a whole -/

open Runnable

/-- A phrase that is not turned down for being self-closing compiles exactly if it holds nothing but
named blocks and if these can be visited one after the other; otherwise it fails with the first node
that is refused. The outcome is a tag without children. Its props have under each name that is not
otherwise used what the last fragment of that name gives, and a fragment that is a single tag is
told its name. -/
theorem visit_phrase {m : Type → Type} [Monad m] [MonadExceptOf CompileError m] [Runnable m]
    [LawfulMonad m] (o : Options) (embed : Embed m) (host : Option Host) (t : Tag)
    (nodes : List Node) (label : BlockLabel) (code : Option Node) (p : Place)
    (hname : t.name = o.phraseTag)
    (hopen : t.selfClosing = true → ∀ n ∈ nodes, isBlankText n = true) (s s' : State m) :
    let outcome := run (visit o embed host (.tag t (.mk nodes label) code p)) s
    ((∃ v, outcome = (.ok v, s')) ↔
      (∀ n ∈ contentOf nodes code, (blockName? n).isSome = true) ∧
        ∃ results, results.map Prod.fst = contentOf nodes code ∧ InTurn o embed s results s') ∧
    (∀ e, outcome = (.error e, s') ↔
      ∃ before n after s₁, contentOf nodes code = before.map Prod.fst ++ n :: after ∧
        (∀ r ∈ before, (blockName? r.1).isSome = true) ∧ InTurn o embed s before s₁ ∧
        Refused o embed p n s₁ e s') ∧
    ∀ v, outcome = (.ok v, s') →
      ∃ results props, results.map Prod.fst = contentOf nodes code ∧
        InTurn o embed s results s' ∧ v = .one (.tag t.name props [] true (.ofPlace p)) ∧
        ∀ before n w after name, results = before ++ (n, w) :: after → blockName? n = some name →
          name ∉ ["class", "className", "style", "&props"] →
          (∀ r ∈ after, blockName? r.1 ≠ some name) →
          ∃ content, Ordered.get? name props = some (.content content none none) ∧
            Told name w.toList content := by
  intro outcome
  -- All three parts are read off this run: it visits the fragments and does nothing else.
  have houtcome : outcome = run (do
      let fragments ← visitFragments o embed p (contentOf nodes code)
      pure (.one (phrase t.name (hostedAttrs host t) t.spreads fragments p))) s :=
    congrArg (run · s) (visit_phrase_eq hname hopen)
  refine ⟨?succeeds, fun e => ?fails, fun v hv => ?result⟩
  case succeeds =>
    simp only [houtcome, run_bind_eq_ok_iff, run_visitFragments_ok_iff, run_pure_eq_ok_iff]
    constructor
    · rintro ⟨v, fragments, s₁, ⟨results, hresults, hnamed, hturn, -⟩, -, rfl⟩
      exact ⟨hnamed, results, hresults, hturn⟩
    · rintro ⟨hnamed, results, hresults, hturn⟩
      exact ⟨_, _, s', ⟨results, hresults, hnamed, hturn, rfl⟩, rfl, rfl⟩
  case fails =>
    simp only [houtcome, run_bind_eq_error_iff, run_visitFragments_error_iff, run_pure_ne_error,
      and_false, exists_false, or_false]
  case result =>
    simp only [houtcome, run_bind_eq_ok_iff, run_visitFragments_ok_iff, run_pure_eq_ok_iff] at hv
    obtain ⟨_, s₁, ⟨results, hresults, hnamed, hturn, rfl⟩, rfl, rfl⟩ := hv
    refine ⟨results, _, hresults, hturn, rfl, ?_⟩
    rintro before n w after name rfl hblock hfree hlast
    obtain ⟨content, hcontent, htold⟩ := exists_told name w
    refine ⟨content, ?_, htold⟩
    have hafter : ∀ r ∈ after, (blockName? r.1).isSome = true := by
      intro r hr
      refine hnamed r.1 (hresults ▸ mem_map_of_mem ?_)
      exact mem_append_right _ (mem_cons_of_mem _ hr)
    rw [get?_phrase (r := (n, w)) hblock hafter hfree hlast, hcontent]

/-- A front end is asked about a capture in the first fragment. The fragment behind it is text, or a
tag that has a key of its own. -/
theorem visit_phrase_replayed :
    let p : Place := ⟨1, none⟩
    let bold : Node := .tag ⟨"b", [⟨"key", .flag true, true⟩], [], false⟩ (.plain []) none p
    let captured : Node := .frame (.filter "capture" []) (.plain [.leaf (.text "x") p]) p
    let named (name : String) (n : Node) : Node := .block (.mk [n] ⟨some name, none, true⟩) p
    let phrase (n : Node) : Node :=
      .tag ⟨"t", [], [], false⟩ (.plain [named "a" captured, n]) none p
    let embed : Embed FrontEnd.Replayed := embedded {} (FrontEnd.replay (.ok bold) []) 1
    run (visit {} embed none (phrase (.leaf (.text "y") p))) [] =
        (.error (.misplaced .notAFragment p), [⟨"x", none⟩]) ∧
      ∃ props, run (visit {} embed none (phrase (named "b" bold))) [] =
          (.ok (.one (.tag "t" props [] true (.ofPlace p))), [⟨"x", none⟩]) ∧
        Ordered.get? "b" props = some (.content
          [.tag "b" [("key", .key "b" (Json.quote "b"))] [] true (.ofPlace p)] none none) := by
  intro p bold captured named phrase embed
  have hfirst : ∃ v, run (visit {} embed none (named "a" captured)) [] = (.ok v, [⟨"x", none⟩]) :=
    ⟨_, rfl⟩
  obtain ⟨v, hv⟩ := hfirst
  have hbold (calls : List FrontEnd.Call) : run (visit {} embed none (named "b" bold)) calls =
      (.ok (.many [.tag "b" [("key", .value (.flag true) (some true) none)] [] true (.ofPlace p)]),
        calls) := rfl
  have hphrase (n : Node) := visit_phrase {} embed none ⟨"t", [], [], false⟩
    [named "a" captured, n] .plain none p rfl (by simp) [] [⟨"x", none⟩]
  constructor
  · refine ((hphrase _).2.1 _).mpr
      ⟨[(_, v)], _, [], _, rfl, ?_, .cons hv (.nil _), .notABlock (by simp)⟩
    exact forall_mem_singleton.mpr rfl
  · obtain ⟨w, hw⟩ := (hphrase (named "b" bold)).1.mpr
      ⟨by simp [contentOf, named, blockName?, contentName?],
        [(_, v), (_, _)], rfl, .cons hv (.cons (hbold _) (.nil _))⟩
    obtain ⟨results, props, hresults, hturn, rfl, hprops⟩ := (hphrase (named "b" bold)).2.2 w hw
    refine ⟨props, hw, ?_⟩
    obtain ⟨⟨n₁, v₁⟩, _, rfl, -, hmore⟩ := map_eq_cons_iff.mp hresults
    obtain ⟨⟨n₂, v₂⟩, _, rfl, rfl, hend⟩ := map_eq_cons_iff.mp hmore
    obtain rfl := map_eq_nil_iff.mp hend
    obtain ⟨s₁, -, hturn₂⟩ := hturn.of_cons
    obtain ⟨s₂, hv₂, -⟩ := hturn₂.of_cons
    -- What the theorem says was visited is what visiting gives, and so the tag is known.
    obtain rfl := Except.ok.inj (Prod.mk.inj ((hbold s₁).symm.trans hv₂)).1
    obtain ⟨content, hcontent, htold⟩ :=
      hprops [(n₁, v₁)] _ _ [] "b" rfl rfl (by decide) (by simp)
    rw [hcontent]
    cases htold with
    | other hne => exact absurd rfl (hne _ _ _ _ _)
    | tag hput =>
      rw [Ordered.put_iff.mp hput]
      rfl

end Compile

end Offside
