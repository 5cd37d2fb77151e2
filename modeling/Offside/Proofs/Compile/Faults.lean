import Mathlib.Data.String.Basic
import Offside.Proofs.Compile.Nested
import Offside.Proofs.Template.Contract

/-!
# Faults that do not occur

Most errors of a compilation are errors of the template. Two are not: a statement of unknown code is
the front end's doing, and that captures lie too deep is a limit of the compiler. With the bundled
front end neither is ever seen. It keeps its promises, for captured text as for any other
(`source_keeps_contract`), and captured text gets shorter from one capture to the next, so that the
limit is never met (`captures_end`).

For both the errors are followed through the captures of a text down to any depth (`atDepth_ends`).
-/

set_option autoImplicit false

namespace Offside

open List

namespace Compile

/-- `E` holds of the errors of all templates, also of those further down in another one. -/
structure Covers (E : CompileError → Prop) : Prop extends Admits E where
  frontEnd : ∀ error, E (.frontEnd error)
  shift : ∀ offset error, E error → E (error.shift offset)

variable {E : CompileError → Prop} {o : Options}

/-- The errors of a tree are those of its captures, and those of all templates. -/
theorem visit_ends (hE : Covers E) {embed : Embed (Except CompileError)} {root : Node}
    (hcode : (∃ source, ∀ m ∈ root.walk, m.Grounded source) ∨
      ∀ found node, E (.violation found node))
    (hembed : ∀ attrs body p, .frame (.filter "capture" attrs) body p ∈ root.walk →
      ∀ f, Ends E (fun _ => True) (embed (linesOf body.nodes) f)) :
    Ends E (fun _ => True) (visit o embed none root) := by
  -- Two runs that agree end alike, and a visit agrees with itself as soon as its captures do.
  suffices hagree : Agree E (visit o embed none root) (visit o embed none root) from hagree.2
  refine visit_agree hE.toAdmits (fun m hm => Node.agrees_of ?_ ?_) none
  · rintro coded buffer escape body p rfl
    exact hcode.imp_left fun ⟨source, hground⟩ => hground _ hm
  · rintro attrs body p rfl
    refine capture_agree rfl ((hembed attrs body p hm _).mono ?_ fun _ _ => trivial)
    exact fun e he => hE.shift p.line e he

/-- The errors of a text are those of all templates. Its captures lie deeper than is allowed for at
most if the text weighs as much. -/
theorem atDepth_ends (hE : Covers E) {d : Nat} {text : String}
    (h : Text.weight text.toList < d ∨ E .tooDeep) (f : Option String) :
    Ends E (fun _ => True) (atDepth o d text f) := by
  -- Captured text weighs less than the text around it, so it stays below the depth that is left.
  induction d generalizing text f with
  | zero => exact h.resolve_left (Nat.not_lt_zero _)
  | succ d ih =>
    rw [atDepth_succ]
    cases hparse : Template.parse text f with
    | error e => exact hE.frontEnd e
    | ok root =>
      have hground : ∃ source, ∀ m ∈ root.walk, m.Grounded source :=
        ⟨_, Template.grounded_of_parse hparse⟩
      refine (visit_ends hE (.inl hground) fun attrs body p hmem f => ?_).map
      refine ih (h.imp_left fun hd => ?_) f
      have hlt := Template.weight_filter_lt hparse hmem
      omega

/-! ## The front end keeps its promises -/

theorem covers_ne_violation : Covers fun e => ∀ found node, e ≠ .violation found node where
  misplaced _ _ := nofun
  unsupported _ _ := nofun
  frontEnd _ := nofun
  shift offset e h := by
    cases e with
    | violation found node => exact absurd rfl (h found node)
    | frontEnd | unsupported | misplaced | tooDeep => exact nofun

/-- The bundled front end keeps what the compiler relies on, in every tree and at every node of it:
statements have a known code and a trimmed expression, which is empty for `else`; the code on the
line of a tag is an expression that is rendered and holds nothing; filters and comments hold nothing
but text; and every text is one line without white space at its end. So no compilation complains
about the front end, neither of a source nor of captured text at any depth. -/
theorem source_keeps_contract (o : Options) (s : String) :
    (∀ f root, Template.parse s f = .ok root → ∀ m ∈ root.walk, m.Conforms) ∧
      (∀ found node, Compile.source o s ≠ .error (.violation found node)) ∧
      ∀ depth f found node,
        (embedded o FrontEnd.bundled depth s f : Except CompileError (List IR)) ≠
          .error (.violation found node) := by
  have hdepth (d : Nat) (f : Option String) :
      Ends (fun e => ∀ found node, e ≠ .violation found node) (fun _ => True)
        (atDepth o d s f) :=
    atDepth_ends covers_ne_violation (.inr nofun) f
  refine ⟨fun f root hparse => Template.conforms_of_parse hparse, ?_, ?_⟩
  · intro found node herror
    rw [source_eq, nested] at herror
    have hends := hdepth (Text.weight s.toList + 1) o.filename
    rw [herror] at hends
    exact hends found node rfl
  · intro depth f found node herror
    have hends := hdepth depth f
    rw [atDepth, herror] at hends
    exact hends found node rfl

/-- A capture behind a tag, with branches and a second capture in it. -/
theorem source_keeps_contract_captures :
    let s := "p: :capture \n  if   x \n    b= y\n  else \n    :capture\n      | z \n"
    (∃ root, Template.parse s none = .ok root ∧ ∀ m ∈ root.walk, m.Conforms) ∧
      ∀ found node, Compile.source {} s ≠ .error (.violation found node) := by
  intro s
  obtain ⟨hparse, hsource, -⟩ := source_keeps_contract {} s
  have hok : (Template.parse s none).isOk = true := by decide +kernel
  refine ⟨?_, hsource⟩
  cases hroot : Template.parse s none with
  | error e => rw [hroot] at hok; cases hok
  | ok root => exact ⟨root, rfl, hparse none root hroot⟩

end Compile

/-! ## Captures end -/

/-- The text of a filter. -/
def Node.filterText? : Node → Option String
  | .frame (.filter _ _) body _ => some (Compile.linesOf body.nodes)
  | _ => none

theorem Node.exists_filter {n : Node} {text : String} (h : n.filterText? = some text) :
    ∃ name attrs body p, n = .frame (.filter name attrs) body p ∧
      Compile.linesOf body.nodes = text := by
  cases n with
  | frame f body p =>
    cases f with
    | filter name attrs => exact ⟨name, attrs, body, p, rfl, Option.some.inj h⟩
    | comment value buffer | caseOf expr => cases h
  | leaf l p | lead l body p | block body p | tag t body code p => cases h

theorem utf8ByteSize_lt_of_cons_sublist {c : Char} {s t : String}
    (h : c :: s.toList <+ t.toList) : s.utf8ByteSize < t.utf8ByteSize := by
  have hle := String.utf8Len_le_of_sublist h
  have hc := c.utf8Size_pos
  rw [String.utf8Len_cons, ← String.utf8ByteSize_ofList, ← String.utf8ByteSize_ofList,
    String.ofList_toList, String.ofList_toList] at hle
  omega

/-- The text of a filter is shorter than the template it stands in. -/
theorem Template.filterText_lt {s : String} {f : Option String} {root m : Node} {text : String}
    (hparse : parse s f = .ok root) (hm : m ∈ root.walk) (htext : m.filterText? = some text) :
    text.utf8ByteSize < s.utf8ByteSize := by
  obtain ⟨name, attrs, body, p, rfl, rfl⟩ := Node.exists_filter htext
  obtain ⟨c, -, hsub⟩ := grounded_of_parse hparse _ hm
  exact utf8ByteSize_lt_of_cons_sublist hsub

namespace Compile

/-- The text `inner` stands in a filter of the template `outer`. -/
def Captures (outer inner : String) : Prop :=
  ∃ f root, Template.parse outer f = .ok root ∧ ∃ m ∈ root.walk, m.filterText? = some inner

theorem Captures.utf8ByteSize_lt {outer inner : String} (h : Captures outer inner) :
    inner.utf8ByteSize < outer.utf8ByteSize := by
  obtain ⟨f, root, hparse, m, hm, htext⟩ := h
  exact Template.filterText_lt hparse hm htext

/-- Captures can be found by searching the tree. -/
theorem captures_of_any {outer inner : String}
    (h : (match Template.parse outer none with
      | .ok root => root.walk.any fun m => m.filterText? == some inner
      | .error _ => false) = true) : Captures outer inner := by
  split at h
  · rename_i root hparse
    obtain ⟨m, hm, htext⟩ := any_eq_true.mp h
    exact ⟨none, root, hparse, m, hm, by simpa using htext⟩
  · cases h

theorem covers_ne_tooDeep : Covers (· ≠ .tooDeep) where
  misplaced _ _ := nofun
  unsupported _ _ := nofun
  frontEnd _ := nofun
  shift offset e h := by
    cases e with
    | tooDeep => exact absurd rfl h
    | frontEnd | unsupported | misplaced | violation => exact nofun

/-- The depth that is allowed for suffices for any tree. -/
theorem tree_ne_tooDeep (o : Options) (root : Node) : tree o root ≠ .error .tooDeep := by
  have hends : Ends (· ≠ .tooDeep) (fun _ => True) (visitTree o root) := by
    refine visit_ends covers_ne_tooDeep (.inr fun _ _ => nofun) fun attrs body p hmem f => ?_
    have hweight := Node.weight_filter_le hmem
    exact atDepth_ends covers_ne_tooDeep (.inl (Nat.lt_succ_of_le hweight)) f
  intro herror
  rw [tree] at herror
  cases hvisit : visitTree o root with
  | ok v => rw [hvisit] at herror; cases herror
  | error e =>
    rw [hvisit] at herror hends
    cases herror
    exact hends rfl

/-- More depth changes nothing. -/
theorem visitRoot_eq_visitTree (o : Options) {root : Node} {depth : Nat}
    (h : enoughDepth root ≤ depth) :
    visitRoot o FrontEnd.bundled depth root = visitTree o root := by
  refine visit_congr (fun attrs body p hmem => ?_) none
  have hweight := Node.weight_filter_le hmem
  rw [enoughDepth] at h
  exact atDepth_congr (by omega) (Nat.lt_succ_of_le hweight)

/-- Captures inside captures come to an end. The text of a filter, anywhere in the tree of a
template, has fewer bytes than the template; so texts that are captured one inside the other get
shorter with every step. And any tree, from a template or not, is compiled without meeting the limit
on the depth of captures, and to the same result with any higher limit. -/
theorem captures_end (o : Options) :
    (∀ s f root, Template.parse s f = .ok root → ∀ m ∈ root.walk, ∀ text,
        m.filterText? = some text → text.utf8ByteSize < s.utf8ByteSize) ∧
      (∀ texts : List String, texts.IsChain Captures →
        texts.Pairwise fun outer inner => inner.utf8ByteSize < outer.utf8ByteSize) ∧
      ∀ root, tree o root ≠ .error .tooDeep ∧ ∀ depth, enoughDepth root ≤ depth →
        visitRoot o FrontEnd.bundled depth root = visitTree o root := by
  refine ⟨fun s f root hparse m hm text => Template.filterText_lt hparse hm, ?_, ?_⟩
  · intro texts hchain
    -- Being shorter is transitive, so what holds of neighbours holds of any two texts.
    have hshorter := hchain.imp fun _ _ h => h.utf8ByteSize_lt
    exact isChain_iff_pairwise.mp hshorter
  · intro root
    exact ⟨tree_ne_tooDeep o root, fun depth h => visitRoot_eq_visitTree o h⟩

/-- A capture in a capture behind a tag. -/
theorem captures_end_twice :
    let texts := ["p: :capture\n  :capture\n    b\n", ":capture\n  b", "b"]
    texts.IsChain Captures ∧
      texts.Pairwise fun outer inner => inner.utf8ByteSize < outer.utf8ByteSize := by
  intro texts
  have houter : Captures "p: :capture\n  :capture\n    b\n" ":capture\n  b" :=
    captures_of_any (by decide +kernel)
  have hinner : Captures ":capture\n  b" "b" := captures_of_any (by decide +kernel)
  have hchain : texts.IsChain Captures := .cons_cons houter (.cons_cons hinner (.singleton _))
  exact ⟨hchain, (captures_end {}).2.1 texts hchain⟩

end Compile

end Offside
