import Mathlib.Logic.Relation
import Offside.Proofs.Compile.Indifference
import Offside.Proofs.Compile.Kept

/-!
# What is not supported is turned down

Mixins and doctypes are parsed and not compiled. There is no node that the compiler skips on its way
through a tree, except for text and code that are read off where they stand, so a tree that is
compiled has none of them at any depth. The same is true of captured text, and of what is captured
in that: it is compiled as part of the source around it (`source_supported`).
-/

set_option autoImplicit false

namespace Offside

open List

/-- The node is neither a mixin, nor the block of one, nor a doctype. -/
def Node.Supported : Node → Prop
  | .leaf .mixinBlock _ | .leaf (.doctype _) _ | .lead (.mixin _ _ _) _ _ => False
  | _ => True

theorem Node.Inert.supported {n : Node} (h : n.Inert) : n.Supported := by
  cases n with
  | leaf l p =>
    cases l with
    | text t | comment value buffer | literal expr buffer escape | yield name args => trivial
    | mixinBlock | doctype t => exact h.elim
  | lead l body p =>
    cases l with
    | code coded buffer escape | each header key | when expr => trivial
    | mixin name args call => exact h.elim
  | frame f body p | block body p | tag t body code p => trivial

namespace Compile

variable {o : Options} {embed : Embed (Except CompileError)} {host : Option Host} {n m : Node}
  {v : Visited}

theorem supported_of_visit (h : visit o embed host n = .ok v) : n.Supported := by
  cases n with
  | leaf l p =>
    rw [visit, ofExcept_eq] at h
    cases l with
    | mixinBlock | doctype t => cases h
    | text t | comment value buffer | literal expr buffer escape | yield name args => trivial
  | lead l body p =>
    obtain ⟨shell, inner, results, hshell, -, -⟩ := visit_lead_ok h
    cases l with
    | mixin name args call => cases hshell
    | code coded buffer escape | each header key | when expr => trivial
  | frame f body p | block body p | tag t body code p => trivial

/-- A visit has gone through the whole tree. -/
theorem visit_of_mem_walk (hn : ∀ k ∈ n.walk, k.Conforms) (h : visit o embed host n = .ok v)
    (hm : m ∈ n.walk) : m.Inert ∨ ∃ host' v', visit o embed host' m = .ok v' := by
  induction n using Node.induct_held generalizing host v with
  | h n ih =>
    rw [Node.walk_eq] at hm
    rcases mem_cons.mp hm with rfl | hm
    · exact .inr ⟨host, v, h⟩
    · obtain ⟨k, hk, hm⟩ := Node.mem_walkAll.mp hm
      -- What is not visited holds nothing, so the way down ends there.
      rcases visit_held hn h hk with hinert | ⟨host', vk, hvk, -⟩
      · rw [Node.walk_eq, hinert.held_eq_nil] at hm
        exact .inl (mem_singleton.mp hm ▸ hinert)
      · refine ih k hk (fun x hx => hn x ?_) hvk hm
        rw [Node.walk_eq]
        exact mem_cons_of_mem _ (Node.mem_walkAll.mpr ⟨k, hk, hx⟩)

/-! ## Captured text -/

end Compile

/-- The text of a capture. -/
def Node.capturedText? : Node → Option String
  | .frame (.filter name _) body _ =>
    if name = "capture" then some (Compile.linesOf body.nodes) else none
  | _ => none

theorem Node.exists_capture {n : Node} {text : String} (h : n.capturedText? = some text) :
    ∃ attrs lines label p, n = .frame (.filter "capture" attrs) (.mk lines label) p ∧
      Compile.linesOf lines = text := by
  cases n with
  | frame f body p =>
    cases f with
    | filter name attrs =>
      obtain ⟨lines, label⟩ := body
      rw [capturedText?] at h
      split at h
      · rename_i hname
        exact ⟨attrs, lines, label, p, by rw [hname], Option.some.inj h⟩
      · cases h
    | comment value buffer | caseOf expr => cases h
  | leaf l p | lead l body p | block body p | tag t body code p => cases h

namespace Compile

variable {o : Options}

/-- The text `inner` is captured in the template `outer`. -/
def Embeds (outer inner : String) : Prop :=
  ∃ f root, Template.parse outer f = .ok root ∧ ∃ m ∈ root.walk, m.capturedText? = some inner

/-- Whether a text can be compiled does not depend on its name. -/
theorem exists_nested {text : String} {f : Option String} {nodes : List IR}
    (h : nested o text f = .ok nodes) (f' : Option String) :
    ∃ nodes', nested o text f' = .ok nodes' := by
  have hunplaced := nested_indifferent (rfl : { o with filename := none } = _) text f f'
  rw [h] at hunplaced
  cases hnested : nested o text f' with
  | ok nodes' => exact ⟨nodes', rfl⟩
  | error e =>
    rw [hnested] at hunplaced
    cases hunplaced

/-- What is captured in a text is compiled with it. -/
theorem exists_nested_of_embeds {outer inner : String} (hstep : Embeds outer inner)
    (h : ∀ f, ∃ nodes, nested o outer f = .ok nodes) (f : Option String) :
    ∃ nodes, nested o inner f = .ok nodes := by
  obtain ⟨f₀, root, hparse, m, hmem, htext⟩ := hstep
  obtain ⟨attrs, lines, label, p, rfl, rfl⟩ := Node.exists_capture htext
  obtain ⟨nodes, hnodes⟩ := h f₀
  rw [nested_eq, hparse] at hnodes
  obtain ⟨v, hv, -⟩ := exists_of_map_eq_ok hnodes
  -- The capture has been visited, and a visit of a capture compiles its text.
  rcases visit_of_mem_walk (Template.conforms_of_parse hparse) hv hmem with
    hinert | ⟨host, vc, hvc⟩
  · exact hinert.elim
  · rw [visit, filter, if_pos rfl, capture_eq] at hvc
    cases hembed : nested o (linesOf lines) (p.filename <|> o.filename) with
    | ok captured => exact exists_nested hembed f
    | error e =>
      rw [hembed] at hvc
      cases hvc

theorem supported_of_nested {text : String} {f : Option String} {nodes : List IR}
    (h : nested o text f = .ok nodes) :
    ∃ root, Template.parse text f = .ok root ∧ ∀ m ∈ root.walk, m.Supported := by
  rw [nested_eq] at h
  cases hparse : Template.parse text f with
  | error e =>
    rw [hparse] at h
    cases h
  | ok root =>
    rw [hparse] at h
    obtain ⟨v, hv, -⟩ := exists_of_map_eq_ok h
    refine ⟨root, rfl, fun m hm => ?_⟩
    rcases visit_of_mem_walk (Template.conforms_of_parse hparse) hv hm with
      hinert | ⟨host, vm, hvm⟩
    · exact hinert.supported
    · exact supported_of_visit hvm

/-- What is not supported is never passed over. If a source compiles, then there are no mixins and
no doctypes in its tree, nor in the tree of any text that is captured in it, directly or in other
captured text; and all of these texts have a tree. -/
theorem source_supported {s text : String} {nodes : List IR} (hok : Compile.source o s = .ok nodes)
    (htext : Relation.ReflTransGen Embeds s text) (f : Option String) :
    ∃ root, Template.parse text f = .ok root ∧ ∀ m ∈ root.walk, m.Supported := by
  -- What is captured in a text that compiles, compiles as well, and so on down to this one.
  have hcompiled : ∀ f, ∃ nodes, nested o text f = .ok nodes := by
    induction htext with
    | refl => exact exists_nested (source_eq o s ▸ hok)
    | tail _ hstep ih => exact exists_nested_of_embeds hstep ih
  obtain ⟨nodes', hnodes'⟩ := hcompiled f
  exact supported_of_nested hnodes'

/-- Captures are found by searching the tree of a source. -/
theorem embeds_of_passes {outer inner : String}
    (h : passes o outer (fun root _ =>
      root.walk.any fun m => m.capturedText? == some inner) = true) : Embeds outer inner := by
  obtain ⟨root, nodes, hparse, -, hany⟩ := exists_of_passes h
  obtain ⟨m, hm, htext⟩ := any_eq_true.mp hany
  exact ⟨o.filename, root, hparse, m, hm, by simpa using htext⟩

/-- A capture in a capture, below a branch and below a tag. -/
theorem source_supported_twice :
    let s := "if a\n  :capture(as=x)\n    p\n      :capture\n        b= y\n"
    (Compile.source {} s).isOk = true ∧ Relation.ReflTransGen Embeds s "b= y" ∧
      ∃ root, Template.parse "b= y" none = .ok root ∧ ∀ m ∈ root.walk, m.Supported := by
  intro s
  have hok : (Compile.source {} s).isOk = true := by decide +kernel
  have houter : Embeds s "p\n  :capture\n    b= y" :=
    embeds_of_passes (o := {}) (by decide +kernel)
  have hinner : Embeds "p\n  :capture\n    b= y" "b= y" :=
    embeds_of_passes (o := {}) (by decide +kernel)
  have hchain : Relation.ReflTransGen Embeds s "b= y" := .tail (.single houter) hinner
  refine ⟨hok, hchain, ?_⟩
  cases hsource : Compile.source {} s with
  | error e =>
    rw [hsource] at hok
    cases hok
  | ok nodes => exact source_supported hsource hchain none

end Compile

end Offside
