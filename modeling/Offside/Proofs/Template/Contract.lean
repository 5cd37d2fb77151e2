import Offside.Proofs.Line.Taken
import Offside.Proofs.Template.Grounded

/-!
# What a front end promises

The compiler takes apart what the front end has put together: the code of a statement and its
expression, the code on the line of a tag, the lines of a verbatim body. What it needs for that is
written down in `Node.Conforms`, and every node of a tree that comes from a source is like that, at
any depth (`conforms_of_parse`).

The argument is about single lines. A line has no line feed in it and does not end in white space;
what its plan takes from it is the end of the line or trimmed, and an expansion is a line again.
-/

set_option autoImplicit false

namespace Offside

open List

/-- The text is one that a line can hold: there is no line feed in it, and no white space at its
end. -/
def Text.OneLine (t : String) : Prop :=
  '\n' ∉ t.toList ∧ Text.Tidy t.toList

/-- The code of the statement is known, its expression is trimmed, and an `else` has none. -/
def Statement.WellCoded (coded : String) : Prop :=
  ∃ s expr, decode? coded = some (s, expr) ∧ Text.trim expr.toList = expr.toList ∧
    (s = .condition .otherwise → expr = "")

/-- The node is as the compiler may expect it from a front end. -/
def Node.Conforms : Node → Prop
  | .leaf (.text t) _ => Text.OneLine t
  | .lead (.code coded _ _) _ _ => Statement.WellCoded coded
  | .frame (.filter _ _) body _ | .frame (.comment _ _) body _ =>
    ∀ n ∈ body.nodes, n.text?.isSome = true
  | .tag _ _ (some code) _ =>
    ∃ coded escape p expr, code = .lead (.code coded true escape) none p ∧
      Statement.decode? coded = some (.expression, expr)
  | _ => True

theorem Statement.wellCoded_encode {s : Statement} {expr : String}
    (htrim : Text.trim expr.toList = expr.toList) (helse : s = .condition .otherwise → expr = "") :
    WellCoded (s.encode expr) :=
  ⟨s, expr, decode?_encode s expr, htrim, helse⟩

theorem Statement.wellCoded_expression {expr : String}
    (htrim : Text.trim expr.toList = expr.toList) :
    WellCoded (Statement.expression.encode expr) := by
  refine wellCoded_encode htrim fun helse => ?_
  cases helse

namespace Template

/-! ## Plans -/

namespace Plan

/-- The texts and expressions in the plan are as the nodes made from them have to be. -/
def Conforms : Plan → Prop
  | .bare _ (.text t) => Text.OneLine t
  | .lead (.code coded _ _) _ => Statement.WellCoded coded
  | .tag _ text code _ =>
    (∀ t, text = some t → Text.OneLine t) ∧
      ∀ c, code = some c → Text.trim c.1.toList = c.1.toList
  | .expansion _ child => child.Conforms
  | _ => True

/-- The plan of a line conforms. -/
theorem conforms_of_ofContent {content : List Char} {plan : Plan} (hline : '\n' ∉ content)
    (htidy : Text.Tidy content) (h : ofContent content = .ok plan) : plan.Conforms := by
  have htaken := LineKind.ofContent_taken content
  -- A text is the end of its line, so it has no line feed and no white space at its end either. An
  -- expression has been trimmed. The rest of the cases hold neither.
  fun_induction ofContent content generalizing plan with
  | case2 content text hkind =>
    cases h
    rw [hkind] at htaken
    exact ⟨fun hmem => hline (htaken.subset hmem), htidy.suffix htaken⟩
  | case4 content expr buffer escape hkind =>
    cases h
    rw [hkind] at htaken
    exact Statement.wellCoded_expression htaken
  | case6 content word expr hkind hcond =>
    cases h
    rw [hkind] at htaken
    refine Statement.wellCoded_encode htaken fun hword => ?_
    by_contra hne
    exact hcond ⟨by simpa using hword, hne⟩
  | case17 content name rest =>
    obtain ⟨attrs, -, rfl⟩ := exists_of_map_eq_ok h
    trivial
  | case19 content hkind head hread htail | case20 content hkind head hread htail =>
    cases h
    exact ⟨by simp, by simp⟩
  | case21 content hkind head hread text htail =>
    cases h
    have htext := TagHead.tail_taken hread
    rw [htail] at htext
    refine ⟨fun t ht => ?_, by simp⟩
    obtain rfl := Option.some.inj ht
    exact ⟨fun hmem => hline (htext.subset hmem), htidy.suffix htext⟩
  | case22 content hkind head hread expr escape htail =>
    cases h
    have hexpr := TagHead.tail_taken hread
    rw [htail] at hexpr
    obtain ⟨rest, -, rfl⟩ := hexpr
    refine ⟨by simp, fun c hc => ?_⟩
    obtain rfl := Option.some.inj hc
    exact LineKind.trim_trimmed rest
  | case23 content hkind head hread child htail _ ih =>
    obtain ⟨plan', hplan', rfl⟩ := exists_of_map_eq_ok h
    have hchild := TagHead.tail_taken hread
    rw [htail] at hchild
    obtain ⟨rest, hrest, rfl⟩ := hchild
    rw [Text.trimmed, String.toList_ofList] at ih hplan'
    show plan'.Conforms
    refine ih (fun hmem => hline ?_) (Text.tidy_trim rest) hplan' (LineKind.ofContent_taken _)
    exact hrest.subset (Text.trim_subset rest hmem)
  | case5 | case18 => cases h
  | _ => cases h; trivial

/-! ## Nodes -/

variable {place : Place} {below : Below}

/-- A tag has the code that its plan says. -/
theorem conforms_tag (t : Tag) (body : Block) (code : Option (String × Bool)) :
    (Node.tag t body (inlineCode place code) place).Conforms := by
  cases code with
  | none => trivial
  | some c => exact ⟨_, c.2, place, c.1, rfl, Statement.decode?_encode _ _⟩

theorem conforms_lead {l : Lead} {always : Bool} {body : Option Block}
    (h : (Plan.lead l always).Conforms) : (Node.lead l body place).Conforms := by
  cases l with
  | code coded buffer escape => exact h
  | each header key | when expr | mixin name args call => trivial

theorem conforms_leaf {what : BareLine} {leaf : Leaf} (h : (Plan.bare what leaf).Conforms) :
    (Node.leaf leaf place).Conforms := by
  cases leaf with
  | text t => exact h
  | comment value buffer | literal expr buffer escape | yield name args | mixinBlock
  | doctype t =>
    trivial

theorem text?_verbatim {f : Option String} {lines : List Line} {n : Node}
    (hn : n ∈ verbatim f lines) : n.text?.isSome = true := by
  obtain ⟨l, -, rfl⟩ := mem_map.mp hn
  rfl

/-- All nodes of a line conform if the plan of the line does, and all nodes below it, read as
template lines or as text. -/
theorem conforms_build {plan : Plan} {node : Node} (h : plan.Builds place below node)
    (hplan : plan.Conforms)
    (hverbatim : ∀ n ∈ verbatim place.filename below.lines, n.Conforms)
    (hbelow : ∀ nodes, below.nodes = .ok nodes → ∀ n ∈ nodes, ∀ m ∈ n.walk, m.Conforms) :
    ∀ m ∈ node.walk, m.Conforms := by
  refine h.forall_mem_walk hplan (fun t child h => h) ?node ?text ?code hverbatim hbelow
  case node =>
    intro plan node h hplan
    cases h with
    | bare => exact conforms_leaf hplan
    | noLead | lead => exact conforms_lead hplan
    | remark | filter => exact fun n hn => text?_verbatim hn
    | rawTag | tag => exact conforms_tag _ _ _
    | doctype | comment | caseOf | block | expansion => trivial
  case text =>
    intro t s code raw hplan
    exact hplan.1 s rfl
  case code =>
    intro t text expr escape raw hplan
    have htrim : Text.trim expr.toList = expr.toList := hplan.2 (expr, escape) rfl
    exact Statement.wellCoded_expression htrim

end Plan

/-! ## All lines -/

theorem oneLine_verbatimText {n base : Nat} {s : List Char} (hs : '\n' ∉ s) :
    Text.OneLine (verbatimText base (.ofText n s)) := by
  refine ⟨not_mem_verbatimText hs, ?_⟩
  unfold verbatimText
  split
  · exact nofun
  · have htidy : Text.Tidy (Line.ofText n s).raw.toList := by
      rw [Line.ofText, String.toList_ofList]
      exact Text.tidy_trimEnd s
    rw [String.toList_ofList]
    exact htidy.suffix (drop_suffix base _)

theorem conforms_verbatim {f : Option String} {n : Nat} {lines : List Line}
    (hlines : Line.Consecutive n lines) :
    ∀ k ∈ verbatim f lines, k.Conforms := by
  intro k hk
  obtain ⟨l, hl, rfl⟩ := mem_map.mp hk
  obtain ⟨number, s, hs, rfl⟩ := hlines.exists_text ((dropBlankEnd_isPrefix lines).subset hl)
  exact oneLine_verbatimText hs

theorem siblings_conform {f : Option String} {level n : Nat} {lines : List Line} {nodes : List Node}
    (hlines : Line.Consecutive n lines) (h : siblings f level lines = .ok nodes) :
    ∀ k ∈ nodes, ∀ m ∈ k.walk, m.Conforms := by
  induction level, lines using siblings_induct generalizing n nodes with
  | nil level =>
    rw [siblings_nil] at h
    cases h
    simp
  | blank level l rest hb ih =>
    rw [siblings_blank hb] at h
    exact ih hlines.2 h
  | dedent level l rest hb hlt => rw [siblings_dedent hb hlt] at h; cases h
  | unexpected level l rest hb hlt => rw [siblings_unexpected hb hlt] at h; cases h
  | line level l rest hb heq ihbody ihafter =>
    obtain ⟨node, others, hnode, hothers, rfl⟩ := exists_of_siblings_line hb heq h
    obtain ⟨⟨s, hs, rfl⟩, hrest⟩ := hlines
    rw [← takeWhile_append_dropWhile (p := Line.isBelow level) (l := rest)] at hrest
    obtain ⟨hbody, hafter⟩ := Line.consecutive_append.mp hrest
    intro k hk
    rcases mem_cons.mp hk with rfl | hk
    · obtain ⟨plan, hplan, hbuilds⟩ := builds_of_readLine hnode
      rw [Line.ofText, String.toList_ofList] at hplan
      -- The content of a line is part of its text, and that is free of line feeds.
      have hline : '\n' ∉ Text.trimEnd (s.dropWhile Text.isIndent) := fun hmem =>
        hs ((dropWhile_suffix _).subset ((Text.trimEnd_isPrefix _).subset hmem))
      exact Plan.conforms_build hbuilds
        (Plan.conforms_of_ofContent hline (Text.tidy_trimEnd _) hplan)
        (conforms_verbatim hbody) fun nodes hnodes => ihbody hbody hnodes
    · exact ihafter hafter hothers k hk

/-- Every node of a tree that comes from a source is as the compiler may expect it. -/
theorem conforms_of_parse {source : String} {f : Option String} {root : Node}
    (h : parse source f = .ok root) : ∀ m ∈ root.walk, m.Conforms := by
  obtain ⟨nodes, hnodes, rfl⟩ := exists_of_map_eq_ok h
  exact Node.forall_mem_walk.mpr
    ⟨trivial, siblings_conform (Line.consecutive_ofSource source) hnodes, by simp [Node.code?]⟩

end Template

end Offside
