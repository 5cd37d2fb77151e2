import Offside.Proofs.Template.Reread

/-!
# What the compiler relies on

Two facts about the tree of a source are all that compiling needs to end without a fault of the
front end. Every statement has a code that is known. And the text of a filter is found in the
source, in order though not in one piece, behind a character that is not part of it and no line
feed; so there is less to a text that is captured inside a captured text, and captures cannot lie
inside each other without end.

`grounded_of_parse` says so of every node of the tree.
-/

set_option autoImplicit false

namespace Offside

open List

theorem Statement.decode?_encode (s : Statement) (expr : String) :
    Statement.decode? (s.encode expr) = some (s, expr) := by
  cases s with
  | condition word =>
    cases word <;> simp [decode?, all, encode, code, Text.after?, Text.afterChars?]
  | expression => simp [decode?, all, encode, code, Text.after?, Text.afterChars?]

/-- The node is as compiling wants it, in the tree of `source`. -/
def Node.Grounded (source : List Char) : Node → Prop
  | .lead (.code coded _ _) _ _ => (Statement.decode? coded).isSome = true
  | .frame (.filter _ _) body _ =>
    ∃ c, c ≠ '\n' ∧ c :: (Compile.linesOf body.nodes).toList <+ source
  | _ => True

/-- A line feed in front of the source makes no difference. -/
theorem Node.Grounded.of_cons_newline {source : List Char} {n : Node}
    (h : n.Grounded ('\n' :: source)) : n.Grounded source := by
  cases n with
  | frame frame body p =>
    cases frame with
    | filter name attrs =>
      obtain ⟨c, hc, hsub⟩ := h
      cases hsub with
      | cons _ hsub => exact ⟨c, hc, hsub⟩
      | cons_cons _ hsub => exact absurd rfl hc
    | comment text buffer | caseOf expr => trivial
  | lead l body p => cases l <;> exact h
  | leaf l p | block body p | tag t body code p => trivial

namespace Template

/-! ## The node of a line -/

namespace Plan

/-- The statement that the plan makes, if any, has a known code. -/
def CodesKnown : Plan → Prop
  | .lead (.code coded _ _) _ => (Statement.decode? coded).isSome = true
  | .expansion _ child => child.CodesKnown
  | _ => True

theorem codesKnown_of_ofContent {content : List Char} {plan : Plan}
    (h : ofContent content = .ok plan) : plan.CodesKnown := by
  fun_induction ofContent content generalizing plan with
  | case4 | case6 => cases h; simp [CodesKnown, Statement.decode?_encode]
  | case17 content name rest =>
    cases hattrs : filterAttrs name rest.toList with
    | error fault => rw [hattrs] at h; cases h
    | ok attrs => rw [hattrs] at h; cases h; trivial
  | case23 content hkind head hread child htail _ ih =>
    cases hchild : ofContent child.toList with
    | error fault => rw [hchild] at h; cases h
    | ok plan' =>
      rw [hchild] at h
      cases h
      exact (ih hchild : plan'.CodesKnown)
  | _ => cases h; try trivial

variable {source : List Char} {place : Place} {below : Below}

theorem grounded_lead {l : Lead} {always : Bool} {body : Option Block}
    (hcodes : (Plan.lead l always).CodesKnown) : (Node.lead l body place).Grounded source := by
  cases l with
  | code coded buffer escape => exact hcodes
  | each header key | when expr | mixin name args call => trivial

/-- All nodes of a line are grounded if those below it are, as far as they are read, and the text
below it would make a filter that is. -/
theorem grounded_build {plan : Plan} {node : Node} (h : plan.Builds place below node)
    (hcodes : plan.CodesKnown)
    (hverbatim : ∃ c, c ≠ '\n' ∧
      c :: (Compile.linesOf (verbatim place.filename below.lines)).toList <+ source)
    (hbelow : ∀ nodes, below.nodes = .ok nodes → ∀ n ∈ nodes, ∀ m ∈ n.walk, m.Grounded source) :
    ∀ m ∈ node.walk, m.Grounded source := by
  refine h.forall_mem_walk hcodes (fun t child h => h) ?node (fun _ _ _ _ _ => trivial) ?code
    ?verbatim hbelow
  case node =>
    intro plan node h hcodes
    cases h with
    | noLead | lead => exact grounded_lead hcodes
    | filter => exact hverbatim
    | bare | doctype | comment | remark | caseOf | block | rawTag | tag | expansion => trivial
  case code =>
    intro t text expr escape raw _
    simp [Node.Grounded, Statement.decode?_encode]
  case verbatim =>
    intro n hn
    obtain ⟨l, -, rfl⟩ := mem_map.mp hn
    trivial

end Plan

/-! ## All lines -/

/-- The raw texts of lines, each behind a line feed. -/
def rawChars (lines : List Line) : List Char :=
  lines.flatMap fun l => '\n' :: l.raw.toList

theorem rawChars_append (xs ys : List Line) : rawChars (xs ++ ys) = rawChars xs ++ rawChars ys :=
  flatMap_append

/-- The lines of a source are found in it, one after the other. -/
theorem rawChars_ofSource (source : String) :
    rawChars (Line.ofSource source) <+ '\n' :: source.toList := by
  -- Cutting into lines loses line feeds at the end at most, and reading a line the white space at
  -- its end.
  have hraw (n : Nat) (texts : List (List Char)) :
      rawChars (Line.numberFrom n texts) <+ texts.flatMap ('\n' :: ·) := by
    induction texts generalizing n with
    | nil => exact .slnil
    | cons s rest ih =>
      have htrim : Text.trimEnd s <+ s := (Text.trimEnd_isPrefix s).sublist
      simpa [rawChars, Line.numberFrom, Line.ofText] using htrim.append (ih (n + 1))
  have hsegments (s : List Char) : (Line.segments s).flatMap ('\n' :: ·) <+ '\n' :: s := by
    induction s with
    | nil => simp
    | cons c s ih =>
      by_cases hc : c = '\n'
      · subst hc
        simpa using ih
      · rw [Line.segments_cons_of_ne hc]
        cases hseg : Line.segments s with
        | nil => simp
        | cons y more => simpa [hseg] using ih
  exact (hraw 1 _).trans (hsegments _)

theorem verbatimText_sublist (base : Nat) (l : Line) :
    (verbatimText base l).toList <+ l.raw.toList := by
  unfold verbatimText
  split
  · simp
  · rw [String.toList_ofList]
    exact drop_sublist base l.raw.toList

/-- Joining texts puts a separator in front of all of them but the first. -/
theorem flatMap_cons_eq (sep : Char) (t : List Char) (rest : List (List Char)) :
    (t :: rest).flatMap (sep :: ·) = sep :: [sep].intercalate (t :: rest) := by
  induction rest generalizing t with
  | nil => simp
  | cons u rest ih => rw [flatMap_cons, ih, intercalate_cons_cons]; simp

/-- The text of a verbatim body is found in its lines. -/
theorem linesOf_verbatim_sublist (f : Option String) (lines : List Line) :
    (Compile.linesOf (verbatim f lines)).toList <+ rawChars lines := by
  have hraw (base : Nat) (body : List Line) :
      (body.map fun l => (verbatimText base l).toList).flatMap ('\n' :: ·) <+ rawChars body := by
    induction body with
    | nil => exact .slnil
    | cons l rest ih =>
      simpa [rawChars] using (verbatimText_sublist base l).append ih
  obtain ⟨z, hz⟩ := dropBlankEnd_isPrefix lines
  rw [toList_linesOf_verbatim]
  -- The first line of the body has a line feed in front of it in the source, but not in its text.
  cases hbody : dropBlankEnd lines with
  | nil => simp
  | cons l rest =>
    rw [← hz, rawChars_append, hbody]
    refine Sublist.trans ?_ ((hraw (commonIndent (l :: rest)) (l :: rest)).trans
      (sublist_append_left _ _))
    rw [map_cons, flatMap_cons_eq]
    exact sublist_cons_self _ _

/-- The text below a line is found in the source behind a character of the line itself. -/
theorem exists_char_of_line {n : Nat} {l : Line} {rest body : List Line}
    (hlines : Line.Consecutive n (l :: rest)) (hb : l.isBlank = false) (hbody : body <+: rest)
    (f : Option String) :
    ∃ c, c ≠ '\n' ∧ c :: (Compile.linesOf (verbatim f body)).toList <+ rawChars (l :: rest) := by
  obtain ⟨⟨s, hs, rfl⟩, -⟩ := hlines
  obtain ⟨z, rfl⟩ := hbody
  have hraw := Line.raw_ofText hb
  -- The line is not blank, so its content has a first character, which stands in front of its body.
  cases hcontent : (Line.ofText n s).content.toList with
  | nil => exact absurd hcontent (by simpa [Line.isBlank] using hb)
  | cons c more =>
    refine ⟨c, ?_, ?_⟩
    · rintro rfl
      have hmem : '\n' ∈ (Line.ofText n s).raw.toList := by
        rw [hraw, hcontent]
        simp
      exact hs ((Text.trimEnd_isPrefix s).mem (by simpa [Line.ofText] using hmem))
    · have hc : [c] <+ '\n' :: (Line.ofText n s).raw.toList := by
        rw [hraw, hcontent, singleton_sublist]
        simp
      have hrest : (Compile.linesOf (verbatim f body)).toList <+ rawChars (body ++ z) := by
        rw [rawChars_append]
        exact (linesOf_verbatim_sublist f body).trans (sublist_append_left _ _)
      exact hc.append hrest

theorem siblings_grounded {f : Option String} {level n : Nat} {lines : List Line}
    {source : List Char} {nodes : List Node} (hlines : Line.Consecutive n lines)
    (hsource : rawChars lines <+ source) (h : siblings f level lines = .ok nodes) :
    ∀ k ∈ nodes, ∀ m ∈ k.walk, m.Grounded source := by
  -- What is left of the lines is found in the source throughout.
  induction level, lines using siblings_induct generalizing n nodes with
  | nil level =>
    rw [siblings_nil] at h
    cases h
    simp
  | blank level l rest hb ih =>
    rw [siblings_blank hb] at h
    exact ih hlines.2 ((sublist_append_right _ _).trans hsource) h
  | dedent level l rest hb hlt => rw [siblings_dedent hb hlt] at h; cases h
  | unexpected level l rest hb hlt => rw [siblings_unexpected hb hlt] at h; cases h
  | line level l rest hb heq ihbody ihafter =>
    obtain ⟨node, others, hnode, hothers, rfl⟩ := exists_of_siblings_line hb heq h
    have hsplit := takeWhile_append_dropWhile (p := Line.isBelow level) (l := rest)
    have hrest : rawChars rest <+ source := (sublist_append_right _ _).trans hsource
    rw [← hsplit, rawChars_append] at hrest
    obtain ⟨hbody, hafter⟩ := Line.consecutive_append.mp (hsplit ▸ hlines.2)
    intro k hk
    rcases mem_cons.mp hk with rfl | hk
    · obtain ⟨plan, hplan, hbuilds⟩ := builds_of_readLine hnode
      refine Plan.grounded_build hbuilds (Plan.codesKnown_of_ofContent hplan) ?_ ?_
      · have hbelow := takeWhile_prefix (l := rest) (Line.isBelow level)
        obtain ⟨c, hc, hsub⟩ := exists_char_of_line hlines hb hbelow f
        exact ⟨c, hc, hsub.trans hsource⟩
      · intro nodes hnodes
        exact ihbody hbody ((sublist_append_left _ _).trans hrest) hnodes
    · exact ihafter hafter ((sublist_append_right _ _).trans hrest) hothers k hk

theorem grounded_of_nodesOf {source : String} {f : Option String} {nodes : List Node}
    (h : nodesOf f (Line.ofSource source) = .ok nodes) :
    ∀ k ∈ nodes, ∀ m ∈ k.walk, m.Grounded source.toList := fun k hk m hm =>
  (siblings_grounded (Line.consecutive_ofSource source) (rawChars_ofSource source) h k hk m
    hm).of_cons_newline

/-- All nodes of the tree of a source are as compiling wants them. -/
theorem grounded_of_parse {source : String} {f : Option String} {root : Node}
    (h : parse source f = .ok root) : ∀ m ∈ root.walk, m.Grounded source.toList := by
  obtain ⟨nodes, hnodes, rfl⟩ := exists_of_map_eq_ok h
  exact Node.forall_mem_walk.mpr ⟨trivial, grounded_of_nodesOf hnodes, by simp [Node.code?]⟩

end Template

end Offside
