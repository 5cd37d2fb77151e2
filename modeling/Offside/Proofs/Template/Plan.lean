import Offside.Proofs.Template.Tree
import Offside.Template.Parse

/-!
# What a line asks for

Reading a line has two halves. Its content alone decides what kind of node it is and what becomes of
the lines below it; that is its plan. Only then do the place of the line and the lines below it come
in. `readLine_eq_build` says that reading is exactly this, so that every fact about a line is a case
analysis of its plan, and the words and brackets of the line need not be looked at again.

A plan is a chain: a tag whose tail is another line has the plan of that line inside.
-/

set_option autoImplicit false

namespace Offside.Template

/-- What the content of a line asks for. -/
inductive Plan where
  /-- A node that nothing may be nested below. -/
  | bare (what : BareLine) (leaf : Leaf)
  /-- A document type, which drops the lines below it. -/
  | doctype (text : Option String)
  | comment (text : String) (buffer : Bool)
  /-- A lead; `always` says that it has a block even if that is empty. -/
  | lead (lead : Lead) (always : Bool)
  | caseOf (expr : String)
  | block (label : BlockLabel)
  | filter (name : String) (attrs : List Attr)
  /-- A tag with the text or the code on its line; `raw` says that it takes the lines below it
  verbatim. -/
  | tag (tag : Tag) (text : Option String) (code : Option (String × Bool)) (raw : Bool)
  /-- A tag whose only child is the rest of its line. -/
  | expansion (tag : Tag) (child : Plan)
deriving DecidableEq, Repr

namespace Plan

/-- The node that the text on a tag's line becomes. -/
def inlineText (place : Place) (text : Option String) : List Node :=
  text.toList.map fun s => .leaf (.text s) place

/-- The node that the code on a tag's line becomes. -/
def inlineCode (place : Place) (code : Option (String × Bool)) : Option Node :=
  code.map fun c => .lead (.code (Statement.expression.encode c.1) true c.2) none place

/-- The node of a line with this plan. -/
def build (place : Place) (below : Below) : Plan → Except ParseError Node
  | .bare what leaf => Template.bare place below what leaf
  | .doctype text => .ok (.leaf (.doctype text) place)
  | .comment text buffer =>
    if below.isEmpty then .ok (.leaf (.comment text buffer) place)
    else .ok (.frame (.comment text buffer) (.plain (verbatim place.filename below.lines)) place)
  | .lead l always =>
    (if always then below.block.map some else below.block?).map fun body => .lead l body place
  | .caseOf expr => below.block.map fun body => .frame (.caseOf expr) body place
  | .block label => below.nodes.map fun nodes => .block (.mk nodes label) place
  | .filter name attrs =>
    .ok (.frame (.filter name attrs) (.plain (verbatim place.filename below.lines)) place)
  | .tag t text code raw =>
    (if raw then .ok (verbatim place.filename below.lines) else below.nodes).map fun nodes =>
      .tag t (.plain (inlineText place text ++ nodes)) (inlineCode place code) place
  | .expansion t child => (child.build place below).map fun n => .tag t (.plain [n]) none place

/-- What the lines below a line with this plan become is not read as template lines. -/
def swallows : Plan → Bool
  | .doctype _ | .comment _ _ | .filter _ _ => true
  | .tag _ _ _ raw => raw
  | .expansion _ child => child.swallows
  | .bare _ _ | .lead _ _ | .caseOf _ | .block _ => false

/-- The plan of a line. -/
def ofContent (content : List Char) : Except ParseFault Plan :=
  match LineKind.ofContent content with
  | .comment text buffer => .ok (.comment text buffer)
  | .text text => .ok (.bare .pipedText (.text text))
  | .literal markup => .ok (.bare .literalMarkup (.literal (Json.quote markup) true false))
  | .code expr buffer escape =>
    .ok (.lead (.code (Statement.expression.encode expr) buffer escape) false)
  | .condition word expr =>
    if word = .otherwise ∧ expr ≠ "" then .error .elseWithCondition
    else .ok (.lead (.code ((Statement.condition word).encode expr) false false) true)
  | .each header => .ok (.lead (.each header "$index") false)
  | .caseOf expr => .ok (.caseOf expr)
  | .when expr => .ok (.lead (.when expr) false)
  | .whenDefault => .ok (.lead (.when "default") false)
  | .block none _ => .ok (.bare .mixinBlock .mixinBlock)
  | .block (some name) args => .ok (.block ⟨some name, args, false⟩)
  | .subBlock name args => .ok (.block ⟨some name, args, true⟩)
  | .yield name args => .ok (.bare .yield (.yield name args))
  | .mixin name args call => .ok (.lead (.mixin name args call) false)
  | .doctype text => .ok (.doctype text)
  | .filter name rest => (filterAttrs name rest.toList).map fun attrs => .filter name attrs
  | .tag =>
    match hread : TagHead.read content with
    | .error fault => .error (.tag fault)
    | .ok head =>
      match htail : head.tail with
      | .none => .ok (.tag head.toTag none none (Tag.isStatement head.name))
      | .textBlock => .ok (.tag head.toTag none none true)
      | .text text => .ok (.tag head.toTag (some text) none (Tag.isStatement head.name))
      | .code expr escape => .ok (.tag head.toTag none (some (expr, escape)) false)
      | .expansion child =>
        have := TagHead.length_expansion hread htail
        (ofContent child.toList).map fun plan => .expansion head.toTag plan
termination_by content.length

end Plan

/-! ## Reading is planning and building -/

theorem readLine_of_tagFault (place : Place) (below : Below) {content : List Char}
    {fault : TagFault}
    (hkind : LineKind.ofContent content = .tag) (hread : TagHead.read content = .error fault) :
    readLine place below content = .error ⟨place, .tag fault⟩ := by
  rw [readLine.eq_def]
  simp only [hkind]
  split
  · rename_i fault' h
    rw [hread] at h
    rw [Except.error.inj h]
  · rename_i head' h
    rw [hread] at h
    cases h

/-- A tag line, with the cases of its tail in the open. -/
theorem readLine_of_tag (place : Place) (below : Below) {content : List Char} {head : TagHead}
    (hkind : LineKind.ofContent content = .tag) (hread : TagHead.read content = .ok head) :
    readLine place below content =
      match head.tail with
      | .none => (Plan.tag head.toTag none none (Tag.isStatement head.name)).build place below
      | .textBlock => (Plan.tag head.toTag none none true).build place below
      | .text text =>
        (Plan.tag head.toTag (some text) none (Tag.isStatement head.name)).build place below
      | .code expr escape =>
        (Plan.tag head.toTag none (some (expr, escape)) false).build place below
      | .expansion child =>
        (readLine place below child.toList).map fun n =>
          .tag head.toTag (.plain [n]) none place := by
  rw [readLine.eq_def]
  simp only [hkind]
  split
  · rename_i fault h
    rw [hread] at h
    cases h
  · rename_i head' h
    obtain rfl : head = head' := Except.ok.inj (hread.symm.trans h)
    split <;> rename_i htail <;> simp only [htail] <;> rfl

/-- A line is read by making a plan from its content and carrying it out. -/
theorem readLine_eq_build (place : Place) (below : Below) (content : List Char) :
    readLine place below content =
      match Plan.ofContent content with
      | .error fault => .error ⟨place, fault⟩
      | .ok plan => plan.build place below := by
  -- Every kind of line is its own case. Only the conditions, the filters and the tags can fail by
  -- themselves, and only an expansion goes on to another line.
  fun_induction Plan.ofContent content with
  | case5 content word expr hkind hcond =>
    rw [readLine.eq_def]
    simp only [hkind]
    exact if_pos hcond
  | case6 content word expr hkind hcond =>
    rw [readLine.eq_def]
    simp only [hkind]
    refine (if_neg hcond).trans ?_
    cases hb : below.block <;> simp [Plan.build, hb, Except.map]
  | case17 content name rest hkind =>
    rw [readLine.eq_def]
    simp only [hkind]
    cases filterAttrs name rest.toList <;> rfl
  | case18 content hkind fault hread => exact readLine_of_tagFault place below hkind hread
  | case19 content hkind head hread htail | case20 content hkind head hread htail =>
    simp only [readLine_of_tag place below hkind hread, htail]
  | case21 content hkind head hread text htail =>
    simp only [readLine_of_tag place below hkind hread, htail]
  | case22 content hkind head hread expr escape htail =>
    simp only [readLine_of_tag place below hkind hread, htail]
  | case23 content hkind head hread child htail _ ih =>
    simp only [readLine_of_tag place below hkind hread, htail, ih]
    cases Plan.ofContent child.toList <;> rfl
  | _ =>
    rw [readLine.eq_def]
    simp [*, Plan.build]

/-! ## What can come out -/

namespace Plan

/-- The nodes that a plan can give, and what has to be below for it. -/
inductive Builds (place : Place) (below : Below) : Plan → Node → Prop
  | bare {what : BareLine} {leaf : Leaf} (h : below.isEmpty = true) :
    Builds place below (.bare what leaf) (.leaf leaf place)
  | doctype {text : Option String} :
    Builds place below (.doctype text) (.leaf (.doctype text) place)
  | comment {text : String} {buffer : Bool} (h : below.isEmpty = true) :
    Builds place below (.comment text buffer) (.leaf (.comment text buffer) place)
  | remark {text : String} {buffer : Bool} (h : below.isEmpty = false) :
    Builds place below (.comment text buffer)
      (.frame (.comment text buffer) (.plain (verbatim place.filename below.lines)) place)
  | noLead {l : Lead} (h : below.isEmpty = true) :
    Builds place below (.lead l false) (.lead l none place)
  | lead {l : Lead} {always : Bool} {nodes : List Node} (h : below.nodes = .ok nodes) :
    Builds place below (.lead l always) (.lead l (some (.plain nodes)) place)
  | caseOf {expr : String} {nodes : List Node} (h : below.nodes = .ok nodes) :
    Builds place below (.caseOf expr) (.frame (.caseOf expr) (.plain nodes) place)
  | block {label : BlockLabel} {nodes : List Node} (h : below.nodes = .ok nodes) :
    Builds place below (.block label) (.block (.mk nodes label) place)
  | filter {name : String} {attrs : List Attr} :
    Builds place below (.filter name attrs)
      (.frame (.filter name attrs) (.plain (verbatim place.filename below.lines)) place)
  | rawTag {t : Tag} {text : Option String} {code : Option (String × Bool)} :
    Builds place below (.tag t text code true)
      (.tag t (.plain (inlineText place text ++ verbatim place.filename below.lines))
        (inlineCode place code) place)
  | tag {t : Tag} {text : Option String} {code : Option (String × Bool)} {nodes : List Node}
      (h : below.nodes = .ok nodes) :
    Builds place below (.tag t text code false)
      (.tag t (.plain (inlineText place text ++ nodes)) (inlineCode place code) place)
  | expansion {t : Tag} {child : Plan} {n : Node} (h : Builds place below child n) :
    Builds place below (.expansion t child) (.tag t (.plain [n]) none place)

theorem builds_of_build {place : Place} {below : Below} {plan : Plan} {node : Node}
    (h : plan.build place below = .ok node) : Builds place below plan node := by
  induction plan generalizing node with
  | bare what leaf =>
    unfold build Template.bare at h
    split at h <;> cases h
    exact .bare ‹_›
  | doctype text => cases h; exact .doctype
  | comment text buffer =>
    unfold build at h
    split at h <;> cases h
    · exact .comment ‹_›
    · exact .remark (Bool.eq_false_iff.mpr ‹_›)
  | lead l always =>
    unfold build Below.block? Below.block at h
    cases hnodes : below.nodes with
    | error e =>
      simp only [hnodes] at h
      cases always with
      | true => cases h
      | false =>
        simp only [Bool.false_eq_true, if_false] at h
        split at h <;> cases h
        exact .noLead ‹_›
    | ok nodes =>
      simp only [hnodes] at h
      cases always with
      | true => cases h; exact .lead hnodes
      | false =>
        simp only [Bool.false_eq_true, if_false] at h
        split at h <;> cases h
        · exact .noLead ‹_›
        · exact .lead hnodes
  | caseOf expr =>
    unfold build Below.block at h
    cases hnodes : below.nodes with
    | error e => rw [hnodes] at h; cases h
    | ok nodes => rw [hnodes] at h; cases h; exact .caseOf hnodes
  | block label =>
    unfold build at h
    cases hnodes : below.nodes with
    | error e => rw [hnodes] at h; cases h
    | ok nodes => rw [hnodes] at h; cases h; exact .block hnodes
  | filter name attrs => cases h; exact .filter
  | tag t text code raw =>
    unfold build at h
    cases raw with
    | true => cases h; exact .rawTag
    | false =>
      simp only [Bool.false_eq_true, if_false] at h
      cases hnodes : below.nodes with
      | error e => rw [hnodes] at h; cases h
      | ok nodes => rw [hnodes] at h; cases h; exact .tag hnodes
  | expansion t child ih =>
    unfold build at h
    cases hchild : child.build place below with
    | error e => rw [hchild] at h; cases h
    | ok n => rw [hchild] at h; cases h; exact .expansion (ih hchild)

/-- What holds of all nodes of a line: it has to hold of a node that a plan with `Q` gives, taken by
itself, of the text and the code on the line, and of what is below the line. -/
theorem Builds.forall_mem_walk {P : Node → Prop} {Q : Plan → Prop} {place : Place} {below : Below}
    {plan : Plan} {node : Node} (h : Builds place below plan node) (hplan : Q plan)
    (hchild : ∀ t child, Q (.expansion t child) → Q child)
    (hnode : ∀ plan node, Builds place below plan node → Q plan → P node)
    (htext : ∀ t s code raw, Q (.tag t (some s) code raw) → P (.leaf (.text s) place))
    (hcode : ∀ t text expr escape raw, Q (.tag t text (some (expr, escape)) raw) →
      P (.lead (.code (Statement.expression.encode expr) true escape) none place))
    (hverbatim : ∀ n ∈ verbatim place.filename below.lines, P n)
    (hbelow : ∀ nodes, below.nodes = .ok nodes → ∀ n ∈ nodes, ∀ m ∈ n.walk, P m) :
    ∀ m ∈ node.walk, P m := by
  have hlines : ∀ n ∈ verbatim place.filename below.lines, ∀ m ∈ n.walk, P m := by
    intro n hn m hm
    obtain ⟨l, -, rfl⟩ := List.mem_map.mp hn
    obtain rfl := List.mem_singleton.mp hm
    exact hverbatim _ hn
  have hinlineText (t : Tag) (text : Option String) (code : Option (String × Bool)) (raw : Bool)
      (hplan : Q (.tag t text code raw)) : ∀ n ∈ inlineText place text, ∀ m ∈ n.walk, P m := by
    intro n hn m hm
    obtain ⟨s, hs, rfl⟩ := List.mem_map.mp hn
    obtain rfl := List.mem_singleton.mp hm
    obtain rfl := Option.mem_toList.mp hs
    exact htext t s code raw hplan
  have hinlineCode (t : Tag) (text : Option String) (code : Option (String × Bool)) (raw : Bool)
      (hplan : Q (.tag t text code raw)) :
      ∀ n, inlineCode place code = some n → ∀ m ∈ n.walk, P m := by
    intro n hn m hm
    obtain ⟨⟨expr, escape⟩, rfl, rfl⟩ := Option.map_eq_some_iff.mp hn
    obtain rfl := List.mem_singleton.mp hm
    exact hcode t text expr escape raw hplan
  have hself := hnode plan node h hplan
  induction h with
  | bare | doctype | comment | noLead =>
    exact Node.forall_mem_walk.mpr ⟨hself, by simp [Node.children], by simp [Node.code?]⟩
  | remark | filter => exact Node.forall_mem_walk.mpr ⟨hself, hlines, by simp [Node.code?]⟩
  | lead h | caseOf h | block h =>
    exact Node.forall_mem_walk.mpr ⟨hself, hbelow _ h, by simp [Node.code?]⟩
  | rawTag =>
    refine Node.forall_mem_walk.mpr ⟨hself, fun k hk => ?_, hinlineCode _ _ _ _ hplan⟩
    rcases List.mem_append.mp hk with hk | hk
    · exact hinlineText _ _ _ _ hplan k hk
    · exact hlines k hk
  | tag h =>
    refine Node.forall_mem_walk.mpr ⟨hself, fun k hk => ?_, hinlineCode _ _ _ _ hplan⟩
    rcases List.mem_append.mp hk with hk | hk
    · exact hinlineText _ _ _ _ hplan k hk
    · exact hbelow _ h k hk
  | expansion h ih =>
    refine Node.forall_mem_walk.mpr ⟨hself, fun k hk => ?_, by simp [Node.code?]⟩
    obtain rfl := List.mem_singleton.mp hk
    exact ih (hchild _ _ hplan) (hnode _ _ h (hchild _ _ hplan))

end Plan

/-- A line that is read has a plan, and its node is one that the plan gives. -/
theorem builds_of_readLine {place : Place} {below : Below} {content : List Char} {node : Node}
    (h : readLine place below content = .ok node) :
    ∃ plan, Plan.ofContent content = .ok plan ∧ plan.Builds place below node := by
  rw [readLine_eq_build] at h
  cases hplan : Plan.ofContent content with
  | error fault => rw [hplan] at h; cases h
  | ok plan => rw [hplan] at h; exact ⟨plan, rfl, Plan.builds_of_build h⟩

/-! ## Lines on a level, case by case -/

section Siblings

variable {filename : Option String} {level : Nat} {l : Line} {rest : List Line}

@[simp] theorem siblings_nil : siblings filename level [] = .ok [] := by
  rw [siblings]

theorem siblings_blank (hb : l.isBlank = true) :
    siblings filename level (l :: rest) = siblings filename level rest := by
  rw [siblings, if_pos hb]

theorem levelOf_blank (hb : l.isBlank = true) : levelOf (l :: rest) = levelOf rest := by
  simp [levelOf, hb]

theorem levelOf_line (hb : l.isBlank = false) : levelOf (l :: rest) = l.indent := by
  simp [levelOf, hb]

theorem siblings_dedent (hb : l.isBlank = false) (hlt : l.indent < level) :
    siblings filename level (l :: rest) = .error ⟨placeOf filename l, .dedent l.indent⟩ := by
  rw [siblings, if_neg (by simp [hb]), if_pos hlt]

theorem siblings_unexpected (hb : l.isBlank = false) (hlt : level < l.indent) :
    siblings filename level (l :: rest) = .error ⟨placeOf filename l, .unexpectedIndent⟩ := by
  rw [siblings, if_neg (by simp [hb]), if_neg (Nat.lt_asymm hlt), if_pos hlt]

/-- A line on its level is read with what lies below it; then the lines after those go on. -/
theorem siblings_line (hb : l.isBlank = false) (heq : l.indent = level) :
    siblings filename level (l :: rest) =
      (readLine (placeOf filename l)
          ⟨rest.takeWhile (Line.isBelow level),
            nodesOf filename (rest.takeWhile (Line.isBelow level))⟩
          l.content.toList).bind fun node =>
        (siblings filename level (rest.dropWhile (Line.isBelow level))).bind fun nodes =>
          .ok (node :: nodes) := by
  subst heq
  rw [siblings, if_neg (by simp [hb]), if_neg (Nat.lt_irrefl _), if_neg (Nat.lt_irrefl _)]
  rfl

/-- What has been read when reading a line on its level and all that follow goes well. -/
theorem exists_of_siblings_line {nodes : List Node} (hb : l.isBlank = false)
    (heq : l.indent = level) (h : siblings filename level (l :: rest) = .ok nodes) :
    ∃ node others,
      readLine (placeOf filename l)
          ⟨rest.takeWhile (Line.isBelow level),
            nodesOf filename (rest.takeWhile (Line.isBelow level))⟩
          l.content.toList = .ok node ∧
        siblings filename level (rest.dropWhile (Line.isBelow level)) = .ok others ∧
        nodes = node :: others := by
  rw [siblings_line hb heq] at h
  obtain ⟨node, hnode, h⟩ := exists_of_bind_eq_ok h
  obtain ⟨others, hothers, h⟩ := exists_of_bind_eq_ok h
  exact ⟨node, others, hnode, hothers, (Except.ok.inj h).symm⟩

/-- Induction along the reading of lines: over the lines below a line, on the level they have, and
over the lines after those. -/
theorem siblings_induct {P : Nat → List Line → Prop} (nil : ∀ level, P level [])
    (blank : ∀ level l rest, l.isBlank = true → P level rest → P level (l :: rest))
    (dedent : ∀ level l rest, l.isBlank = false → l.indent < level → P level (l :: rest))
    (unexpected : ∀ level l rest, l.isBlank = false → level < l.indent → P level (l :: rest))
    (line : ∀ level l rest, l.isBlank = false → l.indent = level →
      P (levelOf (rest.takeWhile (Line.isBelow level))) (rest.takeWhile (Line.isBelow level)) →
      P level (rest.dropWhile (Line.isBelow level)) → P level (l :: rest))
    (level : Nat) (lines : List Line) : P level lines := by
  refine siblings.induct none P nil blank ?_ ?_ ?_ level lines
  · exact fun level l rest hb hlt => dedent level l rest (Bool.eq_false_iff.mpr hb) hlt
  · exact fun level l rest hb _ hlt => unexpected level l rest (Bool.eq_false_iff.mpr hb) hlt
  · intro level l rest hb hge hle body hbody hafter
    have heq : l.indent = level := Nat.le_antisymm (Nat.le_of_not_lt hle) (Nat.le_of_not_lt hge)
    exact line level l rest (Bool.eq_false_iff.mpr hb) heq (heq ▸ hbody) (heq ▸ hafter)

end Siblings

end Offside.Template
