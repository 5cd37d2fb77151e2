import Mathlib.Data.List.Nodup
import Offside.Compile.Visit
import Offside.Proofs.Compile.Aggregation
import Offside.Proofs.Tag.Head
import Offside.Proofs.Template.Plan

/-!
# Names of attributes in a tree

Attributes are looked up in two ways. A capture takes the first value that a name is given; the
attributes of any other filter, and the props of a tag, keep the last. The two agree on a name that
is given once (`Attr.findRev?_eq_find?`), and the names on a tag are, because its head is refused
otherwise. The head of a filter is not: the attributes are those of its list, as they stand. Nor is
there a check that a name has characters in it, if it is written in quotation marks.

Every tag and every filter of a tree is read from a head (`Template.headed_of_parse`), so what holds
of the attributes of heads holds throughout trees. `Template.parse_names` says what that is, and
that these two are the only ways in which names go wrong.

That is about names, not about lookups. A name on a tag can be given once more by a named block in
the tag, which then takes its place in the props, and `&props` by a spread. A filter may repeat
`class` and `style`, which are allowed to come again, and then its first and its last differ. The
lookups are compared for the names where none of this happens.
-/

set_option autoImplicit false

namespace Offside

open List

open TagHead (Distinct)

/-! ## Names that are given once -/

namespace Attr

variable {attrs : List Attr} {name : String}

theorem length_filter_name_le (h : Distinct attrs) (hname : collects name = false) :
    (attrs.filter (·.name == name)).length ≤ 1 := by
  have hcount : (attrs.filter (·.name == name)).length =
      count name ((attrs.map Attr.name).filter fun n => !collects n) := by
    rw [count_filter (by simp [hname]), count_eq_countP, countP_map, countP_eq_length_filter]
    rfl
  rw [hcount]
  exact nodup_iff_count_le_one.mp h name

/-- A name that is given once is given the same first and last. -/
theorem findRev?_eq_find? (h : Distinct attrs) (hname : collects name = false) :
    attrs.findRev? (·.name == name) = attrs.find? (·.name == name) := by
  have hlength := length_filter_name_le h hname
  rw [findRev?_eq_find?_reverse, ← head?_filter, ← head?_filter, filter_reverse, head?_reverse]
  -- Both look at the attributes of that name alone, and there is one at most.
  cases hfilter : attrs.filter (·.name == name) with
  | nil => rfl
  | cons a more =>
    rw [hfilter, length_cons] at hlength
    obtain rfl : more = [] := length_eq_zero_iff.mp (by omega)
    rfl

theorem last?_map {α : Type} (f : Attr → α) :
    Ordered.last? name (attrs.map fun a => (a.name, f a)) =
      (attrs.findRev? (·.name == name)).map f := by
  rw [Ordered.last?, findRev?_eq_find?_reverse, ← map_reverse, find?_map, Option.map_map,
    findRev?_eq_find?_reverse]
  rfl

/-- The map of attributes with different names gives the values that are given first. -/
theorem get?_ofPairs_attrs (h : Distinct attrs) (hname : collects name = false) :
    Ordered.get? name (Ordered.ofPairs (attrs.map fun a => (a.name, a.value))) =
      Compile.attr? name attrs := by
  rw [Ordered.get?_ofPairs, last?_map, findRev?_eq_find? h hname]
  rfl

/-- Props give the attribute that is given first, if nothing else on the tag has its name. -/
theorem get?_gather_attrs {given : List (String × PropEntry)} {spreads : List String}
    (h : Distinct attrs) (hname : collects name = false) (hgiven : name ∉ Ordered.keys given)
    (hspreads : name = "&props" → spreads = []) :
    Ordered.get? name (Props.gather (attrs.map Props.ofAttr ++ given) spreads) =
      (attrs.find? (·.name == name)).map fun a => (Props.ofAttr a).2 := by
  have hne : name ∉ ["class", "className", "style"] := collects_eq_false_iff.mp hname
  simp only [mem_cons, not_mem_nil, or_false, not_or] at hne
  have hlast : Ordered.last? name (attrs.map Props.ofAttr ++ given) =
      Ordered.last? name (attrs.map Props.ofAttr) :=
    Ordered.last?_append_of_not_mem hgiven
  have hown : ¬(name = "&props" ∧ spreads ≠ []) := by
    rintro ⟨heq, hspread⟩
    exact hspread (hspreads heq)
  rw [Props.get?_gather, if_neg hown, if_neg (fun h => hne.1 h.1), if_neg (fun h => hne.2.2 h.1),
    Props.last?_filter hname, hlast, ← findRev?_eq_find? h hname]
  exact last?_map fun a => (Props.ofAttr a).2

/-! ## Where names come from -/

/-- The item starts with a pair of quotation marks, and so its name is empty. -/
def NamesNothing (item : List Char) : Prop :=
  ∃ q more, (q = '\x22' ∨ q = '\x27') ∧ item = q :: q :: more

theorem splitName_eq_nil_iff {item name rest : List Char} (h : splitName item = .ok (name, rest)) :
    name = [] ↔ NamesNothing item := by
  unfold splitName at h
  split at h
  · cases h
  -- A name that starts with a quotation mark goes on to the next one and may be empty. Any other
  -- name is refused if it is.
  rename_i q more
  split at h
  · rename_i hq
    rw [Bool.or_eq_true, beq_iff_eq, beq_iff_eq] at hq
    split at h
    · cases h
    rename_i hdrop
    cases h
    constructor
    · intro hname
      cases more with
      | nil => cases hdrop
      | cons c more =>
        have hc : c = q := by simpa using hname
        exact ⟨q, more, hq, by rw [hc]⟩
    · rintro ⟨q', more', -, hitem⟩
      obtain ⟨rfl, rfl⟩ := cons.inj hitem
      simp
  · rename_i hq
    split at h
    · cases h
    rename_i hne _
    cases h
    constructor
    · intro hname
      exact (hne hname).elim
    · rintro ⟨q', more', hq', hitem⟩
      obtain ⟨rfl, rfl⟩ := cons.inj hitem
      exact absurd (by simpa using hq') hq

theorem name_of_withValue {n : String} {value : List Char} {escaped : Bool} {a : Attr}
    (h : withValue n value escaped = .ok a) : a.name = n := by
  unfold withValue at h
  split at h
  · cases h
  · cases h
    rfl

/-- Only a pair of quotation marks gives an empty name. -/
theorem name_eq_empty_iff {item : List Char} {a : Attr} (h : readItem item = .ok a) :
    a.name = "" ↔ NamesNothing item := by
  obtain ⟨⟨n, rest⟩, hsplit, h⟩ := exists_of_bind_eq_ok h
  have hname : a.name = String.ofList n := by
    dsimp only at h
    split at h
    · cases h
      rfl
    · exact name_of_withValue h
    · exact name_of_withValue h
    · cases h
  rw [hname, ← splitName_eq_nil_iff hsplit]
  exact String.ofList_eq_empty_iff

/-- The attribute is written on a line: as a shorthand, or as an item of a list. -/
inductive Given : Attr → Prop
  | shorthand (sign : Char) (value : List Char) : Given (TagHead.shorthand sign value)
  | item {text : List Char} {a : Attr} (h : readItem text = .ok a) : Given a

theorem Given.name_eq_empty_iff {a : Attr} (h : Given a) :
    a.name = "" ↔ ∃ text, NamesNothing text ∧ readItem text = .ok a := by
  constructor
  · intro hname
    cases h with
    | shorthand sign value =>
      have hname : (if sign == '.' then "class" else "id") = "" := hname
      split at hname
      · exact absurd hname (by decide)
      · exact absurd hname (by decide)
    | item hitem => exact ⟨_, (Attr.name_eq_empty_iff hitem).mp hname, hitem⟩
  · rintro ⟨text, htext, hitem⟩
    exact (Attr.name_eq_empty_iff hitem).mpr htext

theorem exists_of_mapM_readItem {items : List (List Char)}
    (h : items.mapM readItem = .ok attrs) : ∀ a ∈ attrs, ∃ item ∈ items, readItem item = .ok a := by
  induction items generalizing attrs with
  | nil =>
    cases h
    simp
  | cons item items ih =>
    rw [mapM_cons] at h
    obtain ⟨a, ha, h⟩ := exists_of_bind_eq_ok h
    obtain ⟨rest, hrest, h⟩ := exists_of_bind_eq_ok h
    cases h
    intro b hb
    rcases mem_cons.mp hb with rfl | hb
    · exact ⟨item, mem_cons_self, ha⟩
    · obtain ⟨item', hmem, hitem'⟩ := ih hrest b hb
      exact ⟨item', mem_cons_of_mem _ hmem, hitem'⟩

theorem given_of_readList {s after : List Char} (h : readList s = .ok (attrs, after)) :
    ∀ a ∈ attrs, Given a := by
  obtain ⟨inner, c, -, -, -, hitems⟩ := readList_eq_ok_iff.mp h
  intro a ha
  obtain ⟨item, -, hitem⟩ := exists_of_mapM_readItem hitems a ha
  exact .item hitem

end Attr

/-! ## Heads -/

namespace TagHead

/-- Attributes are added as they are, and only if their names stay different. -/
theorem foldlM_addAttr_eq_ok {attrs new all : List Attr} (hattrs : Distinct attrs)
    (h : new.foldlM addAttr attrs = .ok all) : all = attrs ++ new ∧ Distinct all := by
  by_cases hdistinct : Distinct (attrs ++ new)
  · rw [foldlM_addAttr hdistinct] at h
    cases h
    exact ⟨rfl, hdistinct⟩
  · obtain ⟨name, -, hfold⟩ := foldlM_addAttr_of_not_distinct hattrs hdistinct
    rw [hfold] at h
    cases h

theorem given_of_readPart {s after : List Char} {new : List Attr}
    (h : readPart s = .ok (some (.attrs new, after))) : ∀ a ∈ new, Attr.Given a := by
  unfold readPart at h
  split at h
  · cases h
  split at h
  · cases h
    intro a ha
    obtain rfl := mem_singleton.mp ha
    exact .shorthand _ _
  split at h
  · split at h
    · cases h
    · rename_i hlist
      cases h
      exact Attr.given_of_readList hlist
  · split at h
    · cases h
    · split at h
      · cases h
      · cases h

/-- The attributes of a head have different names, and all are written in it. -/
structure Checked (attrs : List Attr) : Prop where
  distinct : Distinct attrs
  given : ∀ a ∈ attrs, Attr.Given a

theorem checked_nil : Checked [] :=
  ⟨distinct_nil, fun _ ha => absurd ha not_mem_nil⟩

theorem checked_readParts {attrs attrs' : List Attr} {spreads spreads' : List String}
    {s rest : List Char} (hattrs : Checked attrs)
    (h : readParts attrs spreads s = .ok (attrs', spreads', rest)) : Checked attrs' := by
  fun_induction readParts attrs spreads s with
  | case1 => cases h
  | case2 =>
    cases h
    exact hattrs
  | case3 => cases h
  -- Only here are attributes added, and adding them checks their names.
  | case4 attrs spreads s new after hpart _ all hfold ih =>
    obtain ⟨hall, hdistinct⟩ := foldlM_addAttr_eq_ok hattrs.distinct hfold
    refine ih ⟨hdistinct, fun a ha => ?_⟩ h
    rw [hall, mem_append] at ha
    rcases ha with ha | ha
    · exact hattrs.given a ha
    · exact given_of_readPart hpart a ha
  | case5 attrs spreads s expr after hpart _ ih => exact ih hattrs h

theorem checked_of_read {s : List Char} {head : TagHead} (h : read s = .ok head) :
    Checked head.attrs := by
  obtain ⟨⟨name, rest⟩, -, h⟩ := exists_of_bind_eq_ok h
  obtain ⟨⟨attrs, spreads, rest'⟩, hparts, h⟩ := exists_of_bind_eq_ok h
  obtain ⟨tail, -, h⟩ := exists_of_bind_eq_ok h
  cases h
  exact checked_readParts checked_nil hparts

end TagHead

theorem Template.list_of_filterAttrs {name : String} {rest : List Char} {attrs : List Attr}
    (h : filterAttrs name rest = .ok attrs) :
    attrs = [] ∨ ∃ list after, Attr.readList list = .ok (attrs, after) := by
  simp only [filterAttrs] at h
  split at h
  · cases h
    exact .inl rfl
  split at h
  · cases h
  · rename_i hlist
    split at h
    · cases h
      exact .inr ⟨_, _, hlist⟩
    · cases h

/-! ## Heads of nodes -/

namespace Node

/-- The attributes in the head of the node. -/
def attrs : Node → List Attr
  | .tag t _ _ _ => t.attrs
  | .frame (.filter _ attrs) _ _ => attrs
  | _ => []

def isFilter : Node → Bool
  | .frame (.filter _ _) _ _ => true
  | _ => false

/-- The head of the node is read from a line, if it is one that has attributes. -/
def Headed : Node → Prop
  | .tag t _ _ _ => ∃ s head, TagHead.read s = .ok head ∧ head.toTag = t
  | .frame (.filter name attrs) _ _ => ∃ rest, Template.filterAttrs name rest = .ok attrs
  | _ => True

end Node

namespace Template

namespace Plan

/-- The heads in the plan are read from a line. -/
def Headed : Plan → Prop
  | .tag t _ _ _ => ∃ s head, TagHead.read s = .ok head ∧ head.toTag = t
  | .expansion t child => (∃ s head, TagHead.read s = .ok head ∧ head.toTag = t) ∧ child.Headed
  | .filter name attrs => ∃ rest, filterAttrs name rest = .ok attrs
  | _ => True

theorem headed_of_ofContent {content : List Char} {plan : Plan} (h : ofContent content = .ok plan) :
    plan.Headed := by
  fun_induction ofContent content generalizing plan with
  | case5 | case18 => cases h
  | case17 content name rest hkind =>
    obtain ⟨attrs, hattrs, rfl⟩ := exists_of_map_eq_ok h
    exact ⟨rest.toList, hattrs⟩
  | case19 content hkind head hread | case20 content hkind head hread
  | case21 content hkind head hread | case22 content hkind head hread =>
    cases h
    exact ⟨content, head, hread, rfl⟩
  | case23 content hkind head hread child htail _ ih =>
    obtain ⟨plan', hplan', rfl⟩ := exists_of_map_eq_ok h
    exact ⟨⟨content, head, hread, rfl⟩, ih hplan'⟩
  | _ =>
    cases h
    trivial

variable {place : Place} {below : Below}

/-- All heads in the node of a line are read, if those in its plan and below the line are. -/
theorem headed_build {plan : Plan} {node : Node} (h : plan.Builds place below node)
    (hplan : plan.Headed)
    (hbelow : ∀ nodes, below.nodes = .ok nodes → ∀ n ∈ nodes, ∀ m ∈ n.walk, m.Headed) :
    ∀ m ∈ node.walk, m.Headed := by
  refine h.forall_mem_walk hplan (fun t child h => h.2) ?node (fun _ _ _ _ _ => trivial)
    (fun _ _ _ _ _ _ => trivial) ?verbatim hbelow
  case node =>
    intro plan node h hplan
    cases h with
    | filter | rawTag | tag => exact hplan
    | expansion => exact hplan.1
    | bare | doctype | comment | remark | noLead | lead | caseOf | block => trivial
  case verbatim =>
    intro n hn
    obtain ⟨l, -, rfl⟩ := mem_map.mp hn
    trivial

end Plan

theorem headed_of_siblings {f : Option String} {level : Nat} {lines : List Line}
    {nodes : List Node} (h : siblings f level lines = .ok nodes) :
    ∀ k ∈ nodes, ∀ m ∈ k.walk, m.Headed := by
  induction level, lines using siblings_induct generalizing nodes with
  | nil level =>
    rw [siblings_nil] at h
    cases h
    simp
  | blank level l rest hb ih =>
    rw [siblings_blank hb] at h
    exact ih h
  | dedent level l rest hb hlt =>
    rw [siblings_dedent hb hlt] at h
    cases h
  | unexpected level l rest hb hlt =>
    rw [siblings_unexpected hb hlt] at h
    cases h
  | line level l rest hb heq ihbody ihafter =>
    obtain ⟨node, others, hnode, hothers, rfl⟩ := exists_of_siblings_line hb heq h
    intro k hk
    rcases mem_cons.mp hk with rfl | hk
    · obtain ⟨plan, hplan, hbuilds⟩ := builds_of_readLine hnode
      exact Plan.headed_build hbuilds (Plan.headed_of_ofContent hplan) fun nodes => ihbody
    · exact ihafter hothers k hk

/-- Every head in a tree that comes from a source is read from a line. -/
theorem headed_of_parse {source : String} {filename : Option String} {root : Node}
    (h : parse source filename = .ok root) : ∀ m ∈ root.walk, m.Headed := by
  obtain ⟨nodes, hnodes, rfl⟩ := exists_of_map_eq_ok h
  exact Node.forall_mem_walk.mpr ⟨trivial, headed_of_siblings hnodes, by simp [Node.code?]⟩

/-! ## Names throughout a tree -/

theorem given_of_headed {n : Node} (h : n.Headed) : ∀ a ∈ n.attrs, Attr.Given a := by
  intro a ha
  cases n with
  | tag t body code p =>
    obtain ⟨s, head, hread, rfl⟩ := h
    exact (TagHead.checked_of_read hread).given a ha
  | frame f body p =>
    cases f with
    | filter name attrs =>
      obtain ⟨rest, hattrs⟩ := h
      rcases list_of_filterAttrs hattrs with rfl | ⟨list, after, hlist⟩
      · exact absurd ha not_mem_nil
      · exact Attr.given_of_readList hlist a ha
    | comment words buffer | caseOf expr => exact absurd ha not_mem_nil
  | leaf l p | lead l body p | block body p => exact absurd ha not_mem_nil

/-- The names in the head of a node that is no filter are different. -/
theorem distinct_of_headed {n : Node} (h : n.Headed) (hfilter : n.isFilter = false) :
    Distinct n.attrs := by
  cases n with
  | tag t body code p =>
    obtain ⟨s, head, hread, rfl⟩ := h
    exact (TagHead.checked_of_read hread).distinct
  | frame f body p =>
    cases f with
    | filter name attrs => cases hfilter
    | comment words buffer | caseOf expr => exact TagHead.distinct_nil
  | leaf l p | lead l body p | block body p => exact TagHead.distinct_nil

/-- No name is given twice, and none is empty. -/
structure WellNamed (attrs : List Attr) : Prop where
  distinct : Distinct attrs
  named : ∀ a ∈ attrs, a.name ≠ ""

/-- Names in a tree that comes from a source. Those on a tag are different, and its props give what
each is given first. Those on a filter come from one list, and are looked up alike if they are
different. A name is empty if it is written as a pair of quotation marks. So the names of the tree
are in order exactly if no filter gives one twice and none is written like that. -/
theorem parse_names {source : String} {filename : Option String} {root : Node}
    (h : parse source filename = .ok root) :
    (∀ t body code p, .tag t body code p ∈ root.walk →
      Distinct t.attrs ∧ ∀ name given, Attr.collects name = false → name ∉ Ordered.keys given →
        (name = "&props" → t.spreads = []) →
        Ordered.get? name (Props.gather (t.attrs.map Props.ofAttr ++ given) t.spreads) =
          (t.attrs.find? (·.name == name)).map fun a => (Props.ofAttr a).2) ∧
    (∀ filter attrs body p, .frame (.filter filter attrs) body p ∈ root.walk →
      (attrs = [] ∨ ∃ list after, Attr.readList list = .ok (attrs, after)) ∧
      (Distinct attrs → ∀ name, Attr.collects name = false →
        Ordered.get? name (Ordered.ofPairs (attrs.map fun a => (a.name, a.value))) =
          Compile.attr? name attrs)) ∧
    (∀ n ∈ root.walk, ∀ a ∈ n.attrs,
      a.name = "" ↔ ∃ item, Attr.NamesNothing item ∧ Attr.readItem item = .ok a) ∧
    ((∀ n ∈ root.walk, WellNamed n.attrs) ↔
      ∀ n ∈ root.walk, (n.isFilter = true → Distinct n.attrs) ∧
        ∀ a ∈ n.attrs, ¬∃ item, Attr.NamesNothing item ∧ Attr.readItem item = .ok a) := by
  have hheaded := headed_of_parse h
  have hempty : ∀ n ∈ root.walk, ∀ a ∈ n.attrs,
      a.name = "" ↔ ∃ item, Attr.NamesNothing item ∧ Attr.readItem item = .ok a := by
    intro n hn a ha
    exact (given_of_headed (hheaded n hn) a ha).name_eq_empty_iff
  refine ⟨?tags, ?filters, hempty, ?names⟩
  case tags =>
    intro t body code p hn
    have hdistinct : Distinct t.attrs := distinct_of_headed (hheaded _ hn) rfl
    refine ⟨hdistinct, ?_⟩
    intro name given hname hgiven hspreads
    exact Attr.get?_gather_attrs hdistinct hname hgiven hspreads
  case filters =>
    intro filter attrs body p hn
    obtain ⟨rest, hattrs⟩ := hheaded _ hn
    refine ⟨list_of_filterAttrs hattrs, ?_⟩
    intro hdistinct name hname
    exact Attr.get?_ofPairs_attrs hdistinct hname
  case names =>
    constructor
    · intro hnames n hn
      refine ⟨fun _ => (hnames n hn).distinct, fun a ha => ?_⟩
      rw [← hempty n hn a ha]
      exact (hnames n hn).named a ha
    · intro hnames n hn
      obtain ⟨hfilter, hitems⟩ := hnames n hn
      constructor
      · -- On tags names are different anyway, so only filters have to be asked.
        by_cases hn' : n.isFilter = true
        · exact hfilter hn'
        · exact distinct_of_headed (hheaded n hn) (Bool.eq_false_iff.mpr hn')
      · intro a ha
        rw [Ne, hempty n hn a ha]
        exact hitems a ha

/-- Shorthands, a list and classes that come again, on a tag and on a filter. -/
theorem parse_names_classes :
    let source := "p.a#b(c=1 class=d)\n  :f('e'=2, class=g, class=h)\n    i"
    ∃ root, parse source none = .ok root ∧
      (∃ n ∈ root.walk, n.isFilter = true ∧ (n.attrs.map Attr.name) = ["e", "class", "class"]) ∧
      ∀ n ∈ root.walk, WellNamed n.attrs := by
  intro source
  have htest : (parse source none).toOption.any (fun root =>
      root.walk.any (fun n => n.isFilter && n.attrs.map Attr.name == ["e", "class", "class"]) &&
        root.walk.all fun n => decide (Distinct n.attrs) && n.attrs.all (·.name != "")) = true := by
    decide +kernel
  obtain ⟨root, hroot, htest⟩ := exists_of_toOption_any htest
  simp only [Bool.and_eq_true, any_eq_true, all_eq_true, decide_eq_true_eq, beq_iff_eq,
    bne_iff_ne] at htest
  obtain ⟨-, -, hempty, hnames⟩ := parse_names hroot
  refine ⟨root, hroot, htest.1, hnames.mpr fun n hn => ?_⟩
  refine ⟨fun _ => (htest.2 n hn).1, fun a ha => ?_⟩
  rw [← hempty n hn a ha]
  exact (htest.2 n hn).2 a ha

/-- A filter keeps a name that is given twice, with a different value for each way to look it up,
and a tag keeps a name without characters. -/
theorem parse_keeps_repeats :
    let source := ":f(a=1, a=2)\np(\"\"=1)"
    ∃ root, parse source none = .ok root ∧
      (∃ n ∈ root.walk, n.isFilter = true ∧ ¬Distinct n.attrs ∧
        Compile.attr? "a" n.attrs = some (.expr "1") ∧
        Ordered.get? "a" (Ordered.ofPairs (n.attrs.map fun a => (a.name, a.value))) =
          some (.expr "2")) ∧
      ∃ n ∈ root.walk, n.isFilter = false ∧ ∃ a ∈ n.attrs, a.name = "" := by
  intro source
  have htest : (parse source none).toOption.any (fun root =>
      root.walk.any (fun n => n.isFilter && (decide ¬Distinct n.attrs &&
        (Compile.attr? "a" n.attrs == some (.expr "1") &&
          Ordered.get? "a" (Ordered.ofPairs (n.attrs.map fun a => (a.name, a.value))) ==
            some (.expr "2")))) &&
        root.walk.any fun n => !n.isFilter && n.attrs.any (·.name == "")) = true := by
    decide +kernel
  obtain ⟨root, hroot, htest⟩ := exists_of_toOption_any htest
  simp only [Bool.and_eq_true, any_eq_true, decide_eq_true_eq, beq_iff_eq,
    Bool.not_eq_true'] at htest
  exact ⟨root, hroot, htest⟩

end Template

end Offside
