import Offside.Proofs.Compile.Nested
import Offside.Proofs.IR.Origin
import Offside.Proofs.Ordered
import Offside.Proofs.Template.Listed

/-!
# Static trees are restored from their listing

The listing of static trees evaluates to template source, and compiling that source gives the trees
back (`source_listing`). What is lost is where they came from, and whether a text was to be
rendered: a listing does not say so, and text in a template always is.

The lines of a tree are read as a node that compiles to the tree, whatever is compiled around it
(`ReadBack`). The trees are followed by induction: the lines of the children of a tag lie below the
line of the tag, and lines of one depth are read one after the other.
-/

set_option autoImplicit false

namespace Offside

open List

namespace IR

mutual
/-- The tree with all text among its nodes rendered; content in props is left as it is. -/
def rendered : IR → IR
  | .atom (.text expr _) origin => .atom (.text expr true) origin
  | .atom a origin => .atom a origin
  | .group head children origin => .group head (allRendered children) origin
  | .tag name props children buffer origin => .tag name props (allRendered children) buffer origin

/-- The trees of a list with all text rendered. -/
def allRendered : List IR → List IR
  | [] => []
  | n :: rest => rendered n :: allRendered rest
end

theorem allRendered_eq_map (nodes : List IR) : allRendered nodes = nodes.map rendered := by
  induction nodes with
  | nil => rw [allRendered, map_nil]
  | cons n rest ih => rw [allRendered, map_cons, ih]

theorem rendered_text (expr : String) (buffer : Bool) (origin : Provenance) :
    rendered (.atom (.text expr buffer) origin) = .atom (.text expr true) origin := by
  rw [rendered]

theorem rendered_tag (name : String) (props : Props) (children : List IR) (buffer : Bool)
    (origin : Provenance) :
    rendered (.tag name props children buffer origin) =
      .tag name props (children.map rendered) buffer origin := by
  rw [rendered, allRendered_eq_map]

/-- The tree without lines and file names. -/
def placeless : IR → IR :=
  mapOrigin fun _ => ⟨none, none⟩

end IR

/-! ## Plain props -/

/-- Props under different names that are not collected are taken as they are given. -/
theorem Props.gather_plain {given : List (String × PropEntry)}
    (hplain : ∀ e ∈ given, Attr.collects e.1 = false) (hkeys : (Ordered.keys given).Nodup) :
    gather given [] = given := by
  -- Nothing is collected under `style` or `class`, so what is left are the entries one by one.
  have hcollected (p : String → Bool) (hp : ∀ name, p name = true → Attr.collects name = true) :
      collected p given = [] := by
    have hnone : given.filter (fun e => p e.1) = [] := by
      rw [filter_eq_nil_iff]
      intro e he hpe
      have htrue := hp e.1 hpe
      rw [hplain e he] at htrue
      cases htrue
    rw [collected, hnone, filterMap_nil]
  have hkept : given.filter (fun e => !Attr.collects e.1) = given :=
    filter_eq_self.mpr fun e he => by rw [hplain e he]; rfl
  rw [gather, hkept, Ordered.ofPairs_of_nodup hkeys,
    hcollected (· == "style") (by simp [Attr.collects]),
    hcollected (fun n => n == "class" || n == "className") (by simp +contextual [Attr.collects])]
  rfl

/-- A tag in lower case is no component. -/
theorem Host.ofTag_lower {name : String} {c : Char} {rest : List Char}
    (hname : name.toList = c :: rest) (hc : c.isLower = true) : Host.ofTag name = none := by
  have ha : 'a'.val ≤ c.val := of_decide_eq_true (Bool.and_eq_true_iff.mp hc).1
  have hz : c.val ≤ 'z'.val := of_decide_eq_true (Bool.and_eq_true_iff.mp hc).2
  -- Below 128 letters in upper case are the ASCII ones, and these are not the ones in lower case.
  have hcode : 97 ≤ c.toNat ∧ c.toNat ≤ 122 :=
    ⟨UInt32.le_iff_toNat_le.mp ha, UInt32.le_iff_toNat_le.mp hz⟩
  have hascii : c.isUpper = false := by
    rw [Bool.eq_false_iff]
    intro hupper
    have hle : c.val ≤ 'Z'.val := (of_decide_eq_true hupper).2
    exact absurd (UInt32.le_trans ha hle) (by decide)
  have hupper : Text.isUpper c = false := by
    rw [Text.isUpper, hascii, decide_eq_false (by omega), Bool.false_and, Bool.or_self]
  rw [ofTag, isComponent, hname, head?_cons, Option.any_some, hupper, if_neg Bool.false_ne_true]

namespace Compile

variable {o : Options} {n : IR} {nodes : List IR}

/-! ## Visits -/

/-- The node is no named content, and it compiles to `n` up to places, with text rendered. -/
structure Restores (o : Options) (node : Node) (n : IR) : Prop where
  unnamed : contentName? node = none
  visited : ∀ embed : Embed (Except CompileError), ∃ v,
    visit o embed none node = .ok (.one v) ∧ v.placeless = n.rendered.placeless

/-- The nodes of a list are restored together. -/
theorem exists_visitEach {ns : List Node} (h : Forall₂ (Restores o) ns nodes)
    (embed : Embed (Except CompileError)) :
    ∃ results, visitEach o embed none ns = .ok results ∧
      (∀ r ∈ results, contentName? r.1 = none) ∧
      (results.flatMap fun r => r.2.toList).map IR.placeless =
        (nodes.map IR.rendered).map IR.placeless := by
  induction h with
  | nil =>
    refine ⟨[], ?_, by simp, rfl⟩
    rw [visitEach]
    rfl
  | @cons node n ns nodes hnode hrest ih =>
    obtain ⟨results, hvisit, hunnamed, heq⟩ := ih
    obtain ⟨v, hv, hrestored⟩ := hnode.visited embed
    refine ⟨(node, .one v) :: results, ?_, forall_mem_cons.mpr ⟨hnode.unnamed, hunnamed⟩, ?_⟩
    · rw [visitEach, hv, hvisit]
      rfl
    · rw [flatMap_cons, Visited.toList, map_append, heq, map_singleton, hrestored]
      rfl

theorem namedContent_eq_nil {results : List (Node × Visited)}
    (h : ∀ r ∈ results, contentName? r.1 = none) : namedContent results = [] := by
  rw [namedContent, filterMap_eq_nil_iff]
  rintro ⟨node, v⟩ hr
  simp only [h _ hr, Option.map_none]

theorem plainContent_eq {results : List (Node × Visited)}
    (h : ∀ r ∈ results, contentName? r.1 = none) :
    plainContent results = results.flatMap fun r => r.2.toList := by
  rw [plainContent]
  refine flatMap_congr ?_
  rintro ⟨node, v⟩ hr
  simp only [h _ hr, Option.isSome_none, Bool.false_eq_true, if_false]

theorem restores_text {t : String} (hne : t ≠ "") (place : Place) (buffer : Bool)
    (origin : Provenance) :
    Restores o (.leaf (.text t) place) (.atom (.text (Json.quote t) buffer) origin) := by
  refine ⟨rfl, fun embed => ⟨.atom (.text (Json.quote t) true) (.ofPlace place), ?_, ?_⟩⟩
  · have hempty : ¬ t.isEmpty = true := by simpa [String.isEmpty_iff] using hne
    rw [visit, leaf, text, if_neg hempty]
    rfl
  · rw [IR.rendered_text, IR.placeless, IR.mapOrigin_atom, IR.mapOrigin_atom]

theorem restores_tag {name : String} {attrs : List Attr} {ns : List Node}
    (hname : IsStaticName o name) (hplain : ∀ a ∈ attrs, Attr.collects a.name = false)
    (hkeys : (Ordered.keys (attrs.map Props.ofAttr)).Nodup) (h : Forall₂ (Restores o) ns nodes)
    (place : Place) (origin : Provenance) :
    Restores o (.tag ⟨name, attrs, [], false⟩ (.plain ns) none place)
      (.tag name (attrs.map Props.ofAttr) nodes true origin) := by
  have hprops : Props.gather (attrs.map Props.ofAttr) [] = attrs.map Props.ofAttr := by
    refine Props.gather_plain (fun e he => ?_) hkeys
    obtain ⟨a, ha, rfl⟩ := mem_map.mp he
    exact hplain a ha
  obtain ⟨hstatement, hfunction⟩ := hname.not_isStatement
  obtain ⟨c, rest, hchars, hc⟩ := hname.lower
  refine ⟨rfl, fun embed => ?_⟩
  obtain ⟨results, hvisit, hunnamed, heq⟩ := exists_visitEach h embed
  refine ⟨.tag name (attrs.map Props.ofAttr) (results.flatMap fun r => r.2.toList) true
    (.ofPlace place), ?_, ?_⟩
  · -- The name rules out the other kinds of tags, and a host for what is in this one.
    rw [Block.plain, visit_element_eq_visitEach ⟨hname.noPhrase, hstatement, hfunction⟩
      (by simp [Tag.IsOpen]), Host.ofTag_lower hchars hc, contentOf_none, hvisit]
    simp only [hostedAttrs, tag, append_nil, Option.toList_none, map_nil,
      namedContent_eq_nil hunnamed, plainContent_eq hunnamed, hprops, Functor.map, Except.map]
  · rw [IR.rendered_tag]
    simp only [IR.placeless, IR.mapOrigin_tag] at heq ⊢
    rw [heq]

/-! ## Reading the lines -/

/-- At a depth, whatever the number of its first line, the lines of the tree are read as one node
that restores it. -/
def ReadBack (o : Options) (f : Option String) (depth : Nat) (n : IR) : Prop :=
  ∀ number, ∃ node, Template.siblings f (2 * depth)
    (Template.linesFrom number (IR.sourceLines depth n)) = .ok [node] ∧ Restores o node n

variable {f : Option String} {depth : Nat}

/-- The lines of a list are read one tree after the other. -/
theorem exists_siblings_all (hnodes : ∀ n ∈ nodes, IR.Static o n)
    (h : ∀ n ∈ nodes, ReadBack o f depth n) (number : Nat) :
    ∃ ns, Template.siblings f (2 * depth) (Template.linesFrom number (IR.allLines depth nodes)) =
      .ok ns ∧ Forall₂ (Restores o) ns nodes := by
  induction nodes generalizing number with
  | nil => exact ⟨[], by rw [IR.allLines, Template.linesFrom_nil, Template.siblings_nil], .nil⟩
  | cons n rest ih =>
    obtain ⟨hn, hrest⟩ := forall_mem_cons.mp h
    obtain ⟨-, hstatic⟩ := forall_mem_cons.mp hnodes
    obtain ⟨node, hnode, hrestores⟩ := hn number
    obtain ⟨ns, hns, hall⟩ := ih hstatic hrest (number + (IR.sourceLines depth n).length)
    refine ⟨node :: ns, ?_, .cons hrestores hall⟩
    rw [IR.allLines, Template.linesFrom_append,
      Template.siblings_append (Template.levelOf_allLines_le hstatic _ depth), hnode, hns]
    rfl

/-- What lies below the line of a tag are its children. -/
theorem exists_nodesOf_body (hnodes : ∀ n ∈ nodes, IR.Static o n)
    (h : ∀ n ∈ nodes, ReadBack o f (depth + 1) n) (number : Nat) :
    ∃ ns, Template.nodesOf f (Template.linesFrom number
        (if nodes.isEmpty then [""] else IR.allLines (depth + 1) nodes)) = .ok ns ∧
      Forall₂ (Restores o) ns nodes := by
  by_cases hnil : nodes = []
  · -- The one line below is blank.
    subst hnil
    refine ⟨[], Template.siblings_of_blank _ fun l hl => ?_, .nil⟩
    obtain rfl := mem_singleton.mp hl
    rfl
  · obtain ⟨ns, hns, hall⟩ := exists_siblings_all hnodes h number
    refine ⟨ns, ?_, hall⟩
    rw [if_neg (by simpa using hnil), Template.nodesOf,
      Template.levelOf_allLines hnodes hnil, hns]

theorem readBack_of_static (h : IR.Static o n) (f : Option String) (depth : Nat) :
    ReadBack o f depth n := by
  -- The depth is not fixed, since the children of a tag are listed one level deeper.
  induction h generalizing depth with
  | @text t buffer origin hne hline hend =>
    intro number
    refine ⟨_, ?_, restores_text hne ⟨.ofNat number, f⟩ buffer origin⟩
    rw [IR.sourceLines_text, String.append_assoc, Template.linesFrom_cons, Template.linesFrom_nil,
      Template.siblings_around (isContent_piped hne hline hend)
        (fun l hl => absurd hl not_mem_nil), Template.readLine_piped _ rfl]
    rfl
  | @tag name props children origin hname hprops hkeys hchildren ih =>
    intro number
    obtain ⟨attrs, rfl, hplain, hread⟩ := Template.exists_readLine_head hname hprops hkeys
    obtain ⟨ns, hns, hall⟩ :=
      exists_nodesOf_body hchildren (fun c hc => ih c hc (depth + 1)) (number + 1)
    refine ⟨_, ?_, restores_tag hname hplain hkeys hall ⟨.ofNat number, f⟩ origin⟩
    rw [IR.sourceLines_tag, Template.linesFrom_cons,
      Template.siblings_around (hname.isContent hprops)
        (Template.isBelow_body hchildren depth (number + 1)), hread, hns]
    rfl

/-- The lines of static trees are compiled to the trees. -/
theorem exists_source_allLines (hnodes : ∀ n ∈ nodes, IR.Static o n) :
    ∃ compiled, Compile.source o ("\n".intercalate (IR.allLines 0 nodes)) = .ok compiled ∧
      compiled.map IR.placeless = (nodes.map IR.rendered).map IR.placeless := by
  obtain ⟨ns, hns, hall⟩ :=
    exists_siblings_all hnodes (fun n hn => readBack_of_static (hnodes n hn) o.filename 0) 1
  obtain ⟨results, hvisit, -, heq⟩ := exists_visitEach hall (nested o)
  refine ⟨results.flatMap fun r => r.2.toList, ?_, heq⟩
  have hlevel : Template.levelOf (Template.linesFrom 1 (IR.allLines 0 nodes)) = 2 * 0 :=
    Nat.eq_zero_of_le_zero (Template.levelOf_allLines_le hnodes 1 0)
  have hnodesOf : Template.nodesOf o.filename
      (Line.ofSource ("\n".intercalate (IR.allLines 0 nodes))) = .ok ns := by
    rw [Template.nodesOf_intercalate hnodes, Template.nodesOf, hlevel, hns]
  rw [source_eq, nested_eq_visitLines, visitLines, hnodesOf]
  show visitAll o ns = _
  rw [visitAll, hvisit]
  rfl

/-- The listing of static trees is an expression for a template that compiles to the same trees, up
to places and with text rendered. -/
theorem source_listing (hnodes : ∀ n ∈ nodes, IR.Static o n) :
    ∃ text compiled, IR.evaluate (IR.listing 0 nodes) = some text ∧
      Compile.source o text = .ok compiled ∧
      compiled.map IR.placeless = (nodes.map IR.rendered).map IR.placeless := by
  obtain ⟨compiled, hsource, heq⟩ := exists_source_allLines hnodes
  exact ⟨_, compiled, IR.evaluate_listing hnodes, hsource, heq⟩

/-- A tag with an attribute around a text that looks like a condition, and around a tag that holds
nothing. -/
theorem source_listing_nested :
    ∃ nodes, (∀ n ∈ nodes, IR.Static {} n) ∧
      IR.evaluate (IR.listing 0 nodes) =
        some "ul(data-x=\"a\\\"b, \\u0041\")\n  | if \\x\n  svg:br_2()\n" ∧
      ∃ compiled, Compile.source {}
          "ul(data-x=\"a\\\"b, \\u0041\")\n  | if \\x\n  svg:br_2()\n" = .ok compiled ∧
        compiled.map IR.placeless = (nodes.map IR.rendered).map IR.placeless := by
  have htext : IR.Static {} (.atom (.text "\"if \\\\x\"" false) ⟨none, none⟩) :=
    .text (t := "if \\x") (by decide) (by decide) (by decide)
  have hempty : IR.Static {} (.tag "svg:br_2" [] [] true ⟨none, none⟩) := by
    have hname : IsStaticName {} "svg:br_2" :=
      ⟨⟨'s', ['v', 'g'], [['b', 'r', '_', '2']], rfl, rfl, all_eq_true.mp rfl,
        forall_mem_singleton.mpr ⟨cons_ne_nil _ _, all_eq_true.mp rfl⟩⟩, ⟨'s', _, rfl, rfl⟩,
        by decide, by decide⟩
    exact .tag hname (by simp) nodup_nil (by simp)
  have hprop : IsStaticProp
      ("data-x", .value (.expr "\"a\\\"b, \\u0041\"") (some true) none) := by
    have hletters : ("ata-x".toList.all fun x => x.isAlphanum || x == '-' || x == '_') = true := rfl
    have hliteral : Json.IsLiteral "\"a\\\"b, \\u0041\"" :=
      ⟨[.plain 'a' rfl, .letter '\x22' rfl, .plain 'b' rfl, .plain ',' rfl, .plain ' ' rfl,
        .number ['0', '0', '4', '1'] rfl rfl], rfl⟩
    refine ⟨hliteral, ⟨'d', "ata-x".toList, rfl, rfl, fun x hx => ?_⟩, by decide⟩
    simpa [or_assoc] using all_eq_true.mp hletters x hx
  have hname : IsStaticName {} "ul" :=
    ⟨⟨'u', ['l'], [], rfl, rfl, all_eq_true.mp rfl, nofun⟩, ⟨'u', _, rfl, rfl⟩, by decide,
      by decide⟩
  have hlist : IR.Static {} (.tag "ul" _ _ true ⟨none, none⟩) :=
    .tag hname (forall_mem_singleton.mpr hprop) (by decide)
      (forall_mem_cons.mpr ⟨htext, forall_mem_singleton.mpr hempty⟩)
  have hnodes := forall_mem_singleton.mpr hlist
  obtain ⟨text, compiled, heval, hsource, heq⟩ := source_listing hnodes
  obtain rfl : "ul(data-x=\"a\\\"b, \\u0041\")\n  | if \\x\n  svg:br_2()\n" = text := by
    rw [← Option.some.inj ((IR.evaluate_listing hnodes).symm.trans heval)]
    decide +kernel
  exact ⟨_, hnodes, heval, compiled, hsource, heq⟩

/-- A listing does not say whether a text is to be rendered, so one that is not comes back as one
that is. -/
theorem listing_loses_rendering :
    IR.Static {} (.atom (.text "\"a\"" false) ⟨none, none⟩) ∧
      ¬ ∃ text compiled,
        IR.evaluate (IR.listing 0 [.atom (.text "\"a\"" false) ⟨none, none⟩]) = some text ∧
        Compile.source {} text = .ok compiled ∧
        compiled.map IR.placeless =
          [.atom (.text "\"a\"" false) ⟨none, none⟩].map IR.placeless := by
  have hstatic : IR.Static {} (.atom (.text "\"a\"" false) ⟨none, none⟩) :=
    .text (t := "a") (by decide) (by decide) (by decide)
  have hnodes : ∀ n ∈ [IR.atom (.text "\"a\"" false) ⟨none, none⟩], IR.Static {} n := by
    simpa using hstatic
  refine ⟨hstatic, ?_⟩
  rintro ⟨text, compiled, htext, hsource, heq⟩
  -- There is one text and one outcome of compiling it, and those are known to be rendered.
  obtain ⟨restored, hrestored, hplaceless⟩ := exists_source_allLines hnodes
  obtain rfl := Option.some.inj ((IR.evaluate_listing hnodes).symm.trans htext)
  obtain rfl := Except.ok.inj (hrestored.symm.trans hsource)
  rw [heq] at hplaceless
  simp [IR.placeless, IR.rendered_text] at hplaceless

end Compile

end Offside
