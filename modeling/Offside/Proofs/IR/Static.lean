import Offside.Compile.Options
import Offside.IR.Listing
import Offside.Json
import Offside.Proofs.IR.Evaluate
import Offside.Proofs.Tag.Tail

/-!
# Static render trees

A render tree is static if nothing in it depends on a value at run time: it is made of text and of
tags whose props are literals. The listing of static trees evaluates to template source, and this
file says which: every text and every tag is a line, indented by its depth, and a tag without
children is followed by an empty line (`evaluate_listing`).
-/

set_option autoImplicit false

namespace Offside

open List

/-! ## Names -/

/-- The text is a tag name: a letter and name characters, then any number of parts, each of them a
colon and at least one name character. -/
def IsTagName (s : List Char) : Prop :=
  ∃ c first, ∃ parts : List (List Char), s = c :: (first ++ parts.flatMap (':' :: ·)) ∧
    c.isAlpha = true ∧ (∀ x ∈ first, Text.isNameChar x = true) ∧
    ∀ part ∈ parts, part ≠ [] ∧ ∀ x ∈ part, Text.isNameChar x = true

/-- The text is a plain attribute name: a letter, then letters, digits, hyphens and underscores. -/
def IsPropName (s : List Char) : Prop :=
  ∃ c rest, s = c :: rest ∧ c.isAlpha = true ∧
    ∀ x ∈ rest, x.isAlphanum = true ∨ x = '-' ∨ x = '_'

/-- The name is that of an ordinary tag in lower case. -/
structure IsStaticName (o : Options) (name : String) : Prop where
  grammar : IsTagName name.toList
  lower : ∃ c rest, name.toList = c :: rest ∧ c.isLower = true
  ordinary : name ∉ ["yield", "import", "export", "var", "const", "function"]
  noPhrase : name ≠ o.phraseTag

/-- So no statement is made of the tag, and no function. -/
theorem IsStaticName.not_isStatement {o : Options} {name : String} (h : IsStaticName o name) :
    Tag.isStatement name = false ∧ name ≠ "function" := by
  have hordinary := h.ordinary
  simp only [mem_cons, not_mem_nil, or_false, not_or] at hordinary
  obtain ⟨-, himport, hexport, hvar, hconst, hfunction⟩ := hordinary
  exact ⟨by simp [Tag.isStatement, himport, hexport, hvar, hconst], hfunction⟩

/-- The prop is a literal under a plain name. -/
def IsStaticProp : String × PropEntry → Prop
  | (key, .value (.expr lit) (some true) none) =>
    Json.IsLiteral lit ∧ IsPropName key.toList ∧ key ∉ ["class", "className", "style"]
  | _ => False

theorem IsStaticProp.exists_literal {p : String × PropEntry} (h : IsStaticProp p) :
    ∃ key lit, p = (key, .value (.expr lit) (some true) none) ∧ Json.IsLiteral lit ∧
      IsPropName key.toList ∧ key ∉ ["class", "className", "style"] := by
  unfold IsStaticProp at h
  split at h
  · exact ⟨_, _, rfl, h⟩
  · exact h.elim

namespace IR

open Json

/-- The tree is made of text and of ordinary tags with literals for props. No name is given to two
props of one tag. -/
inductive Static (o : Options) : IR → Prop
  | text {t : String} {buffer : Bool} {origin : Provenance} (hne : t ≠ "") (hline : '\n' ∉ t.toList)
      (hend : Text.Tidy t.toList) : Static o (.atom (.text (quote t) buffer) origin)
  | tag {name : String} {props : Props} {children : List IR} {origin : Provenance}
      (hname : IsStaticName o name) (hprops : ∀ p ∈ props, IsStaticProp p)
      (hkeys : (Ordered.keys props).Nodup) (hchildren : ∀ n ∈ children, Static o n) :
    Static o (.tag name props children true origin)

/-! ## Lines -/

/-- A prop as it stands in an attribute list. -/
def propSource (p : String × PropEntry) : String :=
  p.1 ++ "=" ++ (propExpr? p.2).getD ""

/-- The line of a tag, without its indentation. -/
def headSource (name : String) (props : Props) : String :=
  name ++ "(" ++ " ".intercalate (props.map propSource) ++ ")"

mutual
/-- The lines of template source for a static tree at a depth. -/
def sourceLines (depth : Nat) : IR → List String
  | .atom (.text expr _) _ => [pad depth ++ "| " ++ (evaluate expr).getD ""]
  | .tag name props children _ _ =>
    (pad depth ++ headSource name props) ::
      (if children.isEmpty then [""] else allLines (depth + 1) children)
  | _ => []

/-- The lines of a list of static trees. -/
def allLines (depth : Nat) : List IR → List String
  | [] => []
  | n :: rest => sourceLines depth n ++ allLines depth rest
end

theorem sourceLines_text (depth : Nat) (t : String) (buffer : Bool) (origin : Provenance) :
    sourceLines depth (.atom (.text (quote t) buffer) origin) = [pad depth ++ "| " ++ t] := by
  rw [sourceLines, (evaluates_quote t).evaluate_eq, Option.getD_some]

theorem sourceLines_tag (depth : Nat) (name : String) (props : Props) (children : List IR)
    (buffer : Bool) (origin : Provenance) :
    sourceLines depth (.tag name props children buffer origin) =
      (pad depth ++ headSource name props) ::
        (if children.isEmpty then [""] else allLines (depth + 1) children) := by
  rw [sourceLines]

theorem allLines_eq_flatMap (depth : Nat) (nodes : List IR) :
    allLines depth nodes = nodes.flatMap (sourceLines depth) := by
  induction nodes with
  | nil => rw [allLines, flatMap_nil]
  | cons n rest ih => rw [allLines, flatMap_cons, ih]

variable {o : Options} {n : IR} {nodes : List IR}

theorem Static.sourceLines_ne_nil (h : Static o n) (depth : Nat) : sourceLines depth n ≠ [] := by
  cases h with
  | text => rw [sourceLines_text]; exact cons_ne_nil _ _
  | tag => rw [sourceLines_tag]; exact cons_ne_nil _ _

/-- The lines of several trees, joined, are the joined lines of each, joined. -/
theorem intercalate_allLines (hnodes : ∀ n ∈ nodes, Static o n) (depth : Nat) :
    "\n".intercalate (nodes.map fun n => "\n".intercalate (sourceLines depth n)) =
      "\n".intercalate (allLines depth nodes) := by
  induction nodes with
  | nil => rfl
  | cons n rest ih =>
    obtain ⟨hn, hrest⟩ := forall_mem_cons.mp hnodes
    rw [map_cons, allLines]
    -- No tree is without lines, so between any two there is one line feed.
    cases rest with
    | nil => rw [allLines, append_nil, map_nil, String.intercalate_singleton]
    | cons m rest =>
      have hm : sourceLines depth m ≠ [] := (hrest m mem_cons_self).sourceLines_ne_nil depth
      have hne : allLines depth (m :: rest) ≠ [] := by
        rw [allLines]
        exact append_ne_nil_of_left_ne_nil hm _
      rw [String.intercalate_append_of_ne_nil (hn.sourceLines_ne_nil depth) hne, ← ih hrest,
        map_cons, String.intercalate_cons_cons]

/-! ## The value of a listing -/

theorem evaluates_props {props : Props} (hprops : ∀ p ∈ props, IsStaticProp p) :
    EvaluatesIfAny (propsListing props) (" ".intercalate (props.map propSource)) := by
  have heach : Forall₂ Evaluates
      (props.filterMap fun p =>
        (propExpr? p.2).map fun expr => quote (p.1 ++ "=") ++ plus ++ stringified expr)
      (props.map propSource) := by
    induction props with
    | nil => exact .nil
    | cons p rest ih =>
      obtain ⟨hp, hrest⟩ := forall_mem_cons.mp hprops
      obtain ⟨key, lit, rfl, hlit, -, -⟩ := hp.exists_literal
      exact .cons ((evaluates_quote (key ++ "=")).plus (evaluates_stringified hlit)) (ih hrest)
  unfold propsListing
  -- Without props there is nothing to evaluate; the listing is empty then and no sum.
  by_cases hnil : props = []
  · subst hnil
    exact .inl ⟨rfl, rfl⟩
  · rw [plusSpace_eq]
    refine .inr (Evaluates.intercalate " " heach fun hempty => ?_)
    rw [hempty] at heach
    exact hnil (by simpa using heach)

theorem margin_eq (depth : Nat) : margin depth = quote (pad depth) := rfl

/-- The listings of static trees come to their lines, if those of each do. -/
theorem evaluates_nodeListings {depth : Nat} (h : ∀ n ∈ nodes, ∃ expr,
    nodeListing? depth n = some expr ∧ Evaluates expr ("\n".intercalate (sourceLines depth n))) :
    Forall₂ Evaluates (nodeListings depth nodes)
      (nodes.map fun n => "\n".intercalate (sourceLines depth n)) := by
  induction nodes with
  | nil =>
    rw [nodeListings]
    exact .nil
  | cons n rest ih =>
    obtain ⟨⟨expr, hlisting, hexpr⟩, hrest⟩ := forall_mem_cons.mp h
    rw [nodeListings, hlisting]
    exact .cons hexpr (ih hrest)

/-- The listing of a list comes to its lines. -/
theorem evaluatesIfAny_listing {depth : Nat} (hnodes : ∀ n ∈ nodes, Static o n)
    (h : Forall₂ Evaluates (nodeListings depth nodes)
      (nodes.map fun n => "\n".intercalate (sourceLines depth n))) :
    EvaluatesIfAny (listing depth nodes) ("\n".intercalate (allLines depth nodes)) := by
  unfold listing
  by_cases hnil : nodes = []
  · subst hnil
    refine .inl ⟨?_, ?_⟩
    · rw [nodeListings, String.intercalate_nil]
    · rw [allLines, String.intercalate_nil]
  · rw [← intercalate_allLines hnodes, plusNewline_eq]
    refine .inr (Evaluates.intercalate "\n" h fun hempty => ?_)
    rw [hempty] at h
    exact hnil (by simpa using h)

/-- A tag is its head, a line feed and its children. -/
theorem intercalate_tag (depth : Nat) (name : String) (props : Props) {children : List IR}
    (hchildren : ∀ n ∈ children, Static o n) (origin : Provenance) :
    "\n".intercalate (sourceLines depth (.tag name props children true origin)) =
      pad depth ++ "".intercalate [name ++ "(", " ".intercalate (props.map propSource), ")\n",
        "\n".intercalate (allLines (depth + 1) children)] := by
  -- Without children there is an empty line in their place, and it is joined to nothing.
  have htail : "\n".intercalate (if children.isEmpty then [""] else allLines (depth + 1) children) =
      "\n".intercalate (allLines (depth + 1) children) := by
    cases children with
    | nil => rw [allLines]; rfl
    | cons n rest => rfl
  have hne : (if children.isEmpty then [""] else allLines (depth + 1) children) ≠ [] := by
    cases children with
    | nil => exact cons_ne_nil _ _
    | cons n rest =>
      have hn := (hchildren n mem_cons_self).sourceLines_ne_nil (depth + 1)
      rw [isEmpty_cons, if_neg Bool.false_ne_true, allLines]
      exact append_ne_nil_of_left_ne_nil hn _
  have hclose : ")\n" = ")" ++ "\n" := rfl
  rw [sourceLines_tag, String.intercalate_cons_of_ne_nil hne, htail, headSource, hclose]
  simp [String.append_assoc]

/-- A static tree is listed, and its listing comes to its lines. -/
theorem Static.evaluates (h : Static o n) (depth : Nat) :
    ∃ expr, nodeListing? depth n = some expr ∧
      Evaluates expr ("\n".intercalate (sourceLines depth n)) := by
  -- The lines of the children are one level deeper, so the depth is not fixed.
  induction h generalizing depth with
  | @text t buffer origin hne hline hend =>
    refine ⟨margin depth ++ plus ++ (quote "| " ++ plus ++ quote t), ?_, ?_⟩
    · rw [nodeListing?]
      rfl
    · have hline : pad depth ++ "| " ++ t = pad depth ++ ("| " ++ t) := String.append_assoc
      rw [margin_eq, sourceLines_text, String.intercalate_singleton, hline]
      exact (evaluates_quote (pad depth)).plus ((evaluates_quote "| ").plus (evaluates_quote t))
  | @tag name props children origin hname hprops hkeys hchildren ih =>
    have hbelow := evaluates_nodeListings fun n hn => ih n hn (depth + 1)
    have hparts : Forall₂ EvaluatesIfAny
        [propsListing props, quote ")\n", listing (depth + 1) children]
        [" ".intercalate (props.map propSource), ")\n",
          "\n".intercalate (allLines (depth + 1) children)] :=
      .cons (evaluates_props hprops) (.cons (.inr (evaluates_quote _))
        (.cons (evaluatesIfAny_listing hchildren hbelow) .nil))
    have hhead := evaluates_quote (name ++ "(")
    have hlisting : nodeListing? depth (.tag name props children true origin) =
        some (margin depth ++ plus ++ plus.intercalate (quote (name ++ "(") ::
          [propsListing props, quote ")\n", listing (depth + 1) children].filter
            (!·.isEmpty))) := by
      rw [nodeListing?]
      simp only [listing]
      rw [filter_cons_of_pos (by simpa using hhead.ne_empty)]
    refine ⟨_, hlisting, ?_⟩
    rw [margin_eq, intercalate_tag depth name props hchildren origin]
    exact (evaluates_quote (pad depth)).plus (hhead.parts hparts)

/-- The listing of static trees evaluates to their lines. -/
theorem evaluate_listing (hnodes : ∀ n ∈ nodes, Static o n) :
    evaluate (listing 0 nodes) = some ("\n".intercalate (allLines 0 nodes)) := by
  have heach := evaluates_nodeListings fun n hn => (hnodes n hn).evaluates 0
  rcases evaluatesIfAny_listing hnodes heach with ⟨hlisting, hlines⟩ | h
  · rw [hlisting, hlines]
    rfl
  · exact h.evaluate_eq

end IR

end Offside
