import Mathlib.Data.Option.Basic
import Offside.Proofs.IR.Sum
import Offside.Proofs.IR.Traced
import Offside.Proofs.Json.Literal

/-!
# What a listing denotes

A listing is a sum of string literals and of dynamic values. What it comes to is known but for the
values, so it denotes template source with holes in it: one hole for each value, to be filled with
the JSON of that moment. This file writes that pseudo-source down from the render tree alone, line
by line and without an operator in sight, and shows that the listing denotes it
(`listing_denotes`).

Text is compared by code unit. A literal can hold half of a surrogate pair, which is a code unit
like any other but no character.
-/

set_option autoImplicit false

namespace Offside.IR

open List

/-! ## Pseudo-source -/

/-- A symbol of pseudo-source: a code unit, or the place of the JSON of a value. -/
inductive Symbol where
  | unit (u : UInt16)
  | hole (expr : String)
deriving DecidableEq, Repr

namespace Symbol

def space : Symbol := .unit 32

def lineFeed : Symbol := .unit 10

/-- The symbols of a text. -/
def ofText (s : String) : List Symbol :=
  (s.toList.flatMap Json.units).map .unit

/-- The symbols that the pieces of a literal stand for. -/
def ofPieces (pieces : List Json.Piece) : List Symbol :=
  (pieces.flatMap Json.Piece.units).map .unit

/-- The symbols that a literal stands for. -/
def decoded (expr : String) : List Symbol :=
  ((Json.literal? expr.toList).map fun read => ofPieces read.1).getD []

end Symbol

open Offside.IR.Symbol

/-- The value of a prop, if it has one: collected values are set apart by spaces. -/
def hole? : PropEntry → Option Symbol
  | .content _ _ _ => none
  | .value v _ _ => some (.hole v.text)
  | .collected exprs => some (.hole (" + \" \" + ".intercalate exprs))
  | .key _ expr => some (.hole expr)

/-- The props of a tag. -/
def propsSource (props : Props) : List Symbol :=
  [space].intercalate <| props.filterMap fun p =>
    (hole? p.2).map fun hole => ofText p.1 ++ ofText "=" ++ [hole]

/-- An atom, if it has source. -/
def atomSource? : Atom → Option (List Symbol)
  | .text expr _ => some (ofText "| " ++ decoded expr)
  | .expression expr _ _ => some (ofText "= " ++ [.hole expr])
  | .statement .imports expr => some (ofText "import " ++ ofText expr)
  | .statement .exports expr => some (ofText "export " ++ ofText expr)
  | .statement .var expr => some (ofText "var " ++ ofText expr)
  | _ => none

mutual
/-- A node at a depth, if it has source. -/
def nodeSource? (depth : Nat) : IR → Option (List Symbol)
  | .atom a _ => (atomSource? a).map fun body => replicate (2 * depth) space ++ body
  | .group _ _ _ => none
  | .tag name props children _ _ =>
    some (replicate (2 * depth) space ++ (ofText name ++ ofText "(" ++ propsSource props ++
      ofText ")" ++ [lineFeed] ++ [lineFeed].intercalate (nodeSources (depth + 1) children)))

/-- The nodes of a list that have source, each by itself. -/
def nodeSources (depth : Nat) : List IR → List (List Symbol)
  | [] => []
  | n :: rest => (nodeSource? depth n).toList ++ nodeSources depth rest
end

/-- The pseudo-source of nodes that stand at `depth`. -/
def pseudoSource (depth : Nat) (nodes : List IR) : List Symbol :=
  [lineFeed].intercalate (nodeSources depth nodes)

/-- The node is of a kind that is listed. -/
def isListed : IR → Bool
  | .tag _ _ _ _ _ => true
  | .atom (.text _ _) _ | .atom (.expression _ _ _) _ => true
  | .atom (.statement keyword _) _ => keyword != .const
  | _ => false

/-- If the node is text, its expression is a string literal. -/
def HasLiteralText : IR → Prop
  | .atom (.text expr _) _ => Json.IsLiteral expr
  | _ => True

/-! ## Operands -/

/-- An operand of a listing. -/
inductive Term where
  | literal (pieces : List Json.Piece)
  | value (expr : String)

namespace Term

/-- The operand as it is written. -/
def source : Term → String
  | .literal pieces => String.ofList (Json.literal pieces)
  | .value expr => "JSON.stringify(" ++ expr ++ ")"

/-- What the operand comes to, as far as it is known. -/
def symbols : Term → List Symbol
  | .literal pieces => ofPieces pieces
  | .value expr => [.hole expr]

theorem source_literal (pieces : List Json.Piece) :
    (Term.literal pieces).source = String.ofList (Json.literal pieces) :=
  rfl

theorem source_ne_empty (t : Term) : t.source ≠ "" := by
  intro hempty
  cases t with
  | literal pieces =>
    have hchars := congrArg String.toList hempty
    rw [source_literal, String.toList_ofList] at hchars
    cases hchars
  | value expr =>
    have happend : "JSON.stringify(" ++ expr ++ ")" = "" := hempty
    have hclose := (String.append_eq_empty_iff.mp happend).2
    exact absurd hclose (by decide)

end Term

/-- The text is a sum of operands, and comes to these symbols. -/
abbrev Denotes : String → List Symbol → Prop :=
  SumOf Term.source fun t => some t.symbols

abbrev DenotesIfAny : String → List Symbol → Prop :=
  SumIfAny Term.source fun t => some t.symbols

theorem Term.denotes (t : Term) : Denotes t.source t.symbols :=
  SumOf.single rfl

theorem Denotes.exists_terms {expr : String} {s : List Symbol} (h : Denotes expr s) :
    ∃ terms : List Term, terms ≠ [] ∧ expr = plus.intercalate (terms.map Term.source) ∧
      terms.flatMap Term.symbols = s := by
  obtain ⟨terms, values, hne, hexpr, hvalues, rfl⟩ := h
  have hmap : terms.mapM (fun t => some t.symbols) = some (terms.map Term.symbols) :=
    mapM_pure
  rw [hmap] at hvalues
  cases hvalues
  exact ⟨terms, hne, hexpr, flatMap_def⟩

/-! ## The pieces of a listing -/

theorem ofText_append (s t : String) : ofText (s ++ t) = ofText s ++ ofText t := by
  rw [ofText, String.toList_append, flatMap_append, map_append, ofText, ofText]

theorem denotes_quote (t : String) : Denotes (Json.quote t) (ofText t) := by
  obtain ⟨pieces, hquote, hvalue⟩ := Json.exists_pieces_quote t.toList
  have hsource : Json.quote t = (Term.literal pieces).source := by
    rw [Json.quote, hquote, Term.source_literal]
  have hsymbols : ofText t = (Term.literal pieces).symbols := by
    rw [ofText, ← Json.flatMap_units_of_decode? hvalue, Term.symbols, ofPieces]
  rw [hsource, hsymbols]
  exact (Term.literal pieces).denotes

theorem denotes_literal {expr : String} (h : Json.IsLiteral expr) :
    Denotes expr (decoded expr) := by
  obtain ⟨pieces, hpieces⟩ := h
  have hread : Json.literal? expr.toList = some (pieces, []) :=
    Json.literal?_eq_some.mpr (by rw [hpieces, append_nil])
  have hsource : expr = (Term.literal pieces).source := by
    rw [Term.source_literal, ← hpieces, String.ofList_toList]
  have hsymbols : decoded expr = (Term.literal pieces).symbols := by
    rw [decoded, hread]
    rfl
  rw [hsymbols, hsource]
  exact (Term.literal pieces).denotes

theorem denotes_stringified (expr : String) : Denotes (stringified expr) [.hole expr] :=
  (Term.value expr).denotes

theorem denotes_margin (depth : Nat) : Denotes (margin depth) (replicate (2 * depth) space) := by
  have hspaces : ofText (String.ofList (replicate (2 * depth) ' ')) =
      replicate (2 * depth) space := by
    have hspace : Json.units ' ' = [32] := rfl
    rw [ofText, String.toList_ofList, flatMap_replicate, hspace, flatten_replicate_singleton,
      map_replicate, space]
  rw [margin, ← hspaces]
  exact denotes_quote _

theorem hole?_eq (entry : PropEntry) : hole? entry = (propExpr? entry).map .hole := by
  cases entry <;> rfl

theorem denotes_props (props : Props) : DenotesIfAny (propsListing props) (propsSource props) := by
  have heach : Forall₂ Denotes
      (props.filterMap fun p =>
        (propExpr? p.2).map fun expr => Json.quote (p.1 ++ "=") ++ plus ++ stringified expr)
      (props.filterMap fun p =>
        (hole? p.2).map fun hole => ofText p.1 ++ ofText "=" ++ [hole]) := by
    -- Props with content are left out on both sides, all others stand for one hole.
    induction props with
    | nil => exact .nil
    | cons p rest ih =>
      cases hexpr : propExpr? p.2 with
      | none =>
        have hhole : hole? p.2 = none := by rw [hole?_eq, hexpr, Option.map_none]
        rw [filterMap_cons_none (by rw [hexpr, Option.map_none]),
          filterMap_cons_none (by rw [hhole, Option.map_none])]
        exact ih
      | some expr =>
        have hhole : hole? p.2 = some (.hole expr) := by rw [hole?_eq, hexpr, Option.map_some]
        rw [filterMap_cons_some (by rw [hexpr, Option.map_some]),
          filterMap_cons_some (by rw [hhole, Option.map_some]), ← ofText_append]
        exact .cons ((denotes_quote (p.1 ++ "=")).plus (denotes_stringified expr)) ih
  rw [propsListing, propsSource, plusSpace_eq]
  exact SumOf.intercalateIfAny (denotes_quote " ") heach

/-! ## Nodes -/

theorem denotes_atom {a : Atom} {origin : Provenance} (h : (IR.atom a origin).HasLiteralText) :
    Option.Rel Denotes (atomListing? a) (atomSource? a) := by
  cases a with
  | text expr buffer => exact .some ((denotes_quote "| ").plus (denotes_literal h))
  | expression expr escape buffer =>
    exact .some ((denotes_quote "= ").plus (denotes_stringified expr))
  | statement keyword expr =>
    cases keyword with
    | imports => exact .some ((denotes_quote "import ").plus (denotes_quote expr))
    | exports => exact .some ((denotes_quote "export ").plus (denotes_quote expr))
    | var => exact .some ((denotes_quote "var ").plus (denotes_quote expr))
    | const => exact .none
  | comment | codeComment | yield | filter => exact .none

/-- The nodes of a list denote their sources, if each of them does. -/
theorem denotes_nodes {depth : Nat} {nodes : List IR}
    (h : ∀ n ∈ nodes, Option.Rel Denotes (nodeListing? depth n) (nodeSource? depth n)) :
    Forall₂ Denotes (nodeListings depth nodes) (nodeSources depth nodes) := by
  induction nodes with
  | nil =>
    rw [nodeListings, nodeSources]
    exact .nil
  | cons n rest ih =>
    obtain ⟨hn, hrest⟩ := forall_mem_cons.mp h
    rw [nodeListings, nodeSources]
    -- Whether the node is listed is the same question on both sides, so it is asked once.
    generalize nodeListing? depth n = listed at hn ⊢
    generalize nodeSource? depth n = source at hn ⊢
    cases hn with
    | none => exact ih hrest
    | some hn => exact .cons hn (ih hrest)

/-- So the list does. -/
theorem denotesIfAny_listing {depth : Nat} {nodes : List IR}
    (h : Forall₂ Denotes (nodeListings depth nodes) (nodeSources depth nodes)) :
    DenotesIfAny (listing depth nodes) (pseudoSource depth nodes) := by
  rw [listing, pseudoSource, plusNewline_eq]
  exact SumOf.intercalateIfAny (denotes_quote "\n") h

/-- A tag, if its children denote their sources. -/
theorem denotes_tag {depth : Nat} (name : String) (props : Props) {children : List IR}
    (buffer : Bool) (origin : Provenance)
    (h : Forall₂ Denotes (nodeListings (depth + 1) children) (nodeSources (depth + 1) children)) :
    Option.Rel Denotes (nodeListing? depth (.tag name props children buffer origin))
      (nodeSource? depth (.tag name props children buffer origin)) := by
  have hhead : Denotes (Json.quote (name ++ "(")) (ofText name ++ ofText "(") := by
    rw [← ofText_append]
    exact denotes_quote _
  have hclose : Denotes (Json.quote ")\n") (ofText ")" ++ [lineFeed]) := denotes_quote ")\n"
  have hparts := SumOf.parts Term.source_ne_empty hhead
    (.cons (denotes_props props) (.cons (.inr hclose) (.cons (denotesIfAny_listing h) .nil)))
  -- The filter of the listing runs over the head as well, which is never empty.
  have hkeep : ([Json.quote (name ++ "("), propsListing props, Json.quote ")\n",
      listing (depth + 1) children].filter (!·.isEmpty)) = Json.quote (name ++ "(") ::
        [propsListing props, Json.quote ")\n", listing (depth + 1) children].filter
          (!·.isEmpty) :=
    filter_cons_of_pos (by simpa using hhead.ne_empty Term.source_ne_empty)
  have hsource : ofText name ++ ofText "(" ++ propsSource props ++ ofText ")" ++ [lineFeed] ++
      pseudoSource (depth + 1) children = ofText name ++ ofText "(" ++
        [propsSource props, ofText ")" ++ [lineFeed],
          pseudoSource (depth + 1) children].flatten := by
    simp only [flatten_cons, flatten_nil, append_assoc, append_nil]
  have hsum := (denotes_margin depth).plus hparts
  rw [← hkeep, ← hsource] at hsum
  rw [nodeListing?, nodeSource?]
  exact .some hsum

/-- A node denotes its source at any depth, or has none and is not listed. -/
theorem denotes_node (n : IR) (depth : Nat) (h : ∀ m ∈ n.walk, m.HasLiteralText) :
    Option.Rel Denotes (nodeListing? depth n) (nodeSource? depth n) := by
  -- The depth is not fixed, since children are listed one level deeper. Content in props is not
  -- listed, so the induction over props goes unused.
  induction n using induct generalizing depth with
  | atom a origin =>
    have hatom := denotes_atom (h _ (mem_walk.mpr (.inl rfl)))
    rw [nodeListing?, nodeSource?]
    generalize atomListing? a = listed at hatom ⊢
    generalize atomSource? a = source at hatom ⊢
    cases hatom with
    | none => exact .none
    | some hbody => exact .some ((denotes_margin depth).plus hbody)
  | group head children origin ih =>
    rw [nodeListing?, nodeSource?]
    exact .none
  | tag name props children buffer origin ih ihprops =>
    refine denotes_tag name props buffer origin (denotes_nodes fun n hn => ih n hn (depth + 1) ?_)
    intro m hm
    exact h m (mem_walk.mpr (.inr ⟨children, mem_cons_self, mem_walkAll.mpr ⟨n, hn, hm⟩⟩))

theorem isSome_nodeListing? (depth : Nat) (n : IR) :
    (nodeListing? depth n).isSome = n.isListed := by
  cases n with
  | atom a origin =>
    rw [nodeListing?, Option.isSome_map]
    cases a with
    | statement keyword expr => cases keyword <;> rfl
    | _ => rfl
  | group head children origin =>
    rw [nodeListing?]
    rfl
  | tag name props children buffer origin =>
    rw [nodeListing?]
    rfl

theorem nodeListings_eq_nil_iff (depth : Nat) {nodes : List IR} :
    nodeListings depth nodes = [] ↔ ∀ n ∈ nodes, n.isListed = false := by
  induction nodes with
  | nil => simp [nodeListings]
  | cons n rest ih =>
    rw [nodeListings, forall_mem_cons, ← ih, ← isSome_nodeListing? depth n]
    cases nodeListing? depth n <;> simp

/-! ## Listings -/

theorem denotes_nodeListings (depth : Nat) {nodes : List IR}
    (h : ∀ n ∈ walkAll nodes, n.HasLiteralText) :
    Forall₂ Denotes (nodeListings depth nodes) (nodeSources depth nodes) := by
  refine denotes_nodes fun n hn => denotes_node n depth fun m hm => ?_
  exact h m (mem_walkAll.mpr ⟨n, hn, hm⟩)

theorem denotesIfAny_of_literal (depth : Nat) {nodes : List IR}
    (h : ∀ n ∈ walkAll nodes, n.HasLiteralText) :
    DenotesIfAny (listing depth nodes) (pseudoSource depth nodes) :=
  denotesIfAny_listing (denotes_nodeListings depth h)

theorem listing_eq_empty_iff (depth : Nat) {nodes : List IR}
    (h : ∀ n ∈ walkAll nodes, n.HasLiteralText) :
    listing depth nodes = "" ↔ ∀ n ∈ nodes, n.isListed = false := by
  rw [← nodeListings_eq_nil_iff depth]
  constructor
  · intro hempty
    -- Were there a listing of some node, there would be at least one operand to read.
    by_contra hne
    have hsum := SumOf.intercalate (denotes_quote "\n") (denotes_nodeListings depth h) hne
    rw [← plusNewline_eq] at hsum
    exact hsum.ne_empty Term.source_ne_empty hempty
  · intro hnil
    rw [listing, hnil, String.intercalate_nil]

/-- The listing is empty where no node is of a kind that is listed. Otherwise it is a sum of at
least one operand, each of them a literal or a value, and it comes to the pseudo-source. -/
theorem listing_denotes (depth : Nat) (nodes : List IR)
    (h : ∀ n ∈ walkAll nodes, n.HasLiteralText) :
    (listing depth nodes = "" ↔ ∀ n ∈ nodes, n.isListed = false) ∧
      (listing depth nodes ≠ "" → ∃ terms : List Term, terms ≠ [] ∧
        listing depth nodes = " + ".intercalate (terms.map Term.source) ∧
        terms.flatMap Term.symbols = pseudoSource depth nodes) := by
  refine ⟨listing_eq_empty_iff depth h, fun hne => ?_⟩
  rcases denotesIfAny_of_literal depth h with ⟨hempty, -⟩ | hsum
  · exact absurd hempty hne
  · exact Denotes.exists_terms hsum

/-- A tag with props of every kind above half of a surrogate pair, and nodes that are not listed. -/
def halfPair : List IR :=
  [.tag "a" [("href", .value (.expr "u") none none), ("icon", .content [] none none),
      ("class", .collected ["x", "y"]), ("key", .key "name" "k")]
      [.group .otherwise [] ⟨none, none⟩, .atom (.text "\"\\ud83d\"" true) ⟨none, none⟩]
      true ⟨none, none⟩,
    .atom (.statement .const "c") ⟨none, none⟩,
    .tag "b" [] [] true ⟨none, none⟩]

theorem listing_denotes_halfPair :
    (∀ n ∈ walkAll halfPair, n.HasLiteralText) ∧ listing 1 halfPair ≠ "" ∧
      ∃ terms : List Term, terms ≠ [] ∧
        listing 1 halfPair = " + ".intercalate (terms.map Term.source) ∧
        terms.flatMap Term.symbols =
          ofText "  a(href=" ++ .hole "u" :: ofText " class=" ++ .hole "x + \" \" + y" ::
            ofText " key=" ++ .hole "k" :: ofText ")\n    | " ++ .unit 0xd83d ::
              ofText "\n  b()\n" := by
  have hliteral : ∀ n ∈ walkAll halfPair, n.HasLiteralText := by
    have htext : Json.IsLiteral "\"\\ud83d\"" := ⟨[.number ['d', '8', '3', 'd'] rfl rfl], rfl⟩
    simpa [halfPair, walkAll, walk, walkProps, HasLiteralText] using htext
  have hne : listing 1 halfPair ≠ "" := fun hempty =>
    absurd ((listing_denotes 1 halfPair hliteral).1.mp hempty _ mem_cons_self) (by decide)
  have hsource : pseudoSource 1 halfPair = ofText "  a(href=" ++ .hole "u" :: ofText " class=" ++
      .hole "x + \" \" + y" :: ofText " key=" ++ .hole "k" :: ofText ")\n    | " ++
        .unit 0xd83d :: ofText "\n  b()\n" := by
    decide +kernel
  rw [← hsource]
  exact ⟨hliteral, hne, (listing_denotes 1 halfPair hliteral).2 hne⟩

end Offside.IR
