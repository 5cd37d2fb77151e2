import Mathlib.Logic.Function.Basic
import Offside.Compile.Props
import Offside.IR.Listing
import Offside.IR.Walk
import Offside.Proofs.Ordered

/-!
# Render trees under a change of provenance

`IR.mapOrigin` reaches every node of a tree, also those in props, and touches nothing else. Nothing
that is made of trees looks at provenances: listings are the same before and after, and props are
gathered alike.
-/

set_option autoImplicit false

namespace Offside

namespace IR

/-! ## Induction over render trees -/

/-- What holds of a node as soon as it holds of its children and of all nodes in its props, holds
of every node. -/
theorem induct {P : IR → Prop} (atom : ∀ a o, P (.atom a o))
    (group : ∀ head children o, (∀ n ∈ children, P n) → P (.group head children o))
    (tag : ∀ name props children buffer o, (∀ n ∈ children, P n) →
      (∀ k nodes escaped args, (k, PropEntry.content nodes escaped args) ∈ props →
        ∀ n ∈ nodes, P n) → P (.tag name props children buffer o)) (n : IR) : P n :=
  match n with
  | .atom a o => atom a o
  | .group head children o => group head children o fun n _ => induct atom group tag n
  | .tag name props children buffer o =>
    tag name props children buffer o (fun n _ => induct atom group tag n)
      fun k nodes escaped args h n _ =>
        have := List.sizeOf_lt_of_mem h
        induct atom group tag n
termination_by sizeOf n
decreasing_by
  all_goals simp_wf
  all_goals have := List.sizeOf_lt_of_mem ‹n ∈ _›
  all_goals simp_all
  all_goals omega

end IR

/-- The entry with `g` applied in its content. -/
def PropEntry.mapOrigin (g : Provenance → Provenance) : PropEntry → PropEntry
  | .content nodes escaped args => .content (nodes.map (IR.mapOrigin g)) escaped args
  | .value v escaped args => .value v escaped args
  | .collected exprs => .collected exprs
  | .key name expr => .key name expr

namespace IR

variable (g : Provenance → Provenance)

@[simp] theorem mapOrigins_eq_map (nodes : List IR) :
    mapOrigins g nodes = nodes.map (mapOrigin g) := by
  induction nodes with
  | nil => simp [mapOrigins]
  | cons n rest ih => simp [mapOrigins, ih]

@[simp] theorem mapOriginProps_eq_map (props : Props) :
    mapOriginProps g props = props.map (Prod.map id (PropEntry.mapOrigin g)) := by
  induction props with
  | nil => simp [mapOriginProps]
  | cons p rest ih =>
    obtain ⟨k, entry⟩ := p
    cases entry <;> simp [mapOriginProps, PropEntry.mapOrigin, ih]

@[simp] theorem mapOrigin_atom (a : Atom) (o : Provenance) :
    mapOrigin g (.atom a o) = .atom a (g o) := by
  simp [mapOrigin]

@[simp] theorem mapOrigin_group (head : Group) (children : List IR) (o : Provenance) :
    mapOrigin g (.group head children o) = .group head (children.map (mapOrigin g)) (g o) := by
  simp [mapOrigin]

@[simp] theorem mapOrigin_tag (name : String) (props : Props) (children : List IR) (buffer : Bool)
    (o : Provenance) :
    mapOrigin g (.tag name props children buffer o) =
      .tag name (props.map (Prod.map id (PropEntry.mapOrigin g))) (children.map (mapOrigin g))
        buffer (g o) := by
  simp [mapOrigin]

/-! ## Changes one after the other -/

theorem mapOrigin_mapOrigin (g' : Provenance → Provenance) (n : IR) :
    (n.mapOrigin g).mapOrigin g' = n.mapOrigin (g' ∘ g) := by
  induction n using induct with
  | atom a o => simp
  | group head children o ih => simpa using ih
  | tag name props children buffer o ih ihprops =>
    simp only [mapOrigin_tag, List.map_map, tag.injEq, Function.comp_apply, true_and, and_true]
    refine ⟨List.map_congr_left fun p hp => ?_, List.map_congr_left ih⟩
    obtain ⟨k, entry⟩ := p
    cases entry with
    | content nodes escaped args =>
      simpa [PropEntry.mapOrigin] using ihprops k nodes escaped args hp
    | value v escaped args | collected exprs | key name expr => rfl

theorem shift_shift (a b : UInt64) (n : IR) : (n.shift a).shift b = n.shift (a + b) := by
  rw [shift, shift, mapOrigin_mapOrigin, shift]
  congr 1
  funext p
  simp [Provenance.shift, Function.comp_def, UInt64.add_assoc]

/-! ## Listings -/

theorem nodeListings_map (depth : Nat) {nodes : List IR}
    (h : ∀ n ∈ nodes, nodeListing? depth (n.mapOrigin g) = nodeListing? depth n) :
    nodeListings depth (nodes.map (mapOrigin g)) = nodeListings depth nodes := by
  induction nodes with
  | nil => rfl
  | cons n rest ih =>
    have hrest := ih fun m hm => h m (List.mem_cons_of_mem _ hm)
    simp only [List.map_cons, nodeListings, h n List.mem_cons_self, hrest]

theorem propsListing_map (props : Props) :
    propsListing (props.map (Prod.map id (PropEntry.mapOrigin g))) = propsListing props := by
  have hexpr (entry : PropEntry) : propExpr? (entry.mapOrigin g) = propExpr? entry := by
    cases entry <;> rfl
  simp only [propsListing, List.filterMap_map]
  congr 2
  funext p
  simp [hexpr]

theorem nodeListing?_mapOrigin (depth : Nat) (n : IR) :
    nodeListing? depth (n.mapOrigin g) = nodeListing? depth n := by
  induction n using induct generalizing depth with
  | atom a o => simp [nodeListing?]
  | group head children o ih => simp [nodeListing?]
  | tag name props children buffer o ih _ =>
    simp only [mapOrigin_tag, nodeListing?, propsListing_map,
      nodeListings_map g (depth + 1) fun n hn => ih n hn (depth + 1)]

/-- A listing does not show where its nodes come from. -/
@[simp] theorem listing_map (depth : Nat) (nodes : List IR) :
    listing depth (nodes.map (mapOrigin g)) = listing depth nodes := by
  rw [listing, nodeListings_map g depth fun n _ => nodeListing?_mapOrigin g depth n, listing]

end IR

/-! ## Props -/

namespace Props

variable (g : Provenance → Provenance)

@[simp] theorem collect?_mapOrigin (entry : PropEntry) :
    collect? (entry.mapOrigin g) = collect? entry := by
  cases entry <;> rfl

theorem collected_map (p : String → Bool) (given : List (String × PropEntry)) :
    collected p (given.map (Prod.map id (PropEntry.mapOrigin g))) = collected p given := by
  simp [collected, List.filter_map, List.filterMap_map, Function.comp_def]

theorem insertCollected_map (key : String) (exprs : List String) (props : Props) :
    insertCollected key exprs (props.map (Prod.map id (PropEntry.mapOrigin g))) =
      (insertCollected key exprs props).map (Prod.map id (PropEntry.mapOrigin g)) := by
  unfold insertCollected
  split
  · rfl
  · exact Ordered.insert_map (PropEntry.mapOrigin g) key (.collected exprs) props

theorem gather_map (given : List (String × PropEntry)) (spreads : List String) :
    gather (given.map (Prod.map id (PropEntry.mapOrigin g))) spreads =
      (gather given spreads).map (Prod.map id (PropEntry.mapOrigin g)) := by
  have hplain : (given.map (Prod.map id (PropEntry.mapOrigin g))).filter
        (fun e => !Attr.collects e.1) =
      (given.filter fun e => !Attr.collects e.1).map (Prod.map id (PropEntry.mapOrigin g)) := by
    simp [List.filter_map, Function.comp_def]
  simp only [gather, hplain, collected_map, Ordered.ofPairs_map, insertCollected_map]

theorem namePath_map (given : List (String × PropEntry)) :
    namePath (given.map (Prod.map id (PropEntry.mapOrigin g))) =
      (namePath given).map (Prod.map id (PropEntry.mapOrigin g)) := by
  cases given with
  | nil => rfl
  | cons p rest =>
    obtain ⟨name, entry⟩ := p
    -- Only a flag that is set is looked at; it stays a flag that is set.
    cases entry with
    | value v escaped args =>
      cases v with
      | flag on =>
        cases on with
        | true =>
          simp only [List.map_cons, Prod.map_apply, id, PropEntry.mapOrigin, namePath]
          split <;> rfl
        | false => rfl
      | expr e => rfl
    | content nodes escaped args | collected exprs | key key expr => rfl

theorem gatherPhrase_map (given : List (String × PropEntry)) (spreads : List String) :
    gatherPhrase (given.map (Prod.map id (PropEntry.mapOrigin g))) spreads =
      (gatherPhrase given spreads).map (Prod.map id (PropEntry.mapOrigin g)) := by
  rw [gatherPhrase, namePath_map, gather_map, gatherPhrase]

end Props

end Offside
