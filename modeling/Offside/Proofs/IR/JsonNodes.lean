import Offside.Proofs.IR.Lossless
import Offside.Proofs.IR.Visitor

/-!
# Nodes in JSON

A node in JSON is an object that says its type. From the JSON alone, without a word on the kinds of
nodes there are, one can tell which nodes there are and in which order (`Json.nodes`), and can
change where they come from (`Json.mapOrigin`). A walk over the tree does the same: it meets these
nodes in this order, and what it changes is what is changed there (`IR.nodes_toJson`,
`IR.mapOrigin_toJson`).

Two other things in the JSON of a tree look like nodes if one is careless. Props may have the name
`type`, but they hold objects. The attributes of a filter may have it too, and hold texts, so
nothing is looked for in them.
-/

set_option autoImplicit false

namespace Offside

open List Json

namespace Json

/-- The fields are those of a node: they have a type that is a text. Props may have the name `type`
too, but never hold a text. -/
def isNode (fields : List (String × Json)) : Bool :=
  match Ordered.get? "type" fields with
  | some (.str _) => true
  | _ => false

mutual
/-- The nodes in a value, in the order they are written. The attributes of a filter are not looked
into, since they may have any names. -/
def nodes : Json → List Json
  | .bool _ | .num _ | .str _ => []
  | .arr items => nodesOfItems items
  | .obj fields =>
    if isNode fields then .obj fields :: nodesOfFields true fields else nodesOfFields false fields

/-- The nodes in the items of an array. -/
def nodesOfItems : List Json → List Json
  | [] => []
  | v :: rest => nodes v ++ nodesOfItems rest

/-- The nodes in the fields of an object, which may be a node itself. -/
def nodesOfFields (inNode : Bool) : List (String × Json) → List Json
  | [] => []
  | (k, v) :: rest => (if inNode && k == "attrs" then [] else nodes v) ++ nodesOfFields inNode rest
end

/-- The line in the fields of a node, if it is known. -/
def lineAt? (fields : List (String × Json)) : Option UInt64 :=
  match Ordered.get? "line" fields with
  | some (.num n) => some (.ofNat n)
  | _ => none

/-- Where a node with these fields comes from. -/
def originAt (fields : List (String × Json)) : Provenance :=
  ⟨lineAt? fields, textAt? fields "filename"⟩

/-- The field is one of those that say where a node comes from. -/
def isOrigin (field : String × Json) : Bool :=
  field.1 == "line" || field.1 == "filename"

mutual
/-- The value with `g` applied to the provenance of every node in it. -/
def mapOrigin (g : Provenance → Provenance) : Json → Json
  | .bool b => .bool b
  | .num n => .num n
  | .str s => .str s
  | .arr items => .arr (mapOriginItems g items)
  | .obj fields =>
    if isNode fields then
      .obj ((mapOriginFields g true fields).filter (!isOrigin ·) ++ (g (originAt fields)).fields)
    else .obj (mapOriginFields g false fields)

/-- The items of an array with `g` applied in each of them. -/
def mapOriginItems (g : Provenance → Provenance) : List Json → List Json
  | [] => []
  | v :: rest => mapOrigin g v :: mapOriginItems g rest

/-- The fields of an object, which may be a node itself, with `g` applied in what they hold. -/
def mapOriginFields (g : Provenance → Provenance) (inNode : Bool) :
    List (String × Json) → List (String × Json)
  | [] => []
  | (k, v) :: rest =>
    (k, if inNode && k == "attrs" then v else mapOrigin g v) :: mapOriginFields g inNode rest
end

section

variable (g : Provenance → Provenance) (inNode : Bool)

@[simp] theorem nodes_bool (b : Bool) : (bool b).nodes = [] := rfl

@[simp] theorem nodes_str (s : String) : (str s).nodes = [] := rfl

@[simp] theorem nodes_arr (items : List Json) : (arr items).nodes = items.flatMap nodes := by
  have hitems : nodesOfItems items = items.flatMap nodes := by
    induction items with
    | nil => rfl
    | cons v rest ih => rw [nodesOfItems, ih, flatMap_cons]
  rw [nodes, hitems]

theorem nodes_obj {fields : List (String × Json)} (h : isNode fields = false) :
    (obj fields).nodes = nodesOfFields false fields := by
  rw [nodes, h, if_neg Bool.false_ne_true]

theorem nodes_obj_node {fields : List (String × Json)} (h : isNode fields = true) :
    (obj fields).nodes = obj fields :: nodesOfFields true fields := by
  rw [nodes, if_pos h]

@[simp] theorem mapOrigin_bool (b : Bool) : (bool b).mapOrigin g = bool b := rfl

@[simp] theorem mapOrigin_str (s : String) : (str s).mapOrigin g = str s := rfl

@[simp] theorem mapOrigin_arr (items : List Json) :
    (arr items).mapOrigin g = arr (items.map (mapOrigin g)) := by
  have hitems : mapOriginItems g items = items.map (mapOrigin g) := by
    induction items with
    | nil => rfl
    | cons v rest ih => rw [mapOriginItems, ih, map_cons]
  rw [mapOrigin, hitems]

theorem mapOrigin_obj {fields : List (String × Json)} (h : isNode fields = false) :
    (obj fields).mapOrigin g = obj (mapOriginFields g false fields) := by
  rw [mapOrigin, h, if_neg Bool.false_ne_true]

theorem mapOrigin_obj_node {fields : List (String × Json)} (h : isNode fields = true) :
    (obj fields).mapOrigin g =
      obj ((mapOriginFields g true fields).filter (!isOrigin ·) ++
        (g (originAt fields)).fields) := by
  rw [mapOrigin, if_pos h]

theorem nodesOfFields_append (fields rest : List (String × Json)) :
    nodesOfFields inNode (fields ++ rest) =
      nodesOfFields inNode fields ++ nodesOfFields inNode rest := by
  induction fields with
  | nil => rfl
  | cons p fields ih =>
    obtain ⟨k, v⟩ := p
    rw [cons_append, nodesOfFields, ih, nodesOfFields, append_assoc]

theorem mapOriginFields_append (fields rest : List (String × Json)) :
    mapOriginFields g inNode (fields ++ rest) =
      mapOriginFields g inNode fields ++ mapOriginFields g inNode rest := by
  induction fields with
  | nil => rfl
  | cons p fields ih =>
    obtain ⟨k, v⟩ := p
    rw [cons_append, mapOriginFields, ih, mapOriginFields, cons_append]

/-- There are no nodes in the fields. -/
def IsPlain (fields : List (String × Json)) : Prop :=
  nodesOfFields inNode fields = [] ∧ mapOriginFields g inNode fields = fields

end

end Json

theorem Provenance.isPlain_fields (g : Provenance → Provenance) (inNode : Bool) (o : Provenance) :
    Json.IsPlain g inNode o.fields := by
  obtain ⟨line, filename⟩ := o
  constructor
  · cases line <;> cases filename <;> simp [fields, field?, str?, nodesOfFields, nodes]
  · cases line <;> cases filename <;> simp [fields, field?, str?, mapOriginFields, Json.mapOrigin]

theorem Atom.isPlain_fields (g : Provenance → Provenance) (a : Atom) :
    Json.IsPlain g true a.fields := by
  constructor
  · cases a with
    | yield name args => cases name <;> cases args <;> simp [fields, field?, str?, nodesOfFields]
    | _ => simp [fields, nodesOfFields]
  · cases a with
    | yield name args => cases name <;> cases args <;> simp [fields, field?, str?, mapOriginFields]
    | _ => simp [fields, mapOriginFields]

theorem Group.nodesOfFields_fields (children : Json) (head : Group) :
    nodesOfFields true (head.fields children) = children.nodes := by
  cases head with
  | slot name args => cases args <;> simp [fields, field?, str?, nodesOfFields]
  | _ => simp [fields, nodesOfFields]

theorem Group.mapOriginFields_fields (g : Provenance → Provenance) (children : Json)
    (head : Group) :
    mapOriginFields g true (head.fields children) = head.fields (children.mapOrigin g) := by
  cases head with
  | slot name args => cases args <;> simp [fields, field?, str?, mapOriginFields]
  | _ => simp [fields, mapOriginFields]

/-! ### Props -/

namespace PropEntry

variable (g : Provenance → Provenance)

theorem isPlain_options (escaped : Option Bool) (args : Option String) :
    IsPlain g false (options escaped args) := by
  constructor
  · cases escaped <;> cases args <;> simp [options, field?, str?, nodesOfFields]
  · cases escaped <;> cases args <;> simp [options, field?, str?, mapOriginFields]

/-- An entry is no node. -/
theorem isNode_options (v : Json) (escaped : Option Bool) (args : Option String) :
    isNode (("expression", v) :: options escaped args) = false := by
  cases escaped <;> cases args <;> simp [options, field?, str?, isNode, Ordered.get?]

theorem nodes_toJson (entry : PropEntry) :
    entry.toJson.nodes = (entry.content?.getD []).flatMap fun n => n.toJson.nodes := by
  cases entry with
  | value v escaped args =>
    rw [toJson, nodes_obj (isNode_options ..), nodesOfFields, (isPlain_options id escaped args).1]
    cases v <;> rfl
  | content nodes escaped args =>
    rw [toJson, nodes_obj (isNode_options ..), nodesOfFields, (isPlain_options id escaped args).1]
    simp [content?, flatMap_map]
  | collected exprs =>
    rw [toJson, nodes_obj rfl]
    simp [nodesOfFields, content?, flatMap_map]
  | key name expr =>
    rw [toJson, nodes_obj rfl]
    simp [nodesOfFields, content?]

theorem mapOrigin_toJson {entry : PropEntry}
    (h : ∀ n ∈ entry.content?.getD [], n.toJson.mapOrigin g = (n.mapOrigin g).toJson) :
    entry.toJson.mapOrigin g = (entry.mapOrigin g).toJson := by
  cases entry with
  | value v escaped args =>
    rw [toJson, mapOrigin_obj g (isNode_options ..), mapOriginFields,
      (isPlain_options g escaped args).2]
    cases v <;> rfl
  | content nodes escaped args =>
    rw [toJson, mapOrigin_obj g (isNode_options ..), mapOriginFields,
      (isPlain_options g escaped args).2]
    simpa [mapOrigin, toJson, content?] using h
  | collected exprs =>
    rw [toJson, mapOrigin_obj g rfl]
    simp [mapOriginFields, mapOrigin, toJson]
  | key name expr =>
    rw [toJson, mapOrigin_obj g rfl]
    simp [mapOriginFields, mapOrigin, toJson]

end PropEntry

namespace Props

/-- Props are no node, whatever their names. -/
theorem isNode_toJson (props : Props) :
    isNode (props.map (Prod.map id PropEntry.toJson)) = false := by
  rw [isNode, Ordered.get?_map]
  cases Ordered.get? "type" props with
  | none => rfl
  | some entry => cases entry <;> rfl

theorem nodes_toJson (props : Props) :
    (Json.obj (props.map (Prod.map id PropEntry.toJson))).nodes =
      (contents props).flatten.flatMap fun n => n.toJson.nodes := by
  rw [nodes_obj (isNode_toJson props)]
  induction props with
  | nil => rfl
  | cons p rest ih =>
    rw [map_cons, Prod.map_apply, nodesOfFields, ih, flatten_contents_cons, flatMap_append,
      ← PropEntry.nodes_toJson]
    rfl

theorem mapOrigin_toJson (g : Provenance → Provenance) {props : Props}
    (h : ∀ n ∈ (contents props).flatten, n.toJson.mapOrigin g = (n.mapOrigin g).toJson) :
    (Json.obj (props.map (Prod.map id PropEntry.toJson))).mapOrigin g =
      .obj ((props.map (Prod.map id (PropEntry.mapOrigin g))).map
        (Prod.map id PropEntry.toJson)) := by
  rw [mapOrigin_obj g (isNode_toJson props)]
  congr 1
  induction props with
  | nil => rfl
  | cons p rest ih =>
    rw [flatten_contents_cons, forall_mem_append] at h
    rw [map_cons, Prod.map_apply, mapOriginFields, ih h.2, map_cons, map_cons, Prod.map_apply,
      Prod.map_apply, ← PropEntry.mapOrigin_toJson g h.1]
    rfl

end Props

namespace IR

/-! ### Trees -/

/-- The fields of a node that stand between its type and its provenance. -/
def ownFields : IR → List (String × Json)
  | .atom a _ => a.fields
  | .group head children _ => head.fields (.arr (children.map toJson))
  | .tag name props children buffer _ =>
    [("name", .str name), ("props", .obj (props.map (Prod.map id PropEntry.toJson))),
      ("children", .arr (children.map toJson)), ("buffer", .bool buffer)]

theorem toJson_eq (n : IR) :
    n.toJson = .obj (("type", .str n.typeName) :: (n.ownFields ++ n.origin.fields)) := by
  cases n with
  | atom a o => exact toJson_atom a o
  | group head children o => exact toJson_group head children o
  | tag name props children buffer o => exact toJson_tag name props children buffer o

/-- Only the last fields of a node say where it comes from. -/
theorem isOrigin_of_mem_ownFields {n : IR} : ∀ p ∈ n.ownFields, isOrigin p = false := by
  cases n with
  | atom a o =>
    cases a with
    | yield name args =>
      cases name <;> cases args <;> simp [ownFields, Atom.fields, field?, str?, isOrigin]
    | _ => simp [ownFields, Atom.fields, isOrigin]
  | group head children o =>
    cases head with
    | slot name args => cases args <;> simp [ownFields, Group.fields, field?, str?, isOrigin]
    | _ => simp [ownFields, Group.fields, isOrigin]
  | tag name props children buffer o => simp [ownFields, isOrigin]

end IR

/-- The provenance of a node can be read off its fields. -/
theorem Provenance.originAt_fields (o : Provenance) {fields : List (String × Json)}
    (h : ∀ p ∈ fields, isOrigin p = false) : originAt (fields ++ o.fields) = o := by
  have hline : ∀ p ∈ fields, p.1 ≠ "line" := by
    intro p hp heq
    simpa [isOrigin, heq] using h p hp
  have hfile : ∀ p ∈ fields, p.1 ≠ "filename" := by
    intro p hp heq
    simpa [isOrigin, heq] using h p hp
  rw [originAt, lineAt?, textAt?, Ordered.get?_append_of_forall_ne hline,
    Ordered.get?_append_of_forall_ne hfile]
  obtain ⟨line, filename⟩ := o
  cases line <;> cases filename <;> simp [Provenance.fields, field?, str?, Ordered.get?]

theorem Provenance.filter_fields (o : Provenance) : o.fields.filter (!isOrigin ·) = [] := by
  obtain ⟨line, filename⟩ := o
  cases line <;> cases filename <;> simp [fields, field?, str?, isOrigin]

namespace IR

theorem nodes_ownFields (n : IR) :
    nodesOfFields true n.ownFields = n.held.flatMap fun c => c.toJson.nodes := by
  cases n with
  | atom a o => exact (Atom.isPlain_fields id a).1
  | group head children o =>
    rw [ownFields, Group.nodesOfFields_fields, nodes_arr, flatMap_map, held]
  | tag name props children buffer o =>
    simp [ownFields, nodesOfFields, Props.nodes_toJson, flatMap_map, held]

/-- The nodes in the JSON of a tree are those of the tree, in the order they are walked. -/
theorem nodes_toJson (n : IR) : n.toJson.nodes = n.walk.map toJson := by
  induction n using induct_held with
  | h n ih =>
    have horigin := (n.origin.isPlain_fields id true).1
    rw [walk_eq_cons, map_cons, map_flatMap, toJson_eq, nodes_obj_node rfl, nodesOfFields,
      nodesOfFields_append, nodes_ownFields, horigin, ← toJson_eq, append_nil]
    congr 1
    exact flatMap_congr ih

theorem mapOrigin_ownFields (g : Provenance → Provenance) {n : IR}
    (h : ∀ c ∈ n.held, c.toJson.mapOrigin g = (c.mapOrigin g).toJson) :
    mapOriginFields g true n.ownFields = (n.mapOrigin g).ownFields := by
  cases n with
  | atom a o =>
    rw [mapOrigin_atom]
    exact (Atom.isPlain_fields g a).2
  | group head children o =>
    have hchildren := map_congr_left h
    rw [ownFields, Group.mapOriginFields_fields, mapOrigin_arr, mapOrigin_group, ownFields, map_map,
      map_map]
    exact congrArg (fun items => head.fields (.arr items)) hchildren
  | tag name props children buffer o =>
    obtain ⟨hprops, hchildren⟩ := forall_mem_append.mp h
    simp [ownFields, mapOriginFields, Props.mapOrigin_toJson g hprops]
    exact hchildren

theorem typeName_mapOrigin (g : Provenance → Provenance) (n : IR) :
    (n.mapOrigin g).typeName = n.typeName := by
  cases n <;> simp [typeName]

/-- To change provenances in a tree is to change them in its JSON. -/
theorem mapOrigin_toJson (g : Provenance → Provenance) (n : IR) :
    n.toJson.mapOrigin g = (n.mapOrigin g).toJson := by
  induction n using induct_held with
  | h n ih =>
    -- The fields in front of the provenance, before and after.
    have hown (m : IR) : ∀ p ∈ ("type", .str m.typeName) :: m.ownFields, isOrigin p = false :=
      forall_mem_cons.mpr ⟨rfl, isOrigin_of_mem_ownFields⟩
    have hfields : mapOriginFields g true
        (("type", .str n.typeName) :: n.ownFields ++ n.origin.fields) =
          ("type", .str n.typeName) :: (n.mapOrigin g).ownFields ++ n.origin.fields := by
      rw [mapOriginFields_append, mapOriginFields, mapOrigin_ownFields g ih,
        (n.origin.isPlain_fields g true).2]
      rfl
    have hkept : (("type", .str n.typeName) :: (n.mapOrigin g).ownFields).filter (!isOrigin ·) =
        ("type", .str n.typeName) :: (n.mapOrigin g).ownFields := by
      rw [filter_eq_self, ← typeName_mapOrigin g n]
      intro p hp
      rw [hown _ p hp]
      rfl
    rw [toJson_eq, toJson_eq, ← cons_append, mapOrigin_obj_node g rfl,
      n.origin.originAt_fields (hown n), hfields, filter_append, hkept, Provenance.filter_fields,
      append_nil, typeName_mapOrigin, origin_mapOrigin]
    rfl

/-- A shift moves the lines that are known, and leaves the others unknown. -/
theorem line_walk_shift (offset : UInt64) (n : IR) :
    (n.shift offset).walk.map (·.origin.line) =
      n.walk.map (·.origin.line.map (· + offset)) := by
  rw [shift, walk_mapOrigin, map_map]
  apply map_congr_left
  intro k _
  rw [Function.comp_apply, origin_mapOrigin, Provenance.shift]

/-- A walk that applies `g` to provenances meets every node of a tree once: the node itself, then
the content in its props, then its children. These are the nodes in the JSON of the tree, and the
tree that comes out is the one in whose JSON `g` is applied to each of them and all else is as
before. -/
theorem walkWith_reaches_nodes (n : IR) (g : Provenance → Provenance) :
    (∀ (m : Type → Type) [Monad m] [LawfulMonad m] (note : IR → m Unit),
      n.walkWith (relabeling note g) = do
        n.walk.forM note
        return n.mapOrigin g) ∧
    n.walk = n :: n.held.flatMap walk ∧
    n.toJson.nodes = n.walk.map toJson ∧
    (∀ n' : IR, n'.toJson = n.toJson.mapOrigin g ↔ n' = n.mapOrigin g) ∧
    (∀ a b : UInt64, (n.shift a).shift b = n.shift (a + b)) ∧
    (∀ a : UInt64, (n.shift a).walk.map (·.origin.line) =
      n.walk.map (·.origin.line.map (· + a))) ∧
    ∀ (depth : Nat) (nodes : List IR),
      listing depth (nodes.map (mapOrigin g)) = listing depth nodes := by
  refine ⟨fun m _ _ note => walkWith_relabeling n, walk_eq_cons n, nodes_toJson n, ?_,
    fun a b => shift_shift a b n, fun a => line_walk_shift a n, listing_map g⟩
  intro n'
  rw [mapOrigin_toJson]
  exact ⟨toJson_inj n' _, fun h => h ▸ rfl⟩

-- The content of a prop is met before the child, and the unknown line of the tag stays unknown.
example :
    let text (line : UInt64) : IR := .atom (.text "t" true) ⟨some line, none⟩
    let card : IR :=
      .tag "Card" [("head", .content [text 5] none none)] [text 2] true ⟨none, none⟩
    (card.shift 10).walk.map (·.origin.line) = [none, some 15, some 12] := by
  rfl

end IR

end Offside
