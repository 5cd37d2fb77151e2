import Offside.Compile.FrontEnd
import Offside.Proofs.IR.Origin
import Offside.Proofs.Json.Document
import Offside.Proofs.Ordered

/-!
# Nothing is lost in the output

The output is the JSON of the render nodes between two words. Props and attribute values are written
without saying what kind they are, and fields that are not set are left out. Still the JSON tells
everything: two lists of nodes with the same JSON are equal (`allToJson_injective`), so the output,
in either rendering, says which nodes it was made of (`artifact_lossless`).

An optional field can be told from what follows it, because no field after it has its name.
-/

set_option autoImplicit false

namespace Offside

open List Json

/-! ## Fields -/

namespace Json

variable {name : String} {x x' : Option Json} {rest rest' : List (String × Json)}

@[simp] theorem get?_field?_append (key name : String) (x : Option Json)
    (rest : List (String × Json)) :
    Ordered.get? key (field? name x ++ rest) =
      if name = key then x <|> Ordered.get? key rest else Ordered.get? key rest := by
  cases x with
  | none => simp [field?]
  | some v => simp [field?]

/-- An optional field is told from what follows, where its name does not come again. -/
theorem field?_append_inj (hrest : Ordered.get? name rest = none)
    (hrest' : Ordered.get? name rest' = none)
    (h : field? name x ++ rest = field? name x' ++ rest') : x = x' ∧ rest = rest' := by
  have hget := congrArg (Ordered.get? name) h
  rw [get?_field?_append, get?_field?_append, if_pos rfl, if_pos rfl, hrest, hrest'] at hget
  obtain rfl : x = x' := by simpa using hget
  exact ⟨rfl, append_cancel_left h⟩

theorem field?_inj (h : field? name x = field? name x') : x = x' := by
  rw [← append_nil (field? name x), ← append_nil (field? name x')] at h
  exact (field?_append_inj rfl rfl h).1

theorem str?_inj {s s' : Option String} (h : str? s = str? s') : s = s' :=
  Option.map_injective (fun _ _ hstr => Json.str.inj hstr) h

end Json

@[simp] theorem Provenance.get?_fields {key : String} (hline : key ≠ "line")
    (hfile : key ≠ "filename") (o : Provenance) : Ordered.get? key o.fields = none := by
  have happend := get?_field?_append key "filename" (str? o.filename) []
  rw [append_nil, if_neg hfile.symm] at happend
  rw [fields, get?_field?_append, if_neg hline.symm, happend]
  rfl

theorem Provenance.fields_inj {o o' : Provenance} (h : o.fields = o'.fields) : o = o' := by
  have hnone (s : Option String) : Ordered.get? "line" (field? "filename" (str? s)) = none := by
    cases s <;> rfl
  obtain ⟨hline, hfile⟩ := field?_append_inj (hnone o.filename) (hnone o'.filename) h
  have hnum : Function.Injective fun l : UInt64 => Json.num l.toNat :=
    fun _ _ hl => UInt64.toNat.inj (Json.num.inj hl)
  obtain ⟨line, filename⟩ := o
  obtain ⟨line', filename'⟩ := o'
  obtain rfl : line = line' := Option.map_injective hnum hline
  obtain rfl : filename = filename' := str?_inj (field?_inj hfile)
  rfl

/-! ## Reading atoms and groups -/

namespace Json

/-- The text in a field, if there is one. -/
def textAt? (fields : List (String × Json)) (key : String) : Option String :=
  match Ordered.get? key fields with
  | some (.str s) => some s
  | _ => none

/-- The text in a field that is always there. -/
def textAt (fields : List (String × Json)) (key : String) : String :=
  (textAt? fields key).getD ""

/-- The truth value in a field. -/
def flagAt (fields : List (String × Json)) (key : String) : Bool :=
  match Ordered.get? key fields with
  | some (.bool b) => b
  | _ => false

theorem textAt?_field? {fields : List (String × Json)} (rest : List (String × Json)) {key : String}
    {s : Option String} (h : Ordered.get? key fields = (str? s <|> Ordered.get? key rest))
    (hrest : Ordered.get? key rest = none) : textAt? fields key = s := by
  rw [textAt?, h, hrest]
  cases s <;> rfl

end Json

def Keyword.read (word : String) : Keyword :=
  if word = "import" then .imports
  else if word = "export" then .exports
  else if word = "var" then .var
  else .const

def AttrValue.read : Json → AttrValue
  | .str text => .expr text
  | .bool on => .flag on
  | _ => .flag false

def Atom.readAttrs (fields : List (String × Json)) : Ordered AttrValue :=
  match Ordered.get? "attrs" fields with
  | some (.obj attrs) => attrs.map (Prod.map id AttrValue.read)
  | _ => []

/-- The atom of a type with these fields. -/
def Atom.read (type : String) (fields : List (String × Json)) : Atom :=
  if type = "text" then .text (textAt fields "expression") (flagAt fields "buffer")
  else if type = "expression" then
    .expression (textAt fields "expression") (flagAt fields "escape") (flagAt fields "buffer")
  else if type = "comment" then .comment (textAt fields "value")
  else if type = "js_comment" then .codeComment (textAt fields "value")
  else if type = "yield" then .yield (textAt? fields "name") (textAt? fields "args")
  else if type = "filter" then
    .filter (textAt fields "name") (readAttrs fields) (textAt fields "content")
  else .statement (.read type) (textAt fields "expression")

/-- The group of a type with these fields. -/
def Group.read (type : String) (fields : List (String × Json)) : Group :=
  if type = "if" then .ifThen (textAt fields "expression")
  else if type = "unless" then .ifNot (textAt fields "expression")
  else if type = "elseif" then .elseIf (textAt fields "expression")
  else if type = "else" then .otherwise
  else if type = "switch" then .switch (textAt fields "expression") (flagAt fields "buffer")
  else if type = "case" then .caseOf (textAt fields "expression") (flagAt fields "buffer")
  else if type = "default" then .whenDefault (flagAt fields "buffer")
  else if type = "for" then .loop (textAt fields "expression") (flagAt fields "buffer")
  else if type = "each" then
    .each (textAt fields "key") (textAt fields "value") (textAt fields "expression")
      (flagAt fields "buffer")
  else if type = "function" then .function (textAt fields "expression") (flagAt fields "buffer")
  else .slot (textAt fields "name") (textAt? fields "args")

theorem Atom.readAttrs_eq {fields : List (String × Json)} {attrs : Ordered AttrValue}
    (h : Ordered.get? "attrs" fields = some (.obj (attrs.map fun p => (p.1, p.2.toJson)))) :
    readAttrs fields = attrs := by
  have hread (v : AttrValue) : AttrValue.read v.toJson = v := by
    cases v <;> rfl
  rw [readAttrs, h]
  simp [Function.comp_def, hread]

theorem Atom.read_fields (a : Atom) (o : Provenance) :
    read a.typeName (a.fields ++ o.fields) = a := by
  cases a with
  | text e buffer => simp [read, typeName, fields, textAt, textAt?, flagAt]
  | expression e escape buffer => simp [read, typeName, fields, textAt, textAt?, flagAt]
  | statement k e =>
    cases k <;> simp [read, typeName, fields, textAt, textAt?, Keyword.word, Keyword.read]
  | comment v | codeComment v => simp [read, typeName, fields, textAt, textAt?]
  | yield name args =>
    have hname : textAt? (fields (.yield name args) ++ o.fields) "name" = name :=
      textAt?_field? (field? "args" (str? args) ++ o.fields) (by simp [fields]) (by simp)
    have hargs : textAt? (fields (.yield name args) ++ o.fields) "args" = args :=
      textAt?_field? o.fields (by simp [fields]) (by simp)
    simp [read, typeName, hname, hargs]
  | filter name attrs content =>
    have hname : textAt (fields (.filter name attrs content) ++ o.fields) "name" = name := by
      simp [fields, textAt, textAt?]
    have hattrs : readAttrs (fields (.filter name attrs content) ++ o.fields) = attrs :=
      readAttrs_eq (by simp [fields])
    have hcontent :
        textAt (fields (.filter name attrs content) ++ o.fields) "content" = content := by
      simp [fields, textAt, textAt?]
    simp [read, typeName, hname, hattrs, hcontent]

theorem Group.read_fields (g : Group) (children : Json) (o : Provenance) :
    read g.typeName (g.fields children ++ o.fields) = g := by
  cases g with
  | slot name args =>
    have hname : textAt (fields children (.slot name args) ++ o.fields) "name" = name := by
      simp [fields, textAt, textAt?]
    have hargs : textAt? (fields children (.slot name args) ++ o.fields) "args" = args :=
      textAt?_field? o.fields (by simp [fields]) (by simp)
    simp [read, typeName, hname, hargs]
  | _ => simp [read, typeName, fields, textAt, textAt?, flagAt]

/-- The type and the fields of an atom tell what it is and where it comes from. -/
theorem Atom.fields_inj {a a' : Atom} {o o' : Provenance} (htype : a.typeName = a'.typeName)
    (h : a.fields ++ o.fields = a'.fields ++ o'.fields) : a = a' ∧ o = o' := by
  -- Both are read off the same type and fields; the fields of the places are then what is left.
  obtain rfl : a = a' := by
    rw [← read_fields a o, htype, h, read_fields]
  exact ⟨rfl, Provenance.fields_inj (append_cancel_left h)⟩

/-- The type and the fields of a group tell what it is, what it holds and where it comes from. -/
theorem Group.fields_inj {g g' : Group} {children children' : Json} {o o' : Provenance}
    (htype : g.typeName = g'.typeName)
    (h : g.fields children ++ o.fields = g'.fields children' ++ o'.fields) :
    g = g' ∧ children = children' ∧ o = o' := by
  obtain rfl : g = g' := by
    rw [← read_fields g children o, htype, h, read_fields]
  have hchildren (c : Json) (o : Provenance) :
      Ordered.get? "children" (g.fields c ++ o.fields) = some c := by
    cases g <;> simp [fields]
  obtain rfl : children = children' := by
    have hget := congrArg (Ordered.get? "children") h
    rw [hchildren, hchildren] at hget
    exact Option.some.inj hget
  exact ⟨rfl, rfl, Provenance.fields_inj (append_cancel_left h)⟩

/-! ## Props -/

/-- An entry of props as JSON. -/
def PropEntry.toJson : PropEntry → Json
  | .value v escaped args => .obj (("expression", v.toJson) :: options escaped args)
  | .content nodes escaped args =>
    .obj (("expression", .arr (nodes.map IR.toJson)) :: options escaped args)
  | .collected exprs => .obj [("expressions", .arr (exprs.map .str))]
  | .key name e => .obj [("name", .str name), ("expression", .str e)]

theorem IR.listToJson_eq_map (nodes : List IR) : listToJson nodes = nodes.map toJson := by
  induction nodes with
  | nil => rfl
  | cons n rest ih => rw [listToJson, ih, map_cons]

theorem IR.propsToJson_eq_map (props : Props) :
    propsToJson props = props.map (Prod.map id PropEntry.toJson) := by
  induction props with
  | nil => rfl
  | cons p rest ih =>
    obtain ⟨k, entry⟩ := p
    cases entry <;> simp [propsToJson, PropEntry.toJson, listToJson_eq_map, ih]

/-- A list can be read off its image if each of its items can. -/
theorem eq_of_map_eq {α β : Type} {f : α → β} {xs ys : List α}
    (h : ∀ x ∈ xs, ∀ y, f x = f y → x = y) (heq : xs.map f = ys.map f) : xs = ys := by
  induction xs generalizing ys with
  | nil => exact (map_eq_nil_iff.mp heq.symm).symm
  | cons x rest ih =>
    cases ys with
    | nil => cases heq
    | cons y ys =>
      obtain ⟨hfirst, hrest⟩ := cons.inj heq
      rw [h x mem_cons_self y hfirst, ih (fun z hz => h z (mem_cons_of_mem _ hz)) hrest]

theorem PropEntry.options_inj {escaped escaped' : Option Bool} {args args' : Option String}
    (h : options escaped args = options escaped' args') : escaped = escaped' ∧ args = args' := by
  have hnone (s : Option String) : Ordered.get? "escaped" (field? "args" (str? s)) = none := by
    cases s <;> rfl
  obtain ⟨hescaped, hargs⟩ := field?_append_inj (hnone args) (hnone args') h
  exact ⟨Option.map_injective (fun _ _ hbool => Json.bool.inj hbool) hescaped,
    str?_inj (field?_inj hargs)⟩

theorem AttrValue.toJson_inj {v v' : AttrValue} (h : v.toJson = v'.toJson) : v = v' := by
  cases v <;> cases v' <;> cases h <;> rfl

/-- The nodes of a list can be read off their JSON if each of them can. -/
theorem IR.arr_inj {nodes nodes' : List IR}
    (hnodes : ∀ n ∈ nodes, ∀ n', n.toJson = n'.toJson → n = n')
    (h : Json.arr (nodes.map toJson) = Json.arr (nodes'.map toJson)) : nodes = nodes' :=
  eq_of_map_eq hnodes (Json.arr.inj h)

/-- An entry can be read off its JSON if the nodes in it can. -/
theorem PropEntry.toJson_inj {entry entry' : PropEntry}
    (hnodes : ∀ nodes escaped args, entry = .content nodes escaped args → ∀ n ∈ nodes, ∀ n',
      n.toJson = n'.toJson → n = n') (h : entry.toJson = entry'.toJson) : entry = entry' := by
  -- The kind is not written, and shows in the first field: content is a list and an attribute is
  -- not, and the other two begin with other names.
  cases entry with
  | value v escaped args =>
    cases entry' with
    | value v' escaped' args' =>
      obtain ⟨hv, hoptions⟩ := cons.inj (Json.obj.inj h)
      obtain rfl := AttrValue.toJson_inj (Prod.mk.inj hv).2
      obtain ⟨rfl, rfl⟩ := options_inj hoptions
      rfl
    | content nodes' escaped' args' => cases v <;> simp [toJson, AttrValue.toJson] at h
    | collected exprs' | key name' e' => simp [toJson] at h
  | content nodes escaped args =>
    cases entry' with
    | content nodes' escaped' args' =>
      obtain ⟨hv, hoptions⟩ := cons.inj (Json.obj.inj h)
      obtain rfl := IR.arr_inj (hnodes nodes escaped args rfl) (Prod.mk.inj hv).2
      obtain ⟨rfl, rfl⟩ := options_inj hoptions
      rfl
    | value v' escaped' args' => cases v' <;> simp [toJson, AttrValue.toJson] at h
    | collected exprs' | key name' e' => simp [toJson] at h
  | collected exprs =>
    cases entry' with
    | collected exprs' =>
      obtain ⟨hexprs, -⟩ := cons.inj (Json.obj.inj h)
      have hstr := Json.arr.inj (Prod.mk.inj hexprs).2
      rw [eq_of_map_eq (fun _ _ _ => Json.str.inj) hstr]
    | value v' escaped' args' | content nodes' escaped' args' | key name' e' =>
      simp [toJson] at h
  | key name e =>
    cases entry' with
    | key name' e' => simpa [toJson] using h
    | value v' escaped' args' | content nodes' escaped' args' | collected exprs' =>
      simp [toJson] at h

/-! ## Nodes -/

namespace IR

inductive Shape where
  | atom
  | group
  | tag

def shape : IR → Shape
  | .atom _ _ => .atom
  | .group _ _ _ => .group
  | .tag _ _ _ _ _ => .tag

/-- What a node of a type is. -/
def shapeOf (type : String) : Shape :=
  if type = "tag" then .tag
  else if type ∈ ["text", "expression", "comment", "js_comment", "yield", "filter", "import",
    "export", "var", "const"] then .atom
  else .group

theorem shapeOf_typeName (n : IR) : shapeOf n.typeName = n.shape := by
  cases n with
  | atom a o =>
    cases a with
    | statement k e => cases k <;> rfl
    | _ => rfl
  | group g children o => cases g <;> rfl
  | tag name props children buffer o => rfl

theorem toJson_atom (a : Atom) (o : Provenance) :
    toJson (.atom a o) = .obj (("type", .str a.typeName) :: (a.fields ++ o.fields)) := by
  rw [toJson, cons_append]

theorem toJson_group (g : Group) (children : List IR) (o : Provenance) :
    toJson (.group g children o) =
      .obj (("type", .str g.typeName) :: (g.fields (.arr (children.map toJson)) ++ o.fields)) := by
  rw [toJson, cons_append, listToJson_eq_map]

theorem toJson_tag (name : String) (props : Props) (children : List IR) (buffer : Bool)
    (o : Provenance) :
    toJson (.tag name props children buffer o) =
      .obj (("type", .str "tag") :: ("name", .str name) ::
        ("props", .obj (props.map (Prod.map id PropEntry.toJson))) ::
        ("children", .arr (children.map toJson)) :: ("buffer", .bool buffer) :: o.fields) := by
  rw [toJson, listToJson_eq_map, propsToJson_eq_map]
  rfl

/-- The type that a node is written with. -/
def typeOf? : Json → Option Json
  | .obj fields => Ordered.get? "type" fields
  | _ => none

theorem typeOf?_toJson (n : IR) : typeOf? n.toJson = some (.str n.typeName) := by
  cases n <;> simp [toJson, typeOf?, typeName]

theorem shape_eq_of_toJson {n n' : IR} (h : n.toJson = n'.toJson) : n.shape = n'.shape := by
  have htype := congrArg typeOf? h
  rw [typeOf?_toJson, typeOf?_toJson] at htype
  rw [← shapeOf_typeName, ← shapeOf_typeName, Json.str.inj (Option.some.inj htype)]

/-- Props can be read off their JSON if the nodes in them can. -/
theorem props_inj {props props' : Props}
    (hnodes : ∀ k nodes escaped args, (k, PropEntry.content nodes escaped args) ∈ props →
      ∀ n ∈ nodes, ∀ n', n.toJson = n'.toJson → n = n')
    (h : props.map (Prod.map id PropEntry.toJson) = props'.map (Prod.map id PropEntry.toJson)) :
    props = props' := by
  apply eq_of_map_eq _ h
  rintro ⟨k, entry⟩ hmem ⟨k', entry'⟩ hpair
  obtain ⟨hkey, hentry⟩ := Prod.mk.inj hpair
  obtain rfl : k = k' := hkey
  rw [PropEntry.toJson_inj _ hentry]
  rintro nodes escaped args rfl
  exact hnodes k nodes escaped args hmem

/-- Nodes with the same JSON are equal. -/
theorem toJson_inj (n n' : IR) (h : n.toJson = n'.toJson) : n = n' := by
  -- Nodes of different shapes are written with different types, which leaves three cases.
  induction n using induct generalizing n' with
  | atom a o =>
    cases n' with
    | atom a' o' =>
      rw [toJson_atom, toJson_atom] at h
      obtain ⟨htype, hfields⟩ := cons.inj (Json.obj.inj h)
      obtain ⟨rfl, rfl⟩ := Atom.fields_inj (Json.str.inj (Prod.mk.inj htype).2) hfields
      rfl
    | group g' children' o' => cases shape_eq_of_toJson h
    | tag name' props' children' buffer' o' => cases shape_eq_of_toJson h
  | group g children o ih =>
    cases n' with
    | group g' children' o' =>
      rw [toJson_group, toJson_group] at h
      obtain ⟨htype, hfields⟩ := cons.inj (Json.obj.inj h)
      obtain ⟨rfl, hchildren, rfl⟩ := Group.fields_inj (Json.str.inj (Prod.mk.inj htype).2) hfields
      rw [arr_inj ih hchildren]
    | atom a' o' => cases shape_eq_of_toJson h
    | tag name' props' children' buffer' o' => cases shape_eq_of_toJson h
  | tag name props children buffer o ih ihprops =>
    cases n' with
    | tag name' props' children' buffer' o' =>
      rw [toJson_tag, toJson_tag] at h
      simp only [Json.obj.injEq, cons.injEq, Prod.mk.injEq, Json.str.injEq, Json.bool.injEq,
        true_and] at h
      obtain ⟨rfl, hprops, hchildren, rfl, horigin⟩ := h
      rw [props_inj ihprops hprops, arr_inj ih hchildren, Provenance.fields_inj horigin]
    | atom a' o' => cases shape_eq_of_toJson h
    | group g' children' o' => cases shape_eq_of_toJson h

/-- Lists of nodes with the same JSON are equal. -/
theorem allToJson_injective : Function.Injective allToJson := by
  intro nodes nodes' h
  rw [allToJson, allToJson, listToJson_eq_map, listToJson_eq_map] at h
  exact arr_inj (fun n _ => toJson_inj n) h

end IR

/-- Between its two words the output is a JSON document, in either rendering. The document stands
for one value, the same in both, and only these nodes have that value. -/
theorem artifact_lossless (nodes : List IR) :
    (∀ o : Options, ∃ text, artifact o nodes = "return " ++ text ++ ";" ∧
      ∀ v, Document v text.toList ↔ v = IR.allToJson nodes) ∧
    ∀ nodes', IR.allToJson nodes' = IR.allToJson nodes ↔ nodes' = nodes := by
  constructor
  · intro o
    refine ⟨(IR.allToJson nodes).render o.pretty, rfl, ?_⟩
    intro v
    exact document_render o.pretty _ v
  · intro nodes'
    exact IR.allToJson_injective.eq_iff

end Offside
