import Offside.Template.Node

/-!
# Template trees as a whole

Statements about a template tree speak either about every node in it or about the places its nodes
stand at. `Node.walk` lists the nodes, `Node.mapPlace` changes their places and nothing else, and
`Node.induct` is the induction over a tree that treats the nodes of a block as a list.

`mapBoth` carries a change of places through a computation that can fail: it changes what comes out,
whether that is a result or an error.
-/

set_option autoImplicit false

namespace Offside

/-! ## Results and errors changed together -/

section Outcome

variable {ε ε' α β γ δ : Type}

/-- The outcome with `onOk` applied to its result and `onError` to its error. -/
def mapBoth (onError : ε → ε') (onOk : α → β) : Except ε α → Except ε' β
  | .ok a => .ok (onOk a)
  | .error e => .error (onError e)

@[simp] theorem mapBoth_ok (onError : ε → ε') (onOk : α → β) (a : α) :
    mapBoth onError onOk (.ok a) = .ok (onOk a) := rfl

@[simp] theorem mapBoth_error (onError : ε → ε') (onOk : α → β) (e : ε) :
    mapBoth onError onOk (.error e) = .error (onError e) := rfl

/-- A change goes through two steps if it goes through the second, whatever the first gives. -/
theorem mapBoth_bind {onError : ε → ε'} {onOk : α → γ} {onDone : β → δ} {x : Except ε α}
    {k : α → Except ε β} {k' : γ → Except ε' δ}
    (h : ∀ a, k' (onOk a) = mapBoth onError onDone (k a)) :
    (mapBoth onError onOk x >>= k') = mapBoth onError onDone (x >>= k) := by
  cases x with
  | ok a => exact h a
  | error e => rfl

/-- The result is as `onOk` says, or the error as `onError` says. -/
def Ends (onError : ε → Prop) (onOk : α → Prop) : Except ε α → Prop
  | .ok a => onOk a
  | .error e => onError e

theorem Ends.bind {E : ε → Prop} {P : α → Prop} {Q : β → Prop} {x : Except ε α}
    {k : α → Except ε β} (hx : Ends E P x) (hk : ∀ a, P a → Ends E Q (k a)) :
    Ends E Q (x >>= k) := by
  cases x with
  | ok a => exact hk a hx
  | error e => exact hx

theorem Ends.map {E : ε → Prop} {Q : β → Prop} {x : Except ε α} {g : α → β}
    (hx : Ends E (fun a => Q (g a)) x) : Ends E Q (x.map g) := by
  cases x with
  | ok a => exact hx
  | error e => exact hx

theorem Ends.mono {E E' : ε → Prop} {P P' : α → Prop} {x : Except ε α} (hx : Ends E P x)
    (hE : ∀ e, E e → E' e) (hP : ∀ a, P a → P' a) : Ends E' P' x := by
  cases x with
  | ok a => exact hP a hx
  | error e => exact hE e hx

theorem Ends.of_forall {E : ε → Prop} {P : α → Prop} (hE : ∀ e, E e) (hP : ∀ a, P a)
    (x : Except ε α) : Ends E P x := by
  cases x with
  | ok a => exact hP a
  | error e => exact hE e

theorem exists_of_bind_eq_ok {x : Except ε α} {k : α → Except ε β} {b : β}
    (h : x.bind k = .ok b) : ∃ a, x = .ok a ∧ k a = .ok b := by
  cases x with
  | ok a => exact ⟨a, rfl, h⟩
  | error e => cases h

theorem eq_error_of_map {x : Except ε α} {g : α → β} {e : ε} (h : x.map g = .error e) :
    x = .error e := by
  cases x with
  | ok a => cases h
  | error e' => exact congrArg Except.error (Except.error.inj h)

theorem exists_of_map_eq_ok {x : Except ε α} {g : α → β} {b : β} (h : x.map g = .ok b) :
    ∃ a, x = .ok a ∧ g a = b := by
  cases x with
  | ok a => exact ⟨a, rfl, Except.ok.inj h⟩
  | error e => cases h

theorem exists_of_toOption_any {x : Except ε α} {test : α → Bool}
    (h : x.toOption.any test = true) : ∃ a, x = .ok a ∧ test a = true := by
  cases x with
  | error e => cases h
  | ok a => exact ⟨a, rfl, h⟩

end Outcome

namespace Node

/-! ## Induction over trees -/

/-- What holds of a node as soon as it holds of all nodes that the node holds, holds of every
node. -/
theorem induct {P : Node → Prop}
    (leaf : ∀ l p, P (.leaf l p))
    (bare : ∀ l p, P (.lead l none p))
    (lead : ∀ l nodes label p, (∀ n ∈ nodes, P n) → P (.lead l (some (.mk nodes label)) p))
    (frame : ∀ f nodes label p, (∀ n ∈ nodes, P n) → P (.frame f (.mk nodes label) p))
    (block : ∀ nodes label p, (∀ n ∈ nodes, P n) → P (.block (.mk nodes label) p))
    (tag : ∀ t nodes label code p, (∀ n ∈ nodes, P n) → (∀ c, code = some c → P c) →
      P (.tag t (.mk nodes label) code p)) (node : Node) : P node :=
  match node with
  | .leaf l p => leaf l p
  | .lead l none p => bare l p
  | .lead l (some (.mk nodes label)) p =>
    lead l nodes label p fun n _ => induct leaf bare lead frame block tag n
  | .frame f (.mk nodes label) p =>
    frame f nodes label p fun n _ => induct leaf bare lead frame block tag n
  | .block (.mk nodes label) p =>
    block nodes label p fun n _ => induct leaf bare lead frame block tag n
  | .tag t (.mk nodes label) none p =>
    tag t nodes label none p (fun n _ => induct leaf bare lead frame block tag n)
      fun _ h => nomatch h
  | .tag t (.mk nodes label) (some code) p =>
    tag t nodes label (some code) p (fun n _ => induct leaf bare lead frame block tag n)
      fun _ h => Option.some.inj h ▸ induct leaf bare lead frame block tag code
termination_by sizeOf node
decreasing_by
  all_goals simp_wf
  all_goals try have := List.sizeOf_lt_of_mem ‹_ ∈ _›
  all_goals omega

/-! ## The nodes of a tree -/

mutual
/-- All nodes of the tree in the order of the source: the node itself, the code on its line, then
those of its block. -/
def walk : Node → List Node
  | .leaf l p => [.leaf l p]
  | .lead l none p => [.lead l none p]
  | .lead l (some (.mk nodes label)) p => .lead l (some (.mk nodes label)) p :: walkAll nodes
  | .frame f (.mk nodes label) p => .frame f (.mk nodes label) p :: walkAll nodes
  | .block (.mk nodes label) p => .block (.mk nodes label) p :: walkAll nodes
  | .tag t (.mk nodes label) none p => .tag t (.mk nodes label) none p :: walkAll nodes
  | .tag t (.mk nodes label) (some code) p =>
    .tag t (.mk nodes label) (some code) p :: (walk code ++ walkAll nodes)

/-- All nodes of a list of trees. -/
def walkAll : List Node → List Node
  | [] => []
  | n :: rest => walk n ++ walkAll rest
end

theorem walkAll_append (xs ys : List Node) : walkAll (xs ++ ys) = walkAll xs ++ walkAll ys := by
  induction xs with
  | nil => simp [walkAll]
  | cons x xs ih => simp [walkAll, ih]

@[simp] theorem mem_walkAll {nodes : List Node} {n : Node} :
    n ∈ walkAll nodes ↔ ∃ m ∈ nodes, n ∈ walk m := by
  induction nodes with
  | nil => simp [walkAll]
  | cons m rest ih => simp [walkAll, ih]

/-- The nodes of the block that the node holds. -/
def children : Node → List Node
  | .leaf _ _ | .lead _ none _ => []
  | .lead _ (some body) _ | .frame _ body _ | .block body _ | .tag _ body _ _ => body.nodes

/-- The code that follows a tag on its line. -/
def code? : Node → Option Node
  | .tag _ _ code _ => code
  | _ => none

/-- The nodes right below the root, in the order of the source. -/
def held (n : Node) : List Node :=
  n.code?.toList ++ n.children

theorem mem_held {n k : Node} : k ∈ n.held ↔ n.code? = some k ∨ k ∈ n.children := by
  simp [held]

theorem walk_eq (n : Node) : n.walk = n :: walkAll n.held := by
  cases n using induct <;> try simp [walk, held, children, code?, walkAll, Block.nodes]
  case tag t nodes label code p _ _ => cases code <;> simp [walk, walkAll]

theorem walkAll_singleton (n : Node) : walkAll [n] = n :: walkAll n.held := by
  rw [← walk_eq]
  simp [walkAll]

theorem self_mem_walk (n : Node) : n ∈ n.walk := by
  rw [walk_eq]
  exact List.mem_cons_self

theorem mem_walk_of_mem_held {n k : Node} (hk : k ∈ n.held) : k ∈ n.walk := by
  rw [walk_eq]
  exact List.mem_cons_of_mem _ (mem_walkAll.mpr ⟨k, hk, self_mem_walk k⟩)

/-- The induction that does not tell the kinds of nodes apart. -/
theorem induct_held {P : Node → Prop} (h : ∀ n, (∀ k ∈ n.held, P k) → P n) (n : Node) : P n := by
  induction n using induct with
  | leaf l p | bare l p => exact h _ (by simp [held, children, code?])
  | lead l nodes label p ih | frame f nodes label p ih | block nodes label p ih =>
    exact h _ fun k hk => ih k (by simpa [held, children, code?, Block.nodes] using hk)
  | tag t nodes label code p ih ihc =>
    refine h _ fun k hk => ?_
    rcases mem_held.mp hk with hk | hk
    · exact ihc k hk
    · exact ih k hk

theorem mem_walk_trans {n k m : Node} (hk : k ∈ n.walk) (hm : m ∈ k.walk) : m ∈ n.walk := by
  induction n using induct_held with
  | _ n ih =>
    rw [walk_eq] at hk
    rcases List.mem_cons.mp hk with rfl | hk
    · exact hm
    · obtain ⟨c, hc, hkc⟩ := mem_walkAll.mp hk
      rw [walk_eq]
      exact List.mem_cons_of_mem _ (mem_walkAll.mpr ⟨c, hc, ih c hc hkc⟩)

/-- What holds throughout a tree holds of its root and throughout all that the root holds. -/
theorem forall_mem_walk {P : Node → Prop} {n : Node} :
    (∀ m ∈ n.walk, P m) ↔ P n ∧ (∀ k ∈ n.children, ∀ m ∈ k.walk, P m) ∧
      ∀ k, n.code? = some k → ∀ m ∈ k.walk, P m := by
  rw [walk_eq]
  simp only [List.mem_cons, mem_walkAll, mem_held]
  constructor
  · intro h
    exact ⟨h n (.inl rfl), fun k hk m hm => h m (.inr ⟨k, .inr hk, hm⟩),
      fun k hk m hm => h m (.inr ⟨k, .inl hk, hm⟩)⟩
  · rintro ⟨hn, hchildren, hcode⟩ m (rfl | ⟨k, hk | hk, hm⟩)
    · exact hn
    · exact hcode k hk m hm
    · exact hchildren k hk m hm

/-! ## Changing places -/

mutual
/-- The tree with `g` applied to the place of every node in it. -/
def mapPlace (g : Place → Place) : Node → Node
  | .leaf l p => .leaf l (g p)
  | .lead l none p => .lead l none (g p)
  | .lead l (some (.mk nodes label)) p => .lead l (some (.mk (mapPlaces g nodes) label)) (g p)
  | .frame f (.mk nodes label) p => .frame f (.mk (mapPlaces g nodes) label) (g p)
  | .block (.mk nodes label) p => .block (.mk (mapPlaces g nodes) label) (g p)
  | .tag t (.mk nodes label) none p => .tag t (.mk (mapPlaces g nodes) label) none (g p)
  | .tag t (.mk nodes label) (some code) p =>
    .tag t (.mk (mapPlaces g nodes) label) (some (mapPlace g code)) (g p)

/-- The trees of a list with `g` applied throughout. -/
def mapPlaces (g : Place → Place) : List Node → List Node
  | [] => []
  | n :: rest => mapPlace g n :: mapPlaces g rest
end

@[simp] theorem mapPlaces_eq_map (g : Place → Place) (nodes : List Node) :
    mapPlaces g nodes = nodes.map (mapPlace g) := by
  induction nodes with
  | nil => rfl
  | cons n rest ih => simp [mapPlaces, ih]

end Node

namespace Block

/-- The block with `g` applied throughout. -/
def mapPlace (g : Place → Place) : Block → Block
  | .mk nodes label => .mk (nodes.map (Node.mapPlace g)) label

@[simp] theorem mapPlace_mk (g : Place → Place) (nodes : List Node) (label : BlockLabel) :
    mapPlace g (.mk nodes label) = .mk (nodes.map (Node.mapPlace g)) label := rfl

@[simp] theorem mapPlace_plain (g : Place → Place) (nodes : List Node) :
    mapPlace g (.plain nodes) = .plain (nodes.map (Node.mapPlace g)) := rfl

end Block

namespace Node

@[simp] theorem mapPlace_leaf (g : Place → Place) (l : Leaf) (p : Place) :
    mapPlace g (.leaf l p) = .leaf l (g p) := by
  simp [mapPlace]

@[simp] theorem mapPlace_lead (g : Place → Place) (l : Lead) (body : Option Block) (p : Place) :
    mapPlace g (.lead l body p) = .lead l (body.map (Block.mapPlace g)) (g p) := by
  rcases body with _ | ⟨nodes, label⟩ <;> simp [mapPlace]

@[simp] theorem mapPlace_frame (g : Place → Place) (f : Frame) (body : Block) (p : Place) :
    mapPlace g (.frame f body p) = .frame f (body.mapPlace g) (g p) := by
  cases body
  simp [mapPlace]

@[simp] theorem mapPlace_block (g : Place → Place) (body : Block) (p : Place) :
    mapPlace g (.block body p) = .block (body.mapPlace g) (g p) := by
  cases body
  simp [mapPlace]

@[simp] theorem mapPlace_tag (g : Place → Place) (t : Tag) (body : Block) (code : Option Node)
    (p : Place) :
    mapPlace g (.tag t body code p) =
      .tag t (body.mapPlace g) (code.map (mapPlace g)) (g p) := by
  cases body
  cases code <;> simp [mapPlace]

@[simp] theorem place_mapPlace (g : Place → Place) (n : Node) :
    (n.mapPlace g).place = g n.place := by
  cases n <;> simp [place]

@[simp] theorem children_mapPlace (g : Place → Place) (n : Node) :
    (n.mapPlace g).children = n.children.map (mapPlace g) := by
  cases n using induct <;> simp [children, Block.nodes]

@[simp] theorem text?_mapPlace (g : Place → Place) (n : Node) :
    (n.mapPlace g).text? = n.text? := by
  cases n with
  | leaf l p => cases l <;> simp [text?]
  | lead l body p | frame l body p | block body p | tag t body code p => simp [text?]

theorem mapPlace_id (n : Node) : n.mapPlace id = n := by
  -- In every case the nodes of the block stay what they are, one by one.
  have hmap {nodes : List Node} (ih : ∀ n ∈ nodes, mapPlace id n = n) :
      nodes.map (mapPlace id) = nodes := by
    rw [List.map_congr_left ih, List.map_id']
  induction n using induct with
  | leaf l p => rfl
  | bare l p => rfl
  | lead l nodes label p ih => simp [hmap ih]
  | frame f nodes label p ih => simp [hmap ih]
  | block nodes label p ih => simp [hmap ih]
  | tag t nodes label code p ih ihc =>
    cases code with
    | none => simp [hmap ih]
    | some c => simp [hmap ih, ihc c rfl]

theorem mapPlace_mapPlace (g g' : Place → Place) (n : Node) :
    (n.mapPlace g).mapPlace g' = n.mapPlace (g' ∘ g) := by
  induction n using induct with
  | leaf l p | bare l p => simp
  | lead l nodes label p ih | frame f nodes label p ih | block nodes label p ih => simpa using ih
  | tag t nodes label code p ih ihc =>
    cases code with
    | none => simpa using ih
    | some c => simpa using ⟨ih, ihc c rfl⟩

/-- The tree `offset` lines further down. -/
def shift (offset : UInt64) : Node → Node :=
  mapPlace (Place.shift offset)

end Node

end Offside
