import Mathlib.Data.List.Basic
import Offside.Proofs.IR.Origin

/-!
# Provenance that is true to the source

`IR.Traced f lo hi nodes` says that every node of the trees `nodes`, at any depth and in props as
well, comes from a known line of the template `f` between `lo` and `hi`; that lines never decrease
along a list; and that no node comes from a line before that of its parent.

The lists of a tree are its own list, the children of its nodes and the content in their props;
there is no difference between those (`IR.lists`).
-/

set_option autoImplicit false

namespace Offside

open List

/-- Moving a line down stays clear of the largest word if the last line does. -/
theorem toNat_add_line {line offset : UInt64} {hi : Nat} (hle : line.toNat ≤ hi)
    (hword : hi + offset.toNat < UInt64.size) :
    (line + offset).toNat = line.toNat + offset.toNat := by
  have hlt : line.toNat + offset.toNat < UInt64.size := by omega
  rw [UInt64.toNat_add]
  exact Nat.mod_eq_of_lt hlt

/-- The provenance is a known line of the template `f`, one of those from `lo` to `hi`. -/
def Provenance.Within (f : Option String) (lo hi : Nat) (p : Provenance) : Prop :=
  p.filename = f ∧ ∃ line, p.line = some line ∧ lo ≤ line.toNat ∧ line.toNat ≤ hi

theorem Provenance.Within.mono {f : Option String} {lo lo' hi hi' : Nat} {p : Provenance}
    (h : p.Within f lo hi) (hlo : lo' ≤ lo) (hhi : hi ≤ hi') : p.Within f lo' hi' := by
  obtain ⟨hfile, line, hline, hle, hge⟩ := h
  exact ⟨hfile, line, hline, Nat.le_trans hlo hle, Nat.le_trans hge hhi⟩

/-- The nodes in an entry of props, if it is content. -/
def PropEntry.content? : PropEntry → Option (List IR)
  | .content nodes _ _ => some nodes
  | .value _ _ _ | .collected _ | .key _ _ => none

/-- The lists of nodes that are given in props. -/
def Props.contents (props : List (String × PropEntry)) : List (List IR) :=
  props.filterMap fun p => p.2.content?

theorem Props.flatten_contents_cons (p : String × PropEntry) (rest : Props) :
    (contents (p :: rest)).flatten = p.2.content?.getD [] ++ (contents rest).flatten := by
  cases h : p.2.content? <;> simp [contents, h]

namespace IR

/-- The line that the node comes from, if it is known. -/
def line (n : IR) : Nat :=
  (n.origin.line.map UInt64.toNat).getD 0

/-- The lists of nodes right below the node: its children, and the content in its props. -/
def lists : IR → List (List IR)
  | .atom _ _ => []
  | .group _ children _ => [children]
  | .tag _ props children _ _ => children :: Props.contents props

/-! ## Walks -/

@[simp] theorem mem_walkAll {nodes : List IR} {m : IR} :
    m ∈ walkAll nodes ↔ ∃ n ∈ nodes, m ∈ walk n := by
  induction nodes with
  | nil => simp [walkAll]
  | cons n rest ih => simp [walkAll, ih]

theorem mem_walkProps {props : Props} {m : IR} :
    m ∈ walkProps props ↔ ∃ list ∈ Props.contents props, m ∈ walkAll list := by
  induction props with
  | nil => simp [walkProps, Props.contents]
  | cons p rest ih =>
    obtain ⟨k, entry⟩ := p
    cases entry <;> simp_all [walkProps, Props.contents, PropEntry.content?]

/-- A node of a tree is its root or in one of the lists below the root. -/
theorem mem_walk {n m : IR} : m ∈ walk n ↔ m = n ∨ ∃ list ∈ n.lists, m ∈ walkAll list := by
  cases n with
  | atom a o => simp [walk, lists]
  | group head children o => simp [walk, lists]
  | tag name props children buffer o =>
    simp only [walk, lists, mem_cons, mem_append, mem_walkProps, exists_eq_or_imp]
    exact or_congr_right or_comm

@[simp] theorem origin_mapOrigin (g : Provenance → Provenance) (n : IR) :
    (n.mapOrigin g).origin = g n.origin := by
  cases n <;> simp [origin]

theorem contents_map (g : Provenance → Provenance) (props : Props) :
    Props.contents (props.map (Prod.map id (PropEntry.mapOrigin g))) =
      (Props.contents props).map (map (mapOrigin g)) := by
  simp only [Props.contents, filterMap_map, map_filterMap]
  congr 1
  funext p
  obtain ⟨k, entry⟩ := p
  cases entry <;> rfl

theorem lists_mapOrigin (g : Provenance → Provenance) (n : IR) :
    (n.mapOrigin g).lists = n.lists.map (map (mapOrigin g)) := by
  cases n <;> simp [lists, contents_map]

/-- The induction that does not tell children and content apart. -/
theorem induct_lists {P : IR → Prop} (h : ∀ n, (∀ list ∈ n.lists, ∀ c ∈ list, P c) → P n) (n : IR) :
    P n := by
  induction n using induct with
  | atom a o => exact h _ (by simp [lists])
  | group head children o ih => exact h _ (by simpa [lists] using ih)
  | tag name props children buffer o ih ihprops =>
    refine h _ fun list hlist => ?_
    -- The list is that of the children, or the content of one of the props.
    rcases mem_cons.mp hlist with rfl | hlist
    · exact ih
    · obtain ⟨⟨k, entry⟩, hp, hentry⟩ := mem_filterMap.mp hlist
      cases entry with
      | content nodes escaped args =>
        obtain rfl : nodes = list := Option.some.inj hentry
        exact ihprops k nodes escaped args hp
      | value v escaped args | collected exprs | key name expr => cases hentry

/-- The nodes right below a node: those in its props, in the order of the props, and then its
children. -/
def held : IR → List IR
  | .atom _ _ => []
  | .group _ children _ => children
  | .tag _ props children _ _ => (Props.contents props).flatten ++ children

/-- The induction on trees by the nodes right below. -/
theorem induct_held {P : IR → Prop} (h : ∀ n, (∀ c ∈ n.held, P c) → P n) (n : IR) : P n := by
  induction n using induct_lists with
  | h n ih =>
    apply h
    cases n with
    | atom a o => exact fun c hc => absurd hc not_mem_nil
    | group head children o => exact ih children mem_cons_self
    | tag name props children buffer o =>
      intro c hc
      rcases mem_append.mp hc with hc | hc
      · obtain ⟨list, hlist, hc⟩ := mem_flatten.mp hc
        exact ih list (mem_cons_of_mem _ hlist) c hc
      · exact ih children mem_cons_self c hc

theorem walkAll_eq_flatMap (nodes : List IR) : walkAll nodes = nodes.flatMap walk := by
  induction nodes with
  | nil => rfl
  | cons n rest ih => rw [walkAll, ih, flatMap_cons]

theorem walkProps_eq_flatMap (props : Props) :
    walkProps props = (Props.contents props).flatten.flatMap walk := by
  induction props with
  | nil => rfl
  | cons p rest ih =>
    obtain ⟨k, entry⟩ := p
    rw [Props.flatten_contents_cons, flatMap_append, ← ih]
    cases entry with
    | content nodes escaped args =>
      rw [walkProps, walkAll_eq_flatMap]
      rfl
    | value v escaped args | collected exprs | key name expr =>
      rw [walkProps]
      rfl

/-- The walk meets a node first, then all that is below it, from left to right. -/
theorem walk_eq_cons (n : IR) : n.walk = n :: n.held.flatMap walk := by
  cases n with
  | atom a o => rfl
  | group head children o => rw [walk, walkAll_eq_flatMap, held]
  | tag name props children buffer o =>
    rw [walk, walkAll_eq_flatMap, walkProps_eq_flatMap, held, flatMap_append]

theorem held_mapOrigin (g : Provenance → Provenance) (n : IR) :
    (n.mapOrigin g).held = n.held.map (mapOrigin g) := by
  cases n with
  | atom a o => simp [held]
  | group head children o => simp [held]
  | tag name props children buffer o => simp [held, contents_map, map_flatten]

/-- A change of provenance changes every node where it stands. -/
theorem walk_mapOrigin (g : Provenance → Provenance) (n : IR) :
    (n.mapOrigin g).walk = n.walk.map (mapOrigin g) := by
  induction n using induct_held with
  | h n ih =>
    rw [walk_eq_cons, held_mapOrigin, walk_eq_cons n, map_cons, flatMap_map, map_flatMap]
    congr 1
    exact flatMap_congr ih

theorem mem_walk_trans {n k m : IR} (hk : k ∈ walk n) (hm : m ∈ walk k) : m ∈ walk n := by
  induction n using induct_lists with
  | h n ih =>
    rcases mem_walk.mp hk with rfl | ⟨list, hlist, hk⟩
    · exact hm
    · obtain ⟨c, hc, hk⟩ := mem_walkAll.mp hk
      exact mem_walk.mpr (.inr ⟨list, hlist, mem_walkAll.mpr ⟨c, hc, ih list hlist c hc hk⟩⟩)

theorem exists_of_mem_walk_mapOrigin {g : Provenance → Provenance} {n m : IR}
    (h : m ∈ walk (n.mapOrigin g)) : ∃ k ∈ walk n, m = k.mapOrigin g := by
  rw [walk_mapOrigin] at h
  obtain ⟨k, hk, rfl⟩ := mem_map.mp h
  exact ⟨k, hk, rfl⟩

/-! ## Traced lists -/

/-- The trees come from the template `f`, from the lines from `lo` to `hi`, in order. -/
structure Traced (f : Option String) (lo hi : Nat) (nodes : List IR) : Prop where
  /-- Every node comes from one of the lines. -/
  within : ∀ n ∈ walkAll nodes, n.origin.Within f lo hi
  /-- Lines never decrease from left to right. -/
  ordered : nodes.Pairwise fun a b => a.line ≤ b.line
  /-- So they do in all lists of the trees, and no node comes from a line before its parent's. -/
  nested : ∀ n ∈ walkAll nodes, ∀ list ∈ n.lists,
    list.Pairwise (fun a b => a.line ≤ b.line) ∧ ∀ c ∈ list, n.line ≤ c.line

end IR

theorem Provenance.Within.le_line {f : Option String} {lo hi : Nat} {n : IR}
    (h : n.origin.Within f lo hi) : lo ≤ n.line ∧ n.line ≤ hi := by
  obtain ⟨-, line, hline, hlo, hhi⟩ := h
  simpa [IR.line, hline] using ⟨hlo, hhi⟩

namespace IR

theorem mem_walkAll_of_mem {n : IR} {nodes : List IR} (h : n ∈ nodes) : n ∈ walkAll nodes :=
  mem_walkAll.mpr ⟨n, h, mem_walk.mpr (.inl rfl)⟩

namespace Traced

variable {f : Option String} {lo mid hi : Nat} {xs ys nodes : List IR} {n : IR}

theorem nil : Traced f lo hi [] :=
  ⟨by simp, by simp, by simp⟩

theorem mono {lo' hi' : Nat} (h : Traced f lo hi xs) (hlo : lo' ≤ lo) (hhi : hi ≤ hi') :
    Traced f lo' hi' xs :=
  ⟨fun n hn => (h.within n hn).mono hlo hhi, h.ordered, h.nested⟩

theorem append (hx : Traced f lo mid xs) (hy : Traced f mid hi ys) (hlo : lo ≤ mid)
    (hhi : mid ≤ hi) : Traced f lo hi (xs ++ ys) := by
  have hmem {n : IR} : n ∈ walkAll (xs ++ ys) ↔ n ∈ walkAll xs ∨ n ∈ walkAll ys := by
    simp [or_and_right, exists_or]
  refine ⟨fun n hn => ?_, ?_, fun n hn => (hmem.mp hn).elim (hx.nested n) (hy.nested n)⟩
  · exact (hmem.mp hn).elim (fun h => (hx.within n h).mono (Nat.le_refl _) hhi)
      fun h => (hy.within n h).mono hlo (Nat.le_refl _)
  · -- All of `xs` comes from lines up to `mid`, all of `ys` from there on.
    refine pairwise_append.mpr ⟨hx.ordered, hy.ordered, fun a ha b hb => ?_⟩
    exact Nat.le_trans (hx.within a (mem_walkAll_of_mem ha)).le_line.2
      (hy.within b (mem_walkAll_of_mem hb)).le_line.1

theorem mem_walkAll_singleton {m : IR} :
    m ∈ walkAll [n] ↔ m = n ∨ ∃ list ∈ n.lists, m ∈ walkAll list := by
  rw [mem_walkAll, ← mem_walk]
  simp

/-- A node above lists that start on its line. -/
theorem single (hn : n.origin.Within f lo hi) (hlists : ∀ list ∈ n.lists, Traced f n.line hi list) :
    Traced f lo hi [n] := by
  refine ⟨fun m hm => ?_, by simp, fun m hm list hlist => ?_⟩
  · rcases mem_walkAll_singleton.mp hm with rfl | ⟨list, hlist, hm⟩
    · exact hn
    · exact ((hlists list hlist).within m hm).mono hn.le_line.1 (Nat.le_refl _)
  · rcases mem_walkAll_singleton.mp hm with rfl | ⟨list', hlist', hm⟩
    · have htraced := hlists list hlist
      exact ⟨htraced.ordered, fun c hc => (htraced.within c (mem_walkAll_of_mem hc)).le_line.1⟩
    · exact (hlists list' hlist').nested m hm list hlist

/-- Fewer lists below a node. -/
theorem sub {n' : IR} (h : Traced f lo hi [n]) (horigin : n'.origin = n.origin)
    (hlists : ∀ list ∈ n'.lists, list ∈ n.lists) : Traced f lo hi [n'] := by
  have hline : n'.line = n.line := by rw [IR.line, horigin, IR.line]
  refine ⟨fun m hm => ?_, by simp, fun m hm list hlist => ?_⟩
  · rcases mem_walkAll_singleton.mp hm with rfl | ⟨list, hlist, hm⟩
    · exact horigin ▸ h.within n (mem_walkAll_of_mem mem_cons_self)
    · exact h.within m (mem_walkAll_singleton.mpr (.inr ⟨list, hlists list hlist, hm⟩))
  · rcases mem_walkAll_singleton.mp hm with rfl | ⟨list', hlist', hm⟩
    · rw [hline]
      exact h.nested n (mem_walkAll_of_mem mem_cons_self) list (hlists list hlist)
    · have hm' := mem_walkAll_singleton.mpr (.inr ⟨list', hlists list' hlist', hm⟩)
      exact h.nested m hm' list hlist

/-- The trees further down, as long as the lines can be counted. -/
theorem shift {offset : UInt64} (h : Traced f lo hi nodes)
    (hword : hi + offset.toNat < UInt64.size) :
    Traced f (lo + offset.toNat) (hi + offset.toNat) (nodes.map (IR.shift offset)) := by
  have hline {m : IR} (hm : m ∈ walkAll nodes) : (m.shift offset).line = m.line + offset.toNat := by
    obtain ⟨-, line, hsome, -, hle⟩ := h.within m hm
    simp [IR.line, IR.shift, Provenance.shift, hsome, toNat_add_line hle hword]
  have hmem {m : IR} (hm : m ∈ walkAll (nodes.map (IR.shift offset))) :
      ∃ k ∈ walkAll nodes, m = k.shift offset := by
    obtain ⟨n', hn', hm⟩ := mem_walkAll.mp hm
    obtain ⟨n, hn, rfl⟩ := mem_map.mp hn'
    obtain ⟨k, hk, rfl⟩ := exists_of_mem_walk_mapOrigin hm
    exact ⟨k, mem_walkAll.mpr ⟨n, hn, hk⟩, rfl⟩
  -- Lists keep their order, since all lines in them move alike.
  have hpairwise {list : List IR} (hlist : ∀ c ∈ list, c ∈ walkAll nodes)
      (hordered : list.Pairwise fun a b => a.line ≤ b.line) :
      (list.map (IR.shift offset)).Pairwise fun a b => a.line ≤ b.line := by
    refine pairwise_map.mpr (hordered.imp_of_mem fun ha hb hab => ?_)
    rw [hline (hlist _ ha), hline (hlist _ hb)]
    omega
  refine ⟨fun m hm => ?_, hpairwise (fun _ => mem_walkAll_of_mem) h.ordered,
    fun m hm list' hlist' => ?_⟩
  · obtain ⟨k, hk, rfl⟩ := hmem hm
    obtain ⟨hfile, line, hsome, hlo, hhi⟩ := h.within k hk
    refine ⟨by simpa [IR.shift, Provenance.shift] using hfile, line + offset, ?_, ?_⟩
    · simp [IR.shift, Provenance.shift, hsome]
    · rw [toNat_add_line hhi hword]
      omega
  · obtain ⟨k, hk, rfl⟩ := hmem hm
    rw [IR.shift, lists_mapOrigin] at hlist'
    obtain ⟨list, hlist, rfl⟩ := mem_map.mp hlist'
    have hbelow : ∀ c ∈ list, c ∈ walkAll nodes := by
      intro c hc
      obtain ⟨n, hn, hk⟩ := mem_walkAll.mp hk
      have hck : c ∈ walk k := mem_walk.mpr (.inr ⟨list, hlist, mem_walkAll_of_mem hc⟩)
      exact mem_walkAll.mpr ⟨n, hn, mem_walk_trans hk hck⟩
    obtain ⟨hordered, hparent⟩ := h.nested k hk list hlist
    refine ⟨hpairwise hbelow hordered, fun c' hc' => ?_⟩
    obtain ⟨c, hc, rfl⟩ := mem_map.mp hc'
    have hle := hparent c hc
    change (k.shift offset).line ≤ (c.shift offset).line
    rw [hline hk, hline (hbelow c hc)]
    omega

end Traced

end IR

/-! ## Props -/

namespace Props

theorem contents_append (xs ys : List (String × PropEntry)) :
    contents (xs ++ ys) = contents xs ++ contents ys :=
  filterMap_append

theorem contents_ofAttr (attrs : List Attr) : contents (attrs.map ofAttr) = [] := by
  simp [contents, filterMap_map, ofAttr, PropEntry.content?, Function.comp_def]

theorem mem_contents {props : List (String × PropEntry)} {list : List IR} :
    list ∈ contents props ↔ ∃ p ∈ props, p.2.content? = some list := by
  simp [contents]

/-- Inserting an entry adds no content but that of the entry. -/
theorem contents_insert {key : String} {entry : PropEntry} {props : Props} {list : List IR}
    (h : list ∈ contents (Ordered.insert key entry props)) :
    entry.content? = some list ∨ list ∈ contents props := by
  obtain ⟨p, hp, hlist⟩ := mem_contents.mp h
  rcases Ordered.mem_insert hp with rfl | hp
  · exact .inl hlist
  · exact .inr (mem_contents.mpr ⟨p, hp, hlist⟩)

theorem mem_of_mem_insertCollected {key : String} {exprs : List String} {props : Props}
    {p : String × PropEntry} (h : p ∈ insertCollected key exprs props)
    (hcontent : p.2.content?.isSome) : p ∈ props := by
  unfold insertCollected at h
  split at h
  · exact h
  · refine (Ordered.mem_insert h).resolve_left ?_
    rintro rfl
    cases hcontent

/-- The props of a tag hold no content but what is given to it, under the same name. -/
theorem mem_of_mem_gather {given : List (String × PropEntry)} {spreads : List String}
    {p : String × PropEntry} (h : p ∈ gather given spreads) (hcontent : p.2.content?.isSome) :
    p ∈ given := by
  -- Gathering goes backwards: collections hold no content, so it has been there before each.
  have hspread := mem_of_mem_insertCollected h hcontent
  have hclass := mem_of_mem_insertCollected hspread hcontent
  have hstyle := mem_of_mem_insertCollected hclass hcontent
  have hpairs := Ordered.mem_of_mem_ofPairs hstyle
  exact (mem_filter.mp hpairs).1

theorem mem_of_mem_gatherPhrase {given : List (String × PropEntry)} {spreads : List String}
    {p : String × PropEntry} (h : p ∈ gatherPhrase given spreads) (hcontent : p.2.content?.isSome) :
    p ∈ given := by
  have hgather := mem_of_mem_gather h hcontent
  unfold namePath at hgather
  split at hgather
  · split at hgather
    · exact hgather
    · rcases mem_cons.mp hgather with rfl | hrest
      · cases hcontent
      · exact mem_cons_of_mem _ hrest
  · exact hgather

theorem contents_gather {given : List (String × PropEntry)} {spreads : List String} {list : List IR}
    (h : list ∈ contents (gather given spreads)) : list ∈ contents given := by
  obtain ⟨p, hp, hlist⟩ := mem_contents.mp h
  exact mem_contents.mpr ⟨p, mem_of_mem_gather hp (hlist ▸ rfl), hlist⟩

theorem contents_gatherPhrase {given : List (String × PropEntry)} {spreads : List String}
    {list : List IR} (h : list ∈ contents (gatherPhrase given spreads)) :
    list ∈ contents given := by
  obtain ⟨p, hp, hlist⟩ := mem_contents.mp h
  exact mem_contents.mpr ⟨p, mem_of_mem_gatherPhrase hp (hlist ▸ rfl), hlist⟩

end Props

end Offside
