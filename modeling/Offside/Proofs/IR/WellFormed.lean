import Offside.Compile.Options
import Offside.Proofs.IR.Traced
import Offside.Proofs.Ordered

/-!
# Render trees as a runtime expects them

A rendering runtime takes some things about a tree for granted. Text is the literal of something to
write out; every prop of a tag stands under a name of its own; classes and styles are collected, so
that they are found in one place and in one form; and a phrase, which is looked up as a whole, has
no children beside its fragments. `IR.WellFormed` says so of one node, and `IR.AllWellFormed` of all
nodes of some trees.

Props are built by insertion alone, so what matters about them is what one insertion keeps
(`Props.WellFormed.insert`).
-/

set_option autoImplicit false

namespace Offside

open List

/-! ## Props -/

namespace Props

/-- The entry is one that can stand under the name `key`: classes and styles are collections, and
what is given as `className` is a class. -/
def Fits (key : String) (entry : PropEntry) : Prop :=
  key ≠ "className" ∧
    (key = "class" ∨ key = "style" → ∃ exprs, exprs ≠ [] ∧ entry = .collected exprs)

/-- Every name is given once, and what stands under it can stand there. -/
structure WellFormed (props : Props) : Prop where
  nodup : (Ordered.keys props).Nodup
  fits : ∀ p ∈ props, Fits p.1 p.2

variable {key : String} {entry : PropEntry} {props : Props}

theorem fits_of_not_collects (h : Attr.collects key = false) (entry : PropEntry) :
    Fits key entry := by
  simp only [Attr.collects, Bool.or_eq_false_iff, beq_eq_false_iff_ne] at h
  exact ⟨h.1.2, fun hkey => hkey.elim (absurd · h.1.1) (absurd · h.2)⟩

theorem fits_collected {exprs : List String} (hkey : key ≠ "className") (hexprs : exprs ≠ []) :
    Fits key (.collected exprs) :=
  ⟨hkey, fun _ => ⟨exprs, hexprs, rfl⟩⟩

namespace WellFormed

theorem nil : WellFormed [] :=
  ⟨nodup_nil, by simp⟩

/-- What an insertion keeps. -/
theorem insert (h : WellFormed props) (hentry : Fits key entry) :
    WellFormed (Ordered.insert key entry props) := by
  refine ⟨Ordered.nodup_keys_insert h.nodup, fun p hp => ?_⟩
  rcases Ordered.mem_insert hp with rfl | hp
  · exact hentry
  · exact h.fits p hp

theorem foldl {pairs : List (String × PropEntry)} (h : WellFormed props)
    (hpairs : ∀ p ∈ pairs, Fits p.1 p.2) :
    WellFormed (pairs.foldl (fun m p => Ordered.insert p.1 p.2 m) props) := by
  induction pairs generalizing props with
  | nil => exact h
  | cons p rest ih =>
    obtain ⟨hp, hrest⟩ := forall_mem_cons.mp hpairs
    exact ih (h.insert hp) hrest

theorem insertCollected {exprs : List String} (h : WellFormed props) (hkey : key ≠ "className") :
    WellFormed (Props.insertCollected key exprs props) := by
  unfold Props.insertCollected
  split
  · exact h
  · rename_i hexprs
    exact h.insert (fits_collected hkey (by simpa using hexprs))

/-- Whatever is given to a tag, its props are well-formed. -/
theorem gather (given : List (String × PropEntry)) (spreads : List String) :
    WellFormed (Props.gather given spreads) := by
  -- The entries that are kept fit since they are not collected; styles, classes and spreads are
  -- inserted behind them, each as one collection.
  have hplain : WellFormed (Ordered.ofPairs (given.filter fun e => !Attr.collects e.1)) := by
    refine nil.foldl fun p hp => fits_of_not_collects ?_ p.2
    simpa using (mem_filter.mp hp).2
  exact ((hplain.insertCollected (by decide)).insertCollected (by decide)).insertCollected
    (by decide)

/-- A change of provenance changes no name, and collections not at all. -/
theorem mapOrigin (h : WellFormed props) (g : Provenance → Provenance) :
    WellFormed (props.map (Prod.map id (PropEntry.mapOrigin g))) := by
  refine ⟨?_, fun p hp => ?_⟩
  · rw [Ordered.keys, map_map]
    exact h.nodup
  · obtain ⟨⟨k, entry⟩, hmem, rfl⟩ := mem_map.mp hp
    obtain ⟨hname, hcollected⟩ := h.fits _ hmem
    refine ⟨hname, fun hk => ?_⟩
    obtain ⟨exprs, hexprs, rfl⟩ := hcollected hk
    exact ⟨exprs, hexprs, rfl⟩

end WellFormed

end Props

/-! ## Nodes -/

namespace IR

/-- The node is as a runtime expects it, if phrases are the tags that `o` says. -/
def WellFormed (o : Options) : IR → Prop
  | .atom (.text expr _) _ => ∃ t, t ≠ "" ∧ expr = Json.quote t
  | .group (.function _ buffer) _ _ => buffer = false
  | .tag name props children buffer _ =>
    Props.WellFormed props ∧ buffer = true ∧ (name = o.phraseTag → children = [])
  | _ => True

/-- All nodes of the trees are well-formed, also those in props. -/
def AllWellFormed (o : Options) (nodes : List IR) : Prop :=
  ∀ n ∈ walkAll nodes, n.WellFormed o

variable {o : Options} {n : IR} {nodes : List IR}

theorem WellFormed.mapOrigin (h : n.WellFormed o) (g : Provenance → Provenance) :
    (n.mapOrigin g).WellFormed o := by
  cases n with
  | atom a origin =>
    rw [mapOrigin_atom]
    cases a <;> exact h
  | group head children origin =>
    rw [mapOrigin_group]
    cases head <;> exact h
  | tag name props children buffer origin =>
    obtain ⟨hprops, hbuffer, hchildren⟩ := h
    rw [mapOrigin_tag]
    exact ⟨hprops.mapOrigin g, hbuffer, fun hname => by rw [hchildren hname, map_nil]⟩

namespace AllWellFormed

theorem nil : AllWellFormed o [] := by
  simp [AllWellFormed, walkAll]

theorem iff_forall : AllWellFormed o nodes ↔ ∀ n ∈ nodes, AllWellFormed o [n] := by
  simp only [AllWellFormed, mem_walkAll, mem_singleton, exists_eq_left]
  constructor
  · intro h n hn m hm
    exact h m ⟨n, hn, hm⟩
  · rintro h m ⟨n, hn, hm⟩
    exact h n hn m hm

theorem flatMap {α : Type} {items : List α} {f : α → List IR}
    (h : ∀ a ∈ items, AllWellFormed o (f a)) : AllWellFormed o (items.flatMap f) := by
  refine iff_forall.mpr fun n hn => ?_
  obtain ⟨a, ha, hn⟩ := mem_flatMap.mp hn
  exact iff_forall.mp (h a ha) n hn

/-- A well-formed node above lists of well-formed trees. -/
theorem single (hn : n.WellFormed o) (hlists : ∀ list ∈ n.lists, AllWellFormed o list) :
    AllWellFormed o [n] := by
  intro m hm
  rcases Traced.mem_walkAll_singleton.mp hm with rfl | ⟨list, hlist, hm⟩
  · exact hn
  · exact hlists list hlist m hm

theorem root (h : AllWellFormed o [n]) : n.WellFormed o :=
  h n (mem_walkAll_of_mem mem_cons_self)

theorem lists (h : AllWellFormed o [n]) : ∀ list ∈ n.lists, AllWellFormed o list :=
  fun list hlist m hm => h m (Traced.mem_walkAll_singleton.mpr (.inr ⟨list, hlist, hm⟩))

theorem map_mapOrigin (h : AllWellFormed o nodes) (g : Provenance → Provenance) :
    AllWellFormed o (nodes.map (mapOrigin g)) := by
  intro m hm
  obtain ⟨n', hn', hm⟩ := mem_walkAll.mp hm
  obtain ⟨n, hn, rfl⟩ := mem_map.mp hn'
  obtain ⟨k, hk, rfl⟩ := exists_of_mem_walk_mapOrigin hm
  exact (h k (mem_walkAll.mpr ⟨n, hn, hk⟩)).mapOrigin g

end AllWellFormed

end IR

end Offside
