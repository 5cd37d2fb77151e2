import Offside.Proofs.IR.Traced

/-!
# Walking with a visitor

The walk that runs over a tree and gives nodes another provenance can be seen as one that calls a
visitor: the visitor is given each node as it is met, answers where the node is to come from, and
may do more on the side, like counting nodes (`IR.walkWith`). `IR.mapOrigin` and `IR.walk` are the
two halves of it. What the visitor answers makes up the tree that comes out, and what it does on the
side is done for the nodes of the walk, in order and once for each (`IR.walkWith_relabeling`).
-/

set_option autoImplicit false

namespace Offside.IR

open List

variable {m : Type → Type} [Monad m]

mutual
/-- Walk a tree with a visitor. The visitor is given every node as it is met, may do other things,
and answers where the node is to come from. -/
def walkWith (f : IR → m Provenance) : IR → m IR
  | .atom a o => do
    let o' ← f (.atom a o)
    return .atom a o'
  | .group head children o => do
    let o' ← f (.group head children o)
    let children' ← walkAllWith f children
    return .group head children' o'
  | .tag name props children buffer o => do
    let o' ← f (.tag name props children buffer o)
    let props' ← walkPropsWith f props
    let children' ← walkAllWith f children
    return .tag name props' children' buffer o'

/-- Walk the trees of a list. -/
def walkAllWith (f : IR → m Provenance) : List IR → m (List IR)
  | [] => return []
  | n :: rest => do
    let n' ← walkWith f n
    let rest' ← walkAllWith f rest
    return n' :: rest'

/-- Walk the content of props. -/
def walkPropsWith (f : IR → m Provenance) :
    List (String × PropEntry) → m (List (String × PropEntry))
  | [] => return []
  | (k, .content nodes escaped args) :: rest => do
    let nodes' ← walkAllWith f nodes
    let rest' ← walkPropsWith f rest
    return (k, .content nodes' escaped args) :: rest'
  | (k, .value v escaped args) :: rest => do
    let rest' ← walkPropsWith f rest
    return (k, .value v escaped args) :: rest'
  | (k, .collected exprs) :: rest => do
    let rest' ← walkPropsWith f rest
    return (k, .collected exprs) :: rest'
  | (k, .key name expr) :: rest => do
    let rest' ← walkPropsWith f rest
    return (k, .key name expr) :: rest'
end

/-- The visitor that applies `g` to the provenance of a node after it has noted the node. -/
def relabeling (note : IR → m Unit) (g : Provenance → Provenance) (n : IR) : m Provenance := do
  note n
  return g n.origin

/-- A walk with this visitor notes the nodes of the tree in order, and changes all provenances. -/
def NotesAll (note : IR → m Unit) (g : Provenance → Provenance) (n : IR) : Prop :=
  n.walkWith (relabeling note g) = do
    n.walk.forM note
    return n.mapOrigin g

variable [LawfulMonad m] {note : IR → m Unit} {g : Provenance → Provenance}

theorem walkAllWith_eq {nodes : List IR} (h : ∀ n ∈ nodes, NotesAll note g n) :
    walkAllWith (relabeling note g) nodes = do
      (walkAll nodes).forM note
      return nodes.map (mapOrigin g) := by
  induction nodes with
  | nil => simp [walkAllWith, walkAll]
  | cons n rest ih =>
    obtain ⟨hn, hrest⟩ := forall_mem_cons.mp h
    rw [walkAllWith, hn, ih hrest]
    simp [walkAll]

theorem walkPropsWith_eq {props : Props}
    (h : ∀ k nodes escaped args, (k, PropEntry.content nodes escaped args) ∈ props →
      ∀ n ∈ nodes, NotesAll note g n) :
    walkPropsWith (relabeling note g) props = do
      (walkProps props).forM note
      return props.map (Prod.map id (PropEntry.mapOrigin g)) := by
  induction props with
  | nil => simp [walkPropsWith, walkProps]
  | cons p rest ih =>
    have hrest := ih fun k nodes escaped args hmem =>
      h k nodes escaped args (mem_cons_of_mem _ hmem)
    obtain ⟨k, entry⟩ := p
    -- Only content has nodes in it, all other entries are passed by.
    cases entry with
    | content nodes escaped args =>
      rw [walkPropsWith, walkAllWith_eq (h k nodes escaped args mem_cons_self), hrest]
      simp [walkProps, PropEntry.mapOrigin]
    | value v escaped args | collected exprs | key name expr =>
      simp [walkPropsWith, hrest, walkProps, PropEntry.mapOrigin]

theorem walkWith_relabeling (n : IR) : NotesAll note g n := by
  unfold NotesAll
  induction n using induct with
  | atom a o => simp [walkWith, relabeling, walk, origin]
  | group head children o ih => simp [walkWith, relabeling, walk, origin, walkAllWith_eq ih]
  | tag name props children buffer o ih ihprops =>
    simp [walkWith, relabeling, walk, origin, walkAllWith_eq ih, walkPropsWith_eq ihprops]

end Offside.IR
