import Offside.Compile.FrontEnd
import Offside.Proofs.Compile.Agreement
import Offside.Proofs.Template.Grounded

/-!
# Captures inside captures

How deeply captures may lie inside each other is a number that compiling takes along. With the
bundled front end it never shows: what is captured weighs less than the text it is captured from, so
any two numbers above the weight of a text compile it alike (`atDepth_congr`), and the number that a
whole tree is compiled with is one of those.

So there is one way to compile text, `nested`, that allows for captures at any depth. It is a fixed
point (`nested_eq`), and compiling a source is nothing else (`source_eq`). Nothing after this module
speaks of depths.
-/

set_option autoImplicit false

namespace Offside

open List

namespace Text

/-- The number of characters that are no line feeds. -/
def weight (s : List Char) : Nat :=
  s.countP (· != '\n')

theorem weight_lt_of_cons_sublist {c : Char} {s t : List Char} (hc : c ≠ '\n') (h : c :: s <+ t) :
    weight s < weight t := by
  have hle : weight (c :: s) ≤ weight t := h.countP_le
  have hcons : weight (c :: s) = weight s + 1 := countP_cons_of_pos (by simpa using hc)
  omega

theorem weight_intercalate_cons (t : List Char) (rest : List (List Char)) :
    weight (['\n'].intercalate (t :: rest)) = weight t + weight (['\n'].intercalate rest) := by
  cases rest with
  | nil => simp [weight]
  | cons u rest => simp [weight, intercalate_cons_cons]

theorem length_le_utf8ByteSize (s : String) : s.toList.length ≤ s.utf8ByteSize := by
  rw [← String.ofList_toList (s := s), String.toList_ofList]
  -- From the end, since that is where appending to a string adds its bytes.
  induction s.toList using List.reverseRecOn with
  | nil => simp
  | append_singleton rest c ih =>
    rw [String.ofList_append, String.utf8ByteSize_append, length_append]
    have hc : 0 < (String.ofList [c]).utf8ByteSize := by
      rw [← String.singleton_eq_ofList, String.utf8ByteSize_singleton]
      exact c.utf8Size_pos
    simp only [length_singleton]
    omega

end Text

/-! ## How much text a tree holds -/

namespace Node

theorem textSize_le_textSizes {nodes : List Node} {k : Node} (hk : k ∈ nodes) :
    k.textSize ≤ textSizes nodes := by
  induction nodes with
  | nil => simp at hk
  | cons n rest ih =>
    rw [textSizes]
    rcases mem_cons.mp hk with rfl | hk
    · exact Nat.le_add_right _ _
    · exact Nat.le_add_left_of_le (ih hk)

/-- A tree holds at least the text of each node below its root. -/
theorem textSize_le_of_mem {n k : Node} (h : k ∈ n.held) : k.textSize ≤ n.textSize := by
  cases n using induct with
  | leaf l p | bare l p => simp [held, children, code?] at h
  | lead l nodes label p _ | frame f nodes label p _ | block nodes label p _ =>
    rw [textSize]
    exact textSize_le_textSizes (by simpa [held, children, code?, Block.nodes] using h)
  | tag t nodes label code p _ _ =>
    -- The code on the line of a tag counts as well, and is not among its nodes.
    cases code with
    | none =>
      rw [textSize]
      exact textSize_le_textSizes (by simpa [held, children, code?, Block.nodes] using h)
    | some c =>
      rw [textSize]
      rcases mem_held.mp h with hk | hk
      · obtain rfl : c = k := Option.some.inj hk
        exact Nat.le_add_left _ _
      · exact Nat.le_add_right_of_le (textSize_le_textSizes hk)

theorem textSize_le_of_mem_walk {n m : Node} (h : m ∈ n.walk) : m.textSize ≤ n.textSize := by
  induction n using induct_held with
  | h n ih =>
    rw [walk_eq, mem_cons, mem_walkAll] at h
    rcases h with rfl | ⟨k, hk, hm⟩
    · exact Nat.le_refl _
    · exact (ih k hk hm).trans (textSize_le_of_mem hk)

theorem weight_text?_le (n : Node) : Text.weight (n.text?.getD "").toList ≤ n.textSize := by
  cases n with
  | leaf l p =>
    cases l with
    | text t =>
      rw [textSize]
      exact (countP_le_length.trans (Text.length_le_utf8ByteSize t)).trans (Nat.le_succ _)
    | comment value buffer | literal expr buffer escape | yield name args | mixinBlock
    | doctype t =>
      simp [text?, Text.weight]
  | lead l body p | frame f body p | block body p | tag t body code p => simp [text?, Text.weight]

theorem weight_linesOf_le (nodes : List Node) :
    Text.weight (Compile.linesOf nodes).toList ≤ textSizes nodes := by
  -- The line feeds between the lines weigh nothing.
  have hlines : (Compile.linesOf nodes).toList =
      ['\n'].intercalate (nodes.map fun n => (n.text?.getD "").toList) := by
    simp [Compile.linesOf, Function.comp_def]
  rw [hlines]
  clear hlines
  induction nodes with
  | nil => simp [Text.weight]
  | cons n rest ih =>
    rw [map_cons, Text.weight_intercalate_cons, textSizes]
    exact Nat.add_le_add (weight_text?_le n) ih

/-- The text of a filter is among the texts of the tree. -/
theorem weight_filter_le {root : Node} {name : String} {attrs : List Attr} {body : Block}
    {p : Place}
    (h : .frame (.filter name attrs) body p ∈ root.walk) :
    Text.weight (Compile.linesOf body.nodes).toList ≤ root.textSize := by
  have hsize : textSizes body.nodes ≤ root.textSize := by
    cases body
    simpa [textSize, Block.nodes] using textSize_le_of_mem_walk h
  exact (weight_linesOf_le body.nodes).trans hsize

end Node

/-- What a filter of a template captures weighs less than the template. -/
theorem Template.weight_filter_lt {text : String} {f : Option String} {root : Node} {name : String}
    {attrs : List Attr} {body : Block} {p : Place} (hparse : parse text f = .ok root)
    (h : .frame (.filter name attrs) body p ∈ root.walk) :
    Text.weight (Compile.linesOf body.nodes).toList < Text.weight text.toList := by
  obtain ⟨c, hc, hsub⟩ := grounded_of_parse hparse _ h
  exact Text.weight_lt_of_cons_sublist hc hsub

/-- A grounded node is carried over if its capture is, should it be one. -/
theorem Node.Grounded.carries {T : Relabel} {o : Options}
    {embed embed' : Embed (Except CompileError)} {source : List Char} {n : Node}
    (h : n.Grounded source)
    (hcapture : ∀ attrs body p, n = .frame (.filter "capture" attrs) body p →
      Compile.capture (T.options o) embed' attrs (Compile.linesOf body.nodes) (T.place p) =
        T.visited (Compile.capture o embed attrs (Compile.linesOf body.nodes) p)) :
    n.Carries T o embed embed' := by
  cases n with
  | lead l body p =>
    cases l with
    | code coded buffer escape => exact .inl h
    | each header key | when expr | mixin name args call => trivial
  | frame f body p =>
    cases f with
    | filter name attrs =>
      rintro rfl
      exact hcapture attrs body p rfl
    | comment text buffer | caseOf expr => trivial
  | leaf l p | block body p | tag t body code p => trivial

namespace Compile

variable {o : Options} {source : List Char} {n : Node}

/-! ## Visits -/

/-- Only what the captures of a tree are compiled to matters. -/
theorem visit_congr {embed embed' : Embed (Except CompileError)}
    (hembed : ∀ attrs body p, .frame (.filter "capture" attrs) body p ∈ n.walk →
      embed' (linesOf body.nodes) = embed (linesOf body.nodes)) (host : Option Host) :
    visit o embed' host n = visit o embed host n := by
  have hany : Admits fun _ => True := ⟨fun _ _ => trivial, fun _ _ => trivial⟩
  refine (visit_agree hany (fun m hm => Node.agrees_of ?_ ?_) host).1
  · exact fun _ _ _ _ _ _ => .inr fun _ _ => trivial
  · rintro attrs body p rfl
    refine capture_agree (congrFun (hembed attrs body p hm) _) ?_
    exact Ends.of_forall (fun _ => trivial) (fun _ => trivial) _

/-- The visit of a tree further down is the visit of the tree, further down. -/
theorem visit_shift {embed : Embed (Except CompileError)} (hn : ∀ m ∈ n.walk, m.Grounded source)
    (offset : UInt64) : Relabels (.down offset) o embed embed n :=
  visit_relabel fun m hm => (hn m hm).carries fun attrs body p _ =>
    capture_shift o embed attrs (linesOf body.nodes) offset p

/-! ## Text at any depth -/

/-- Compile text in which captures lie at most `depth` levels deep. -/
def atDepth (o : Options) (depth : Nat) : Embed (Except CompileError) :=
  embedded o FrontEnd.bundled depth

theorem atDepth_succ (depth : Nat) (text : String) (f : Option String) :
    atDepth o (depth + 1) text f =
      match Template.parse text f with
      | .error e => .error (.frontEnd e)
      | .ok root => (visit o (atDepth o depth) none root).map Visited.toList := by
  simp only [atDepth, embedded, FrontEnd.bundled]
  cases Template.parse text f <;> rfl

/-- Any two depths above the weight of a text compile it alike. -/
theorem atDepth_congr {d d' : Nat} {text : String} (h : Text.weight text.toList < d)
    (h' : Text.weight text.toList < d') :
    atDepth o d text = atDepth o d' text := by
  -- The other depth is left open, as the text gets lighter while both go down.
  induction d generalizing d' text with
  | zero => exact absurd h (Nat.not_lt_zero _)
  | succ d ih =>
    obtain ⟨d', rfl⟩ := Nat.exists_eq_succ_of_ne_zero (Nat.ne_zero_of_lt h')
    funext f
    rw [atDepth_succ, Nat.succ_eq_add_one, atDepth_succ]
    cases hparse : Template.parse text f with
    | error e => rfl
    | ok root =>
      refine congrArg (Except.map Visited.toList) (visit_congr ?_ none)
      intro attrs body p hmem
      have hlt := Template.weight_filter_lt hparse hmem
      exact ih (by omega) (by omega)

/-- Compile text, however deeply captures lie inside each other. -/
def nested (o : Options) : Embed (Except CompileError) := fun text =>
  atDepth o (Text.weight text.toList + 1) text

/-- Text is parsed, and what it captures is compiled like the text itself. -/
theorem nested_eq (text : String) (f : Option String) :
    nested o text f =
      match Template.parse text f with
      | .error e => .error (.frontEnd e)
      | .ok root => (visit o (nested o) none root).map Visited.toList := by
  rw [nested, atDepth_succ]
  cases hparse : Template.parse text f with
  | error e => rfl
  | ok root =>
    refine congrArg (Except.map Visited.toList) (visit_congr ?_ none)
    -- The two sides allow different depths for a capture, and both are enough for it.
    intro attrs body p hmem
    exact atDepth_congr (Template.weight_filter_lt hparse hmem) (Nat.lt_succ_self _)

/-- So are the captures of a tree, whether it comes from a source or not. -/
theorem visitTree_eq (o : Options) (root : Node) :
    visitTree o root = visit o (nested o) none root := by
  refine visit_congr ?_ none
  intro attrs body p hmem
  exact atDepth_congr (Nat.lt_succ_of_le (Node.weight_filter_le hmem)) (Nat.lt_succ_self _)

theorem tree_eq (o : Options) (root : Node) :
    tree o root = (visit o (nested o) none root).map Visited.toList := by
  rw [tree, visitTree_eq]

/-- Compiling a source is compiling it as text at any depth. -/
theorem source_eq (o : Options) (s : String) : Compile.source o s = nested o s o.filename := by
  rw [nested_eq, Compile.source, parse]
  cases hparse : Template.parse s o.filename with
  | error e => rfl
  | ok root => exact tree_eq o root

/-! ## Lists of nodes -/

/-- Compile the nodes of a list, one after the other. -/
def visitAll (o : Options) (nodes : List Node) : Except CompileError (List IR) :=
  (visitEach o (nested o) none nodes).map fun results => results.flatMap fun r => r.2.toList

theorem visitAll_eq_visitList (nodes : List Node) :
    visitAll o nodes = visitList o (nested o) none nodes := rfl

theorem visitAll_nil : visitAll o [] = .ok [] := by
  rw [visitAll_eq_visitList, visitList_nil]
  rfl

theorem visitAll_cons (n : Node) (rest : List Node) :
    visitAll o (n :: rest) = (visit o (nested o) none n).bind fun v =>
      (visitAll o rest).bind fun nodes => .ok (v.toList ++ nodes) := by
  rw [visitAll_eq_visitList, visitList_cons]
  rfl

theorem visitAll_append (xs ys : List Node) :
    visitAll o (xs ++ ys) = (visitAll o xs).bind fun a =>
      (visitAll o ys).bind fun b => .ok (a ++ b) := by
  rw [visitAll_eq_visitList, visitList_append]
  rfl

theorem visitAll_shift {nodes : List Node} (hnodes : ∀ n ∈ nodes, ∀ m ∈ n.walk, m.Grounded source)
    (offset : UInt64) :
    visitAll o (nodes.map (Node.shift offset)) =
      mapBoth (CompileError.shift offset) (map (IR.shift offset)) (visitAll o nodes) :=
  visitList_relabel (fun n hn => visit_shift (hnodes n hn) offset) none

/-- Compile lines. -/
def visitLines (o : Options) (f : Option String) (lines : List Line) :
    Except CompileError (List IR) :=
  match Template.nodesOf f lines with
  | .error e => .error (.frontEnd e)
  | .ok nodes => visitAll o nodes

/-- Text is compiled line by line. -/
theorem nested_eq_visitLines (text : String) (f : Option String) :
    nested o text f = visitLines o f (Line.ofSource text) := by
  rw [nested_eq, Template.parse, visitLines]
  cases Template.nodesOf f (Line.ofSource text) with
  | error e => rfl
  | ok nodes =>
    simp only [Except.map, visit, Block.plain, visitAll, Option.map_none]
    cases visitEach o (nested o) none nodes <;> rfl

end Compile

end Offside
