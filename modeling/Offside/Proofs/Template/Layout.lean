import Offside.Proofs.Template.Grounded

/-!
# Where nodes stand

The nodes of lines stand on those lines, under the name of the template, and in the order of the
source: walking the tree, line numbers never decrease. A filter has a node on the last line of its
text, so that the text can be compiled and moved down without leaving the lines it is taken from.
An error is found on one of the lines, too.

Line numbers are words. They count the lines as long as there are fewer than `UInt64.size` of
them, which is assumed throughout.
-/

set_option autoImplicit false

namespace Offside

open List

/-- The place is in the template `f`, on one of the lines from `lo` to `hi`. -/
def Place.Within (f : Option String) (lo hi : Nat) (p : Place) : Prop :=
  p.filename = f ∧ lo ≤ p.line.toNat ∧ p.line.toNat ≤ hi

theorem Place.Within.mono {f : Option String} {lo lo' hi hi' : Nat} {p : Place}
    (h : p.Within f lo hi) (hlo : lo' ≤ lo) (hhi : hi ≤ hi') : p.Within f lo' hi' :=
  ⟨h.1, hlo.trans h.2.1, h.2.2.trans hhi⟩

namespace Node

/-- The number of the line that the node stands on. -/
def line (n : Node) : Nat :=
  n.place.line.toNat

/-- The text of a filter ends on the line of some node in it. -/
def TextFits : Node → Prop
  | .frame (.filter name attrs) body p =>
    ∃ k ∈ (Node.frame (.filter name attrs) body p).walk,
      p.line.toNat + (Line.ofSource (Compile.linesOf body.nodes)).length ≤ k.line
  | _ => True

/-- The nodes stand in the template `f`, on the lines from `lo` to `hi`, in order. -/
structure Laid (f : Option String) (lo hi : Nat) (nodes : List Node) : Prop where
  within : ∀ m ∈ walkAll nodes, m.place.Within f lo hi
  ordered : (walkAll nodes).Pairwise fun a b => a.line ≤ b.line
  texts : ∀ m ∈ walkAll nodes, m.TextFits

namespace Laid

variable {f : Option String} {lo mid hi : Nat} {xs ys : List Node} {n : Node}

theorem nil : Laid f lo hi [] :=
  ⟨by simp [walkAll], by simp [walkAll], by simp [walkAll]⟩

theorem mono {lo' hi' : Nat} (h : Laid f lo hi xs) (hlo : lo' ≤ lo) (hhi : hi ≤ hi') :
    Laid f lo' hi' xs :=
  ⟨fun m hm => (h.within m hm).mono hlo hhi, h.ordered, h.texts⟩

theorem append (hx : Laid f lo mid xs) (hy : Laid f mid hi ys) (hlo : lo ≤ mid) (hhi : mid ≤ hi) :
    Laid f lo hi (xs ++ ys) := by
  refine ⟨?_, ?_, ?_⟩
  · intro m hm
    rw [walkAll_append, mem_append] at hm
    exact hm.elim (fun h => (hx.within m h).mono (Nat.le_refl _) hhi)
      fun h => (hy.within m h).mono hlo (Nat.le_refl _)
  · rw [walkAll_append, pairwise_append]
    refine ⟨hx.ordered, hy.ordered, fun a ha b hb => ?_⟩
    exact (hx.within a ha).2.2.trans (hy.within b hb).2.1
  · intro m hm
    rw [walkAll_append, mem_append] at hm
    exact hm.elim (hx.texts m) (hy.texts m)

/-- A node in front of all that it holds. -/
theorem root (hn : n.place.Within f lo hi) (htext : n.TextFits) (hheld : Laid f n.line hi n.held) :
    Laid f lo hi [n] := by
  refine ⟨?_, ?_, ?_⟩
  · rw [walkAll_singleton]
    intro m hm
    rcases mem_cons.mp hm with rfl | hm
    · exact hn
    · exact (hheld.within m hm).mono hn.2.1 (Nat.le_refl _)
  · rw [walkAll_singleton, pairwise_cons]
    exact ⟨fun m hm => (hheld.within m hm).2.1, hheld.ordered⟩
  · rw [walkAll_singleton]
    intro m hm
    rcases mem_cons.mp hm with rfl | hm
    · exact htext
    · exact hheld.texts m hm

theorem leaf {l : Leaf} {p : Place} (hp : p.Within f lo hi) : Laid f lo hi [.leaf l p] :=
  root hp trivial nil

end Laid

end Node

namespace Template

open Node

variable {f : Option String} {n hi : Nat}

/-! ## Lines of text -/

theorem line_placeOf {l : Line} (h : l.number < UInt64.size) :
    (placeOf f l).line.toNat = l.number :=
  UInt64.toNat_ofNat_of_lt h

theorem within_placeOf {l : Line} {lo : Nat} (hlo : lo ≤ l.number) (hhi : l.number ≤ hi)
    (hword : hi < UInt64.size) : (placeOf f l).Within f lo hi := by
  have hline := line_placeOf (f := f) (Nat.lt_of_le_of_lt hhi hword)
  exact ⟨rfl, hline ▸ hlo, hline ▸ hhi⟩

theorem laid_texts {lines : List Line} (hlines : Line.Consecutive n lines)
    (hhi : n + lines.length ≤ hi + 1) (hword : hi < UInt64.size) (text : Line → String) :
    Laid f n hi (lines.map fun l => .leaf (.text (text l)) (placeOf f l)) := by
  induction lines generalizing n with
  | nil => exact .nil
  | cons l rest ih =>
    obtain ⟨⟨s, _, rfl⟩, hrest⟩ := hlines
    rw [length_cons] at hhi
    have hfirst : Laid f n n [.leaf (.text (text (.ofText n s))) (placeOf f (.ofText n s))] :=
      .leaf (within_placeOf (Nat.le_refl n) (Nat.le_refl n) (by omega))
    have hothers := ih hrest (by omega)
    exact hfirst.append (hothers.mono (Nat.le_succ n) (Nat.le_refl hi)) (Nat.le_refl n) (by omega)

theorem laid_verbatim {lines : List Line} (hlines : Line.Consecutive n lines)
    (hhi : n + lines.length ≤ hi + 1) (hword : hi < UInt64.size) :
    Laid f n hi (verbatim f lines) := by
  obtain ⟨z, hz⟩ := dropBlankEnd_isPrefix lines
  rw [← hz, Line.consecutive_append] at hlines
  have hlen : (dropBlankEnd lines).length ≤ lines.length := (dropBlankEnd_isPrefix lines).length_le
  exact laid_texts hlines.1 (by omega) hword _

/-- The number of the last of some lines in a row. -/
theorem number_getLast {lines : List Line} {l : Line} (hlines : Line.Consecutive n lines)
    (hl : lines.getLast? = some l) : l.number + 1 = n + lines.length := by
  obtain ⟨xs, rfl⟩ := getLast?_eq_some_iff.mp hl
  obtain ⟨⟨s, _, rfl⟩, -⟩ := (Line.consecutive_append.mp hlines).2
  simp only [Line.ofText, length_append, length_singleton]
  omega

/-- The text of a filter ends on the line of its last node. -/
theorem textFits_filter {name : String} {attrs : List Attr} {p : Place} {lines : List Line}
    (hlines : Line.Consecutive (p.line.toNat + 1) lines)
    (hword : p.line.toNat + lines.length < UInt64.size) :
    (Node.frame (.filter name attrs) (.plain (verbatim f lines)) p).TextFits := by
  have hrows : Line.Consecutive (1 + p.line.toNat) lines := Nat.add_comm 1 _ ▸ hlines
  have hlen : (Line.ofSource (Compile.linesOf (verbatim f lines))).length =
      (dropBlankEnd lines).length := (ofSource_linesOf hrows).length_eq
  obtain ⟨z, hz⟩ := dropBlankEnd_isPrefix lines
  have hbody : Line.Consecutive (p.line.toNat + 1) (dropBlankEnd lines) := by
    rw [← hz, Line.consecutive_append] at hlines
    exact hlines.1
  cases hlast : (dropBlankEnd lines).getLast? with
  | none =>
    refine ⟨_, self_mem_walk _, ?_⟩
    rw [getLast?_eq_none_iff] at hlast
    simp [Block.plain, Block.nodes, hlen, hlast, Node.line, Node.place]
  | some l =>
    have hnumber := number_getLast hbody hlast
    have hle : (dropBlankEnd lines).length ≤ lines.length := (dropBlankEnd_isPrefix lines).length_le
    have hmem :
        Node.leaf (.text (verbatimText (commonIndent (dropBlankEnd lines)) l)) (placeOf f l) ∈
          verbatim f lines := mem_map_of_mem (mem_of_getLast? hlast)
    have hline := line_placeOf (f := f) (show l.number < UInt64.size by omega)
    refine ⟨_, mem_walk_of_mem_held (mem_held.mpr (.inr hmem)), ?_⟩
    simp only [Block.plain, Block.nodes, hlen, Node.line, Node.place, hline]
    omega

/-! ## The node of a line -/

namespace Plan

variable {place : Place} {below : Below}

/-- The node of a line stands on the line, before what lies below it. -/
theorem laid_of_builds {plan : Plan} {node : Node} (h : plan.Builds place below node)
    (hplace : place.Within f place.line.toNat hi)
    (hverbatim : Laid f place.line.toNat hi (verbatim place.filename below.lines))
    (htext : ∀ name attrs, (Node.frame (.filter name attrs)
      (.plain (verbatim place.filename below.lines)) place).TextFits)
    (hbelow : ∀ nodes, below.nodes = .ok nodes → Laid f place.line.toNat hi nodes) :
    Laid f place.line.toNat hi [node] := by
  have hself : place.Within f place.line.toNat place.line.toNat :=
    ⟨hplace.1, Nat.le_refl _, Nat.le_refl _⟩
  -- What is on the line of a tag, besides the tag, comes before what lies below.
  have hinline {text : Option String} {code : Option (String × Bool)} {nodes : List Node}
      (hnodes : Laid f place.line.toNat hi nodes) :
      Laid f place.line.toNat hi
        ((inlineCode place code).toList ++ (inlineText place text ++ nodes)) := by
    have hcode : Laid f place.line.toNat place.line.toNat (inlineCode place code).toList := by
      cases code with
      | none => exact .nil
      | some c => exact .root hself trivial .nil
    have htext : Laid f place.line.toNat place.line.toNat (inlineText place text) := by
      cases text with
      | none => exact .nil
      | some t => exact .leaf hself
    exact hcode.append (htext.append hnodes (Nat.le_refl _) hplace.2.2) (Nat.le_refl _) hplace.2.2
  induction h with
  | bare | doctype | comment => exact .leaf hplace
  | noLead => exact .root hplace trivial .nil
  | remark => exact .root hplace trivial hverbatim
  | lead h => exact .root hplace trivial (hbelow _ h)
  | caseOf h => exact .root hplace trivial (hbelow _ h)
  | block h => exact .root hplace trivial (hbelow _ h)
  | filter => exact .root hplace (htext _ _) hverbatim
  | rawTag => exact .root hplace trivial (hinline hverbatim)
  | tag h => exact .root hplace trivial (hinline (hbelow _ h))
  | expansion h ih => exact .root hplace trivial ih

/-- A plan fails on its own line, or as the lines below it do. -/
theorem error_of_build {plan : Plan} {e : ParseError} (h : plan.build place below = .error e) :
    e.place = place ∨ below.nodes = .error e := by
  induction plan with
  | bare what leaf =>
    unfold build Template.bare at h
    split at h <;> cases h
    exact .inl rfl
  | doctype text | filter name attrs => cases h
  | comment text buffer =>
    unfold build at h
    split at h <;> cases h
  | lead l always =>
    -- The block below is asked for in one of two ways, which fail alike.
    have hblock : below.block = .error e := by
      have h := eq_error_of_map h
      cases always with
      | true => exact eq_error_of_map h
      | false =>
        simp only [Bool.false_eq_true, if_false, Below.block?] at h
        split at h
        · cases h
        · exact eq_error_of_map h
    exact .inr (eq_error_of_map hblock)
  | caseOf expr => exact .inr (eq_error_of_map (eq_error_of_map h))
  | block label => exact .inr (eq_error_of_map h)
  | tag t text code raw =>
    have h := eq_error_of_map h
    cases raw with
    | true => cases h
    | false => exact .inr h
  | expansion t child ih => exact ih (eq_error_of_map h)

end Plan

theorem error_of_readLine {place : Place} {below : Below} {content : List Char} {e : ParseError}
    (h : readLine place below content = .error e) : e.place = place ∨ below.nodes = .error e := by
  rw [readLine_eq_build] at h
  cases hplan : Plan.ofContent content with
  | error fault =>
    rw [hplan] at h
    cases h
    exact .inl rfl
  | ok plan =>
    rw [hplan] at h
    exact Plan.error_of_build h

/-- A line that is read stands before what lies below it and ends where that ends. -/
theorem readLine_laid {place : Place} {body : List Line} (hfile : place.filename = f)
    (hline : place.line.toNat = n) (hbody : Line.Consecutive (n + 1) body)
    (hword : n + body.length < UInt64.size)
    (hbelow : Ends (fun e => e.place.Within f (n + 1) (n + body.length))
      (Laid f (n + 1) (n + body.length)) (nodesOf f body)) (content : List Char) :
    Ends (fun e => e.place.Within f n (n + body.length))
      (fun node => Laid f n (n + body.length) [node])
      (readLine place ⟨body, nodesOf f body⟩ content) := by
  subst hfile hline
  have hplace : place.Within place.filename place.line.toNat (place.line.toNat + body.length) :=
    ⟨rfl, Nat.le_refl _, Nat.le_add_right _ _⟩
  cases hread : readLine place ⟨body, nodesOf place.filename body⟩ content with
  | error e =>
    rcases error_of_readLine hread with he | he
    · show Place.Within _ _ _ e.place
      rw [he]
      exact hplace
    · rw [show nodesOf place.filename body = .error e from he] at hbelow
      exact Place.Within.mono hbelow (Nat.le_succ _) (Nat.le_refl _)
  | ok node =>
    obtain ⟨plan, -, hbuilds⟩ := builds_of_readLine hread
    have hverbatim := laid_verbatim (f := place.filename) hbody (by omega) hword
    refine Plan.laid_of_builds hbuilds hplace (hverbatim.mono (Nat.le_succ _) (Nat.le_refl _))
      (fun name attrs => textFits_filter hbody hword) fun nodes hnodes => ?_
    rw [show nodesOf place.filename body = .ok nodes from hnodes] at hbelow
    exact Laid.mono hbelow (Nat.le_succ _) (Nat.le_refl _)

/-! ## All lines -/

theorem within_head {l : Line} {rest : List Line} (hlines : Line.Consecutive n (l :: rest))
    (hhi : n ≤ hi) (hword : hi < UInt64.size) : (placeOf f l).Within f n hi := by
  obtain ⟨⟨s, _, rfl⟩, -⟩ := hlines
  exact within_placeOf (Nat.le_refl n) hhi hword

/-- The nodes of lines stand on those lines, in order, and so do errors. -/
theorem siblings_laid {level : Nat} {lines : List Line} (hlines : Line.Consecutive n lines)
    (hhi : n + lines.length ≤ hi + 1) (hword : hi < UInt64.size) :
    Ends (fun e => e.place.Within f n hi) (Laid f n hi) (siblings f level lines) := by
  induction level, lines using siblings_induct generalizing n hi with
  | nil level =>
    rw [siblings_nil]
    exact Laid.nil
  | blank level l rest hb ih =>
    rw [siblings_blank hb]
    rw [length_cons] at hhi
    exact (ih hlines.2 (by omega) hword).mono (fun e he => he.mono (Nat.le_succ n) (Nat.le_refl hi))
      fun nodes h => h.mono (Nat.le_succ n) (Nat.le_refl hi)
  | dedent level l rest hb hlt =>
    rw [siblings_dedent hb hlt]
    exact within_head hlines (by rw [length_cons] at hhi; omega) hword
  | unexpected level l rest hb hlt =>
    rw [siblings_unexpected hb hlt]
    exact within_head hlines (by rw [length_cons] at hhi; omega) hword
  | line level l rest hb heq ihbody ihafter =>
    rw [siblings_line hb heq]
    have hsplit := takeWhile_append_dropWhile (p := Line.isBelow level) (l := rest)
    have hlen := congrArg length hsplit
    rw [length_append] at hlen
    rw [length_cons] at hhi
    obtain ⟨hbody, hafter⟩ := Line.consecutive_append.mp (hsplit ▸ hlines.2)
    obtain ⟨⟨s, _, rfl⟩, -⟩ := hlines
    -- The line ends where the lines below it end, and there the others start.
    generalize hn : n + (rest.takeWhile (Line.isBelow level)).length = mid
    have hline : (placeOf f (.ofText n s)).line.toNat = n :=
      line_placeOf (show n < UInt64.size by omega)
    have hnode := readLine_laid rfl hline hbody (by omega) (ihbody hbody (by omega) (by omega))
      (Line.ofText n s).content.toList
    have hothers := ihafter hafter (by omega) hword
    rw [hn] at hnode
    refine Ends.bind (hnode.mono (fun e he => he.mono (Nat.le_refl n) (by omega)) fun _ h => h)
      fun node hnode => ?_
    refine Ends.bind (hothers.mono (fun e he => he.mono (by omega) (Nat.le_refl hi)) fun _ h => h)
      fun others hothers => ?_
    exact hnode.append (hothers.mono (by omega) (Nat.le_refl hi)) (by omega) (by omega)

/-- The nodes of a source stand on its lines, in order, and so does its error. -/
theorem nodesOf_laid {source : String} (hword : (Line.ofSource source).length < UInt64.size) :
    Ends (fun e => e.place.Within f 1 (Line.ofSource source).length)
      (Laid f 1 (Line.ofSource source).length) (nodesOf f (Line.ofSource source)) :=
  siblings_laid (Line.consecutive_ofSource source) (by omega) hword

end Template

end Offside
