import Mathlib.Data.List.Sort
import Offside.Proofs.Template.Reread

/-!
# The off-side rule

Which node holds which is decided by indentation alone. A line belongs to the nearest line above it
that is indented less, and to the template itself if there is none. Lines below a line that takes
them as text, or drops them, are no lines of the template.

The definitions here say so about the lines of a source, without parsing anything: `above?` is the
line that a line belongs to, `bodyOf` the lines below a line, and `childLines` the template lines
that belong to a line. `parse_arranged` says that this is what a template is parsed to. The lists of
nodes are the lists of lines, so that nothing is lost and nothing is there twice.
-/

set_option autoImplicit false

namespace Offside

open List

namespace Line

/-- The line takes the lines below it as text, or drops them. -/
def swallows (l : Line) : Bool :=
  match Template.Plan.ofContent l.content.toList with
  | .ok plan => !l.isBlank && plan.swallows
  | .error _ => false

theorem swallows_of_plan {l : Line} (hb : l.isBlank = false) {plan : Template.Plan}
    (hplan : Template.Plan.ofContent l.content.toList = .ok plan) :
    l.swallows = plan.swallows := by
  simp [swallows, hplan, hb]

theorem isBlank_of_swallows {l : Line} (h : l.swallows = true) : l.isBlank = false := by
  unfold swallows at h
  split at h
  · simpa using (Bool.and_eq_true_iff.mp h).1
  · cases h

/-- The lines are numbered upwards. -/
def Increasing (lines : List Line) : Prop :=
  lines.Pairwise fun a b => a.number < b.number

end Line

namespace Template

/-- The nearest line above `j` that is not blank and indented less. -/
def above? (lines : List Line) (j : Line) : Option Line :=
  (lines.filter fun i => !i.isBlank && decide (i.number < j.number ∧ i.indent < j.indent)).getLast?

/-- The lines below `i`: up to the next one that is indented no more, blank lines included. -/
def bodyOf (lines : List Line) (i : Line) : List Line :=
  (lines.filter fun j => decide (i.number < j.number)).takeWhile (Line.isBelow i.indent)

/-- The line is read as a template line: it is not blank, and no line swallows it. -/
def isTemplate (lines : List Line) (j : Line) : Bool :=
  !j.isBlank && lines.all fun i => !(i.swallows && (bodyOf lines i).contains j)

/-- The template lines that belong to `p`, or to no line. -/
def childLines (lines : List Line) (p : Option Line) : List Line :=
  lines.filter fun j => isTemplate lines j && (above? lines j == p)

/-- The node of a line that is read where it stands, with the lines below it. -/
def lineNode (filename : Option String) (lines : List Line) (i : Line) : Except ParseError Node :=
  readLine (placeOf filename i) ⟨bodyOf lines i, nodesOf filename (bodyOf lines i)⟩
    i.content.toList

namespace Plan

/-- The node that holds what lies below a line with this plan: the last one of an expansion. -/
def holder : Plan → Node → Node
  | .expansion _ child, n =>
    match n.children with
    | [inner] => child.holder inner
    | _ => n
  | _, n => n

/-- The text on the line, which comes in front of what lies below it. -/
def inline (place : Place) : Plan → List Node
  | .tag _ text _ _ => inlineText place text
  | .expansion _ child => child.inline place
  | _ => []

end Plan

/-! ## Lines in order -/

section Order

variable {lines : List Line} {i j k : Line}

theorem eq_of_number (h : Line.Increasing lines) (hi : i ∈ lines) (hj : j ∈ lines)
    (heq : i.number = j.number) : i = j := by
  have hnodup : (lines.map Line.number).Nodup := pairwise_map.mpr (h.imp Nat.ne_of_lt)
  exact inj_on_of_nodup_map hnodup hi hj heq

theorem eq_of_mem_iff {xs ys : List Line} (hx : Line.Increasing xs) (hy : Line.Increasing ys)
    (h : ∀ l, l ∈ xs ↔ l ∈ ys) : xs = ys := by
  have : Std.Irrefl fun a b : Line => a.number < b.number := ⟨fun a => Nat.lt_irrefl a.number⟩
  exact hx.eq_of_mem_iff hy h

theorem mem_takeWhile_iff {p : Line → Bool} (h : Line.Increasing lines) :
    j ∈ lines.takeWhile p ↔ j ∈ lines ∧ ∀ m ∈ lines, m.number ≤ j.number → p m = true := by
  -- In lines that are numbered upwards, `takeWhile` can be said by numbers: a line is taken if all
  -- lines up to it pass the test.
  induction lines with
  | nil => simp
  | cons l rest ih =>
    obtain ⟨hl, hrest⟩ := pairwise_cons.mp h
    by_cases hp : p l = true
    · rw [takeWhile_cons_of_pos hp, mem_cons, mem_cons, ih hrest]
      constructor
      · rintro (rfl | ⟨hj, hall⟩)
        · refine ⟨.inl rfl, fun m hm hle => ?_⟩
          rcases mem_cons.mp hm with rfl | hm
          · exact hp
          · exact absurd hle (Nat.not_le_of_lt (hl m hm))
        · refine ⟨.inr hj, fun m hm hle => ?_⟩
          rcases mem_cons.mp hm with rfl | hm
          · exact hp
          · exact hall m hm hle
      · rintro ⟨rfl | hj, hall⟩
        · exact .inl rfl
        · exact .inr ⟨hj, fun m hm => hall m (mem_cons_of_mem _ hm)⟩
    · rw [takeWhile_cons_of_neg hp]
      refine iff_of_false not_mem_nil fun ⟨hj, hall⟩ => hp (hall l mem_cons_self ?_)
      rcases mem_cons.mp hj with rfl | hj
      · exact Nat.le_refl _
      · exact Nat.le_of_lt (hl j hj)

theorem number_le_of_getLast? (h : Line.Increasing lines) (hi : lines.getLast? = some i) :
    ∀ m ∈ lines, m.number ≤ i.number := by
  obtain ⟨before, rfl⟩ := getLast?_eq_some_iff.mp hi
  intro m hm
  rcases mem_append.mp hm with hm | hm
  · exact Nat.le_of_lt ((pairwise_append.mp h).2.2 m hm i mem_cons_self)
  · rw [mem_singleton.mp hm]

theorem getLast?_eq_some_iff_number (h : Line.Increasing lines) :
    lines.getLast? = some i ↔ i ∈ lines ∧ ∀ m ∈ lines, m.number ≤ i.number := by
  refine ⟨fun hi => ⟨mem_of_getLast? hi, number_le_of_getLast? h hi⟩, fun ⟨hi, hmax⟩ => ?_⟩
  cases hlast : lines.getLast? with
  | none => rw [getLast?_eq_none_iff.mp hlast] at hi; simp at hi
  | some x =>
    have hx : x ∈ lines := mem_of_getLast? hlast
    rw [eq_of_number h hx hi (Nat.le_antisymm (hmax x hx) (number_le_of_getLast? h hlast i hi))]

/-- A line lies below `i` if all lines from `i` on up to it do. -/
theorem mem_bodyOf (h : Line.Increasing lines) :
    j ∈ bodyOf lines i ↔ j ∈ lines ∧ i.number < j.number ∧
      ∀ m ∈ lines, i.number < m.number → m.number ≤ j.number → m.isBelow i.indent = true := by
  rw [bodyOf, mem_takeWhile_iff (h.filter _)]
  simp only [mem_filter, decide_eq_true_eq, and_assoc, and_imp]

theorem above?_eq_some_iff (h : Line.Increasing lines) :
    above? lines j = some i ↔
      (i ∈ lines ∧ i.isBlank = false ∧ i.number < j.number ∧ i.indent < j.indent) ∧
      ∀ m ∈ lines, m.isBlank = false → m.number < j.number → m.indent < j.indent →
        m.number ≤ i.number := by
  rw [above?, getLast?_eq_some_iff_number (h.filter _)]
  simp only [mem_filter, Bool.and_eq_true, Bool.not_eq_true', decide_eq_true_eq, and_imp]

theorem above?_eq_none_iff :
    above? lines j = none ↔
      ∀ m ∈ lines, m.isBlank = false → m.number < j.number → j.indent ≤ m.indent := by
  rw [above?, getLast?_eq_none_iff, filter_eq_nil_iff]
  simp only [Bool.and_eq_true, Bool.not_eq_true', decide_eq_true_eq, not_and, Nat.not_lt]

theorem isTemplate_iff :
    isTemplate lines j = true ↔
      j.isBlank = false ∧ ∀ i ∈ lines, i.swallows = true → j ∉ bodyOf lines i := by
  simp only [isTemplate, Bool.and_eq_true, Bool.not_eq_true', all_eq_true, Bool.and_eq_false_imp,
    contains_eq_mem, decide_eq_false_iff_not]

theorem mem_childLines {p : Option Line} :
    j ∈ childLines lines p ↔ j ∈ lines ∧ isTemplate lines j = true ∧ above? lines j = p := by
  simp [childLines]

end Order

/-! ## Inside the body of a line -/

section Body

variable {lines : List Line} {i j k m : Line}

theorem increasing_bodyOf (h : Line.Increasing lines) : Line.Increasing (bodyOf lines i) :=
  (h.filter _).sublist (takeWhile_sublist _)

theorem mem_bodyOf_between (h : Line.Increasing lines) (hj : j ∈ bodyOf lines i) (hm : m ∈ lines)
    (him : i.number < m.number) (hmj : m.number ≤ j.number) : m ∈ bodyOf lines i := by
  obtain ⟨-, -, hall⟩ := (mem_bodyOf h).mp hj
  exact (mem_bodyOf h).mpr
    ⟨hm, him, fun x hx hix hxm => hall x hx hix (Nat.le_trans hxm hmj)⟩

theorem indent_lt_of_mem_bodyOf (h : Line.Increasing lines) (hj : j ∈ bodyOf lines i)
    (hb : j.isBlank = false) : i.indent < j.indent := by
  obtain ⟨hmem, hlt, hall⟩ := (mem_bodyOf h).mp hj
  simpa [Line.isBelow, hb] using hall j hmem hlt (Nat.le_refl _)

theorem mem_bodyOf_trans (h : Line.Increasing lines) (hj : j ∈ bodyOf lines i)
    (hb : j.isBlank = false) (hk : k ∈ bodyOf lines j) : k ∈ bodyOf lines i := by
  have hdeep := indent_lt_of_mem_bodyOf h hj hb
  obtain ⟨-, hij, hall⟩ := (mem_bodyOf h).mp hj
  obtain ⟨hmem, hjk, hbelow⟩ := (mem_bodyOf h).mp hk
  refine (mem_bodyOf h).mpr ⟨hmem, Nat.lt_trans hij hjk, ?_⟩
  intro m hm him hmk
  -- A line up to `j` lies below `i` since `j` does. Behind `j` it goes deeper than `j`, which goes
  -- deeper than `i`.
  by_cases hmj : m.number ≤ j.number
  · exact hall m hm him hmj
  · have := hbelow m hm (Nat.lt_of_not_le hmj) hmk
    simp only [Line.isBelow, Bool.or_eq_true, decide_eq_true_eq] at this ⊢
    exact this.imp_right (Nat.lt_trans hdeep)

theorem bodyOf_bodyOf (h : Line.Increasing lines) (hj : j ∈ bodyOf lines i)
    (hb : j.isBlank = false) : bodyOf (bodyOf lines i) j = bodyOf lines j := by
  -- Both are lists of lines in order, so it is enough that they have the same lines.
  refine eq_of_mem_iff (increasing_bodyOf (increasing_bodyOf h)) (increasing_bodyOf h) fun k => ?_
  rw [mem_bodyOf (increasing_bodyOf h)]
  have hij := ((mem_bodyOf h).mp hj).2.1
  constructor
  · rintro ⟨hk, hjk, hall⟩
    refine (mem_bodyOf h).mpr ⟨((mem_bodyOf h).mp hk).1, hjk, fun m hm hjm hmk => ?_⟩
    exact hall m (mem_bodyOf_between h hk hm (Nat.lt_trans hij hjm) hmk) hjm hmk
  · intro hk
    obtain ⟨-, hjk, hall⟩ := (mem_bodyOf h).mp hk
    exact ⟨mem_bodyOf_trans h hj hb hk, hjk, fun m hm => hall m ((mem_bodyOf h).mp hm).1⟩

theorem mem_bodyOf_of_above? (h : Line.Increasing lines) (hj : j ∈ lines)
    (habove : above? lines j = some i) : j ∈ bodyOf lines i := by
  obtain ⟨⟨-, -, hij, hindent⟩, hlast⟩ := (above?_eq_some_iff h).mp habove
  refine (mem_bodyOf h).mpr ⟨hj, hij, ?_⟩
  intro m hm him hmj
  -- A line in between that is indented no more than `i` would be nearer to `j` than `i` is.
  by_contra hnot
  simp only [Line.isBelow, Bool.or_eq_true, decide_eq_true_eq, not_or, Bool.not_eq_true,
    Nat.not_lt] at hnot
  have hless : m.indent < j.indent := Nat.lt_of_le_of_lt hnot.2 hindent
  have hne : m.number ≠ j.number := fun heq =>
    Nat.lt_irrefl _ (eq_of_number h hm hj heq ▸ hless)
  exact Nat.not_le_of_lt him (hlast m hm hnot.1 (Nat.lt_of_le_of_ne hmj hne) hless)

/-- The lines that belong to `i` are those that belong to no line of its body. -/
theorem above?_eq_some_iff_body (h : Line.Increasing lines) (hi : i ∈ lines)
    (hib : i.isBlank = false) (hj : j ∈ lines) (hjb : j.isBlank = false) :
    above? lines j = some i ↔ j ∈ bodyOf lines i ∧ above? (bodyOf lines i) j = none := by
  constructor
  · intro habove
    have hmem := mem_bodyOf_of_above? h hj habove
    refine ⟨hmem, above?_eq_none_iff.mpr ?_⟩
    intro m hm hmb hmj
    by_contra hless
    rw [Nat.not_le] at hless
    obtain ⟨hm, him, -⟩ := (mem_bodyOf h).mp hm
    exact Nat.not_le_of_lt him (((above?_eq_some_iff h).mp habove).2 m hm hmb hmj hless)
  · rintro ⟨hmem, hnone⟩
    have hij := ((mem_bodyOf h).mp hmem).2.1
    refine (above?_eq_some_iff h).mpr
      ⟨⟨hi, hib, hij, indent_lt_of_mem_bodyOf h hmem hjb⟩, ?_⟩
    -- A line that is nearer to `j` than `i` would be in the body and indented less than `j`.
    intro m hm hmb hmj hless
    by_contra him
    rw [Nat.not_le] at him
    refine Nat.not_le_of_lt hless ?_
    exact above?_eq_none_iff.mp hnone m
      (mem_bodyOf_between h hmem hm him (Nat.le_of_lt hmj)) hmb hmj

/-- A template line belongs to a template line that does not swallow it. -/
theorem isTemplate_of_above? (h : Line.Increasing lines) (hj : j ∈ lines)
    (ht : isTemplate lines j = true) (habove : above? lines j = some i) :
    i ∈ lines ∧ isTemplate lines i = true ∧ i.swallows = false := by
  obtain ⟨⟨hi, hib, -⟩, -⟩ := (above?_eq_some_iff h).mp habove
  have hmem := mem_bodyOf_of_above? h hj habove
  obtain ⟨-, hfree⟩ := isTemplate_iff.mp ht
  refine ⟨hi, isTemplate_iff.mpr ⟨hib, ?_⟩, Bool.eq_false_iff.mpr ?_⟩
  · intro k hk hswallows hik
    exact hfree k hk hswallows (mem_bodyOf_trans h hik hib hmem)
  · intro hswallows
    exact hfree i hi hswallows hmem

/-- What the lines of a body are can be told from the body, if it is read at all. -/
theorem isTemplate_bodyOf (h : Line.Increasing lines) (hi : i ∈ lines)
    (ht : isTemplate lines i = true) (hs : i.swallows = false) (hj : j ∈ bodyOf lines i) :
    isTemplate (bodyOf lines i) j = isTemplate lines j := by
  obtain ⟨hmem, hij, -⟩ := (mem_bodyOf h).mp hj
  rw [Bool.eq_iff_iff, isTemplate_iff, isTemplate_iff]
  refine and_congr_right fun hjb => ⟨?_, ?_⟩
  · intro hfree k hk hswallows hjk
    obtain ⟨-, hkj, -⟩ := (mem_bodyOf h).mp hjk
    -- A line that swallows `j` stands above `i`, and then swallows `i` too, or in the body of `i`.
    rcases Nat.lt_trichotomy k.number i.number with hlt | heq | hgt
    · exact (isTemplate_iff.mp ht).2 k hk hswallows
        (mem_bodyOf_between h hjk hi hlt (Nat.le_of_lt hij))
    · rw [eq_of_number h hk hi heq, hs] at hswallows
      cases hswallows
    · have hki := mem_bodyOf_between h hj hk hgt (Nat.le_of_lt hkj)
      refine hfree k hki hswallows ?_
      rwa [bodyOf_bodyOf h hki (Line.isBlank_of_swallows hswallows)]
  · intro hfree k hk hswallows hjk
    rw [bodyOf_bodyOf h hk (Line.isBlank_of_swallows hswallows)] at hjk
    exact hfree k ((mem_bodyOf h).mp hk).1 hswallows hjk

theorem childLines_bodyOf (h : Line.Increasing lines) (hi : i ∈ lines)
    (ht : isTemplate lines i = true) (hs : i.swallows = false) :
    childLines (bodyOf lines i) none = childLines lines (some i) := by
  refine eq_of_mem_iff ((increasing_bodyOf h).filter _) (h.filter _) fun j => ?_
  have hib := (isTemplate_iff.mp ht).1
  rw [mem_childLines, mem_childLines]
  constructor
  · rintro ⟨hj, htj, hnone⟩
    rw [isTemplate_bodyOf h hi ht hs hj] at htj
    have hmem := ((mem_bodyOf h).mp hj).1
    exact ⟨hmem, htj, (above?_eq_some_iff_body h hi hib hmem (isTemplate_iff.mp htj).1).mpr
      ⟨hj, hnone⟩⟩
  · rintro ⟨hmem, htj, habove⟩
    obtain ⟨hj, hnone⟩ :=
      (above?_eq_some_iff_body h hi hib hmem (isTemplate_iff.mp htj).1).mp habove
    exact ⟨hj, (isTemplate_bodyOf h hi ht hs hj).trans htj, hnone⟩

theorem lineNode_bodyOf (filename : Option String) (h : Line.Increasing lines)
    (hj : j ∈ bodyOf lines i) (hb : j.isBlank = false) :
    lineNode filename (bodyOf lines i) j = lineNode filename lines j := by
  rw [lineNode, lineNode, bodyOf_bodyOf h hj hb]

end Body

/-! ## Behind other lines -/

section After

variable {filename : Option String} {level : Nat} {xs ys : List Line} {j : Line}

/-- The lines `xs` go no less deep than `level`, and what lies below one of them ends with them. -/
def Closed (level : Nat) (xs ys : List Line) : Prop :=
  ∀ k ∈ xs, k.isBlank = false → level ≤ k.indent ∧ ∀ y ∈ ys.head?, y.isBelow k.indent = false

theorem bodyOf_append_right (h : Line.Increasing (xs ++ ys)) (hj : j ∈ ys) :
    bodyOf (xs ++ ys) j = bodyOf ys j := by
  have hnil : (xs.filter fun k => decide (j.number < k.number)) = [] := by
    refine filter_eq_nil_iff.mpr fun x hx => ?_
    simpa using Nat.le_of_lt ((pairwise_append.mp h).2.2 x hx j hj)
  rw [bodyOf, filter_append, hnil, nil_append, bodyOf]

theorem not_mem_bodyOf_of_closed (h : Line.Increasing (xs ++ ys)) (hclosed : Closed level xs ys)
    {k : Line} (hk : k ∈ xs) (hb : k.isBlank = false) (hj : j ∈ ys) : j ∉ bodyOf (xs ++ ys) k := by
  intro hmem
  obtain ⟨-, -, hall⟩ := (mem_bodyOf h).mp hmem
  obtain ⟨-, hys, hlt⟩ := pairwise_append.mp h
  -- A body has no gaps: it would have to contain the first line of `ys`, where it ends.
  cases ys with
  | nil => simp at hj
  | cons y rest =>
    have hyj : y.number ≤ j.number := by
      rcases mem_cons.mp hj with rfl | hj
      · exact Nat.le_refl _
      · exact Nat.le_of_lt ((pairwise_cons.mp hys).1 j hj)
    have hbelow := hall y (mem_append_right _ mem_cons_self) (hlt k hk y mem_cons_self) hyj
    rw [(hclosed k hk hb).2 y rfl] at hbelow
    cases hbelow

theorem isTemplate_append_right (h : Line.Increasing (xs ++ ys)) (hclosed : Closed level xs ys)
    (hj : j ∈ ys) : isTemplate (xs ++ ys) j = isTemplate ys j := by
  rw [Bool.eq_iff_iff, isTemplate_iff, isTemplate_iff]
  refine and_congr_right fun _ => ⟨?_, ?_⟩
  · intro hfree k hk hs
    rw [← bodyOf_append_right h hk]
    exact hfree k (mem_append_right _ hk) hs
  · intro hfree k hk hs
    rcases mem_append.mp hk with hk | hk
    · exact not_mem_bodyOf_of_closed h hclosed hk (Line.isBlank_of_swallows hs) hj
    · rw [bodyOf_append_right h hk]
      exact hfree k hk hs

theorem above?_append_eq_none_iff (hclosed : Closed level xs ys)
    (hlevel : above? ys j = none → j.indent = level) :
    above? (xs ++ ys) j = none ↔ above? ys j = none := by
  rw [above?_eq_none_iff]
  constructor
  · intro hall
    exact above?_eq_none_iff.mpr fun m hm => hall m (mem_append_right _ hm)
  · intro hnone m hm hb hlt
    rcases mem_append.mp hm with hm | hm
    · rw [hlevel hnone]
      exact (hclosed m hm hb).1
    · exact above?_eq_none_iff.mp hnone m hm hb hlt

theorem lineNode_append_right (h : Line.Increasing (xs ++ ys)) (hj : j ∈ ys) :
    lineNode filename (xs ++ ys) j = lineNode filename ys j := by
  rw [lineNode, bodyOf_append_right h hj, lineNode]

/-- How lines that are read on a level stand to the nodes they give. -/
structure Lined (filename : Option String) (level : Nat) (lines : List Line) (nodes : List Node) :
    Prop where
  deep : ∀ j ∈ lines, j.isBlank = false → level ≤ j.indent
  onLevel : ∀ j ∈ lines, j.isBlank = false → above? lines j = none → j.indent = level
  top : (childLines lines none).map (lineNode filename lines) = nodes.map .ok
  read : ∀ j ∈ lines, isTemplate lines j = true → ∃ n, lineNode filename lines j = .ok n

/-- Lines can be put in front if what belongs to the template among them, and what they are read
to, is known. -/
theorem Lined.append {nodes : List Node} (xs : List Line) (front : List Node)
    (h : Line.Increasing (xs ++ ys)) (hclosed : Closed level xs ys)
    (hys : Lined filename level ys nodes)
    (honLevel : ∀ j ∈ xs, j.isBlank = false → above? (xs ++ ys) j = none → j.indent = level)
    (htop : (xs.filter fun j => isTemplate (xs ++ ys) j && (above? (xs ++ ys) j == none)).map
      (lineNode filename (xs ++ ys)) = front.map .ok)
    (hread : ∀ j ∈ xs, isTemplate (xs ++ ys) j = true →
      ∃ n, lineNode filename (xs ++ ys) j = .ok n) :
    Lined filename level (xs ++ ys) (front ++ nodes) where
  deep j hj hb := (mem_append.mp hj).elim (fun hj => (hclosed j hj hb).1) fun hj => hys.deep j hj hb
  onLevel j hj hb hnone := by
    rcases mem_append.mp hj with hj | hj
    · exact honLevel j hj hb hnone
    · exact hys.onLevel j hj hb
        ((above?_append_eq_none_iff hclosed (hys.onLevel j hj hb)).mp hnone)
  top := by
    -- In front of `ys` nothing changes which of its lines belong to the template, or to no line.
    have hsame : (ys.filter fun j => isTemplate (xs ++ ys) j && (above? (xs ++ ys) j == none)) =
        childLines ys none := by
      refine filter_congr fun j hj => ?_
      rw [isTemplate_append_right h hclosed hj, Bool.eq_iff_iff, Bool.and_eq_true,
        Bool.and_eq_true, beq_iff_eq, beq_iff_eq]
      refine and_congr_right fun ht => above?_append_eq_none_iff hclosed ?_
      exact hys.onLevel j hj (isTemplate_iff.mp ht).1
    rw [childLines, filter_append, map_append, map_append, htop, hsame, ← hys.top]
    refine congrArg _ (map_congr_left fun j hj => ?_)
    exact lineNode_append_right h (mem_childLines.mp hj).1
  read j hj ht := by
    rcases mem_append.mp hj with hj | hj
    · exact hread j hj ht
    · rw [isTemplate_append_right h hclosed hj] at ht
      rw [lineNode_append_right h hj]
      exact hys.read j hj ht

end After

/-! ## Along the reading of lines -/

section Reading

variable {filename : Option String} {level : Nat} {l : Line} {rest : List Line}

theorem Plan.Builds.children_holder {place : Place} {below : Below} {plan : Plan} {node : Node}
    (h : plan.Builds place below node) (hs : plan.swallows = false)
    (hempty : below.isEmpty = true → below.nodes = .ok []) :
    ∃ nodes, below.nodes = .ok nodes ∧
      (plan.holder node).children = plan.inline place ++ nodes := by
  induction h with
  | bare he | noLead he => exact ⟨[], hempty he, rfl⟩
  | lead hn | caseOf hn | block hn | tag hn => exact ⟨_, hn, rfl⟩
  | expansion _ ih => exact ih hs
  | doctype | comment | remark | filter | rawTag => cases hs

theorem exists_of_lineNode {lines : List Line} {node : Node} (hb : l.isBlank = false)
    (hs : l.swallows = false) (h : lineNode filename lines l = .ok node) :
    ∃ plan nodes, Plan.ofContent l.content.toList = .ok plan ∧
      nodesOf filename (bodyOf lines l) = .ok nodes ∧
      (plan.holder node).children = plan.inline (placeOf filename l) ++ nodes := by
  obtain ⟨plan, hplan, hbuilds⟩ := builds_of_readLine h
  obtain ⟨nodes, hnodes, hchildren⟩ := hbuilds.children_holder
    ((Line.swallows_of_plan hb hplan).symm.trans hs) fun he =>
      siblings_of_blank _ (all_eq_true.mp he)
  exact ⟨plan, nodes, hplan, hnodes, hchildren⟩

theorem bodyOf_cons_self (h : Line.Increasing (l :: rest)) :
    bodyOf (l :: rest) l = rest.takeWhile (Line.isBelow l.indent) := by
  obtain ⟨hl, -⟩ := pairwise_cons.mp h
  rw [bodyOf, filter_cons_of_neg (by simp), filter_eq_self.mpr (by simpa using hl)]

theorem first_mem_childLines (h : Line.Increasing (l :: rest)) (hb : l.isBlank = false) :
    isTemplate (l :: rest) l = true ∧ above? (l :: rest) l = none := by
  have hfirst : ∀ m ∈ l :: rest, ¬ m.number < l.number := by
    intro m hm
    rcases mem_cons.mp hm with rfl | hm
    · exact Nat.lt_irrefl _
    · exact Nat.not_lt_of_lt ((pairwise_cons.mp h).1 m hm)
  refine ⟨isTemplate_iff.mpr ⟨hb, fun k hk _ hmem => ?_⟩, above?_eq_none_iff.mpr ?_⟩
  · exact hfirst k hk ((mem_bodyOf h).mp hmem).2.1
  · exact fun m hm _ hlt => absurd hlt (hfirst m hm)

theorem closed_dropWhile (rest : List Line) :
    Closed l.indent (l :: rest.takeWhile (Line.isBelow l.indent))
      (rest.dropWhile (Line.isBelow l.indent)) := by
  intro k hk hkb
  have hle : l.indent ≤ k.indent := by
    rcases mem_cons.mp hk with rfl | hk
    · exact Nat.le_refl _
    · have hbelow := mem_takeWhile_imp hk
      exact Nat.le_of_lt (by simpa [Line.isBelow, hkb] using hbelow)
  refine ⟨hle, fun y hy => ?_⟩
  have hstop := head?_dropWhile_not (Line.isBelow l.indent) rest
  rw [hy] at hstop
  simp only [Line.isBelow, Bool.or_eq_false_iff, decide_eq_false_iff_not, Nat.not_lt] at hstop ⊢
  exact ⟨hstop.1, Nat.le_trans hstop.2 hle⟩

/-- A line in front of lines on its level, with its body in between. -/
theorem Lined.line {body after : List Line} {node : Node} {others : List Node}
    (h : Line.Increasing (l :: body ++ after)) (hb : l.isBlank = false)
    (hclosed : Closed l.indent (l :: body) after) (hbody : bodyOf (l :: body ++ after) l = body)
    (hnode : lineNode filename (l :: body ++ after) l = .ok node)
    (hlined : ∀ nodes, nodesOf filename body = .ok nodes →
      Lined filename (levelOf body) body nodes)
    (hafter : Lined filename l.indent after others) :
    Lined filename l.indent (l :: body ++ after) (node :: others) := by
  obtain ⟨ht, hnone⟩ : isTemplate (l :: body ++ after) l = true ∧
      above? (l :: body ++ after) l = none := first_mem_childLines h hb
  have hl : l ∈ l :: body ++ after := mem_cons_self
  have hmem : ∀ j ∈ body, j ∈ bodyOf (l :: body ++ after) l := fun j hj => hbody.symm ▸ hj
  -- The lines of the body have at least `l` above them, so none of them belongs to the template.
  have hheld : ∀ j ∈ body, j.isBlank = false → above? (l :: body ++ after) j ≠ none := by
    intro j hj hjb hjnone
    refine Nat.not_le_of_lt (indent_lt_of_mem_bodyOf h (hmem j hj) hjb) ?_
    exact above?_eq_none_iff.mp hjnone l hl hb ((mem_bodyOf h).mp (hmem j hj)).2.1
  refine Lined.append (l :: body) [node] h hclosed hafter ?_ ?_ ?_
  · intro j hj hjb hjnone
    rcases mem_cons.mp hj with rfl | hj
    · rfl
    · exact absurd hjnone (hheld j hj hjb)
  · rw [filter_cons_of_pos (by rw [ht, hnone]; rfl), filter_eq_nil_iff.mpr ?_]
    · rw [map_singleton, hnode]
      rfl
    · intro j hj hkept
      rw [Bool.and_eq_true, beq_iff_eq] at hkept
      exact hheld j hj (isTemplate_iff.mp hkept.1).1 hkept.2
  · intro j hj htj
    rcases mem_cons.mp hj with rfl | hj
    · exact ⟨node, hnode⟩
    · have hs : l.swallows = false := Bool.eq_false_iff.mpr fun hswallows =>
        (isTemplate_iff.mp htj).2 l hl hswallows (hmem j hj)
      -- Then `l` had the lines below it read, and what holds of `j` in the body holds of it here.
      obtain ⟨_, nodes, -, hnodes, -⟩ := exists_of_lineNode hb hs hnode
      rw [hbody] at hnodes
      rw [← isTemplate_bodyOf h hl ht hs (hmem j hj), hbody] at htj
      have hread := (hlined nodes hnodes).read j hj htj
      rwa [← lineNode_bodyOf filename h (hmem j hj) (isTemplate_iff.mp htj).1, hbody]

/-- Lines that are read on a level are lined up with their nodes. -/
theorem siblings_lined {lines : List Line} {nodes : List Node} (h : Line.Increasing lines)
    (hok : siblings filename level lines = .ok nodes) : Lined filename level lines nodes := by
  -- A blank line adds nothing to the lines behind it. Any other line is followed by its body, which
  -- is lined up on a level of its own, and by the rest of the lines on this level.
  induction level, lines using siblings_induct generalizing nodes with
  | nil level =>
    rw [siblings_nil] at hok
    cases hok
    exact ⟨by simp, by simp, rfl, by simp⟩
  | blank level l rest hb ih =>
    rw [siblings_blank hb] at hok
    have hnone : ∀ j ∈ [l], j.isBlank = false → False := fun j hj hjb => by
      rw [mem_singleton.mp hj, hb] at hjb
      cases hjb
    refine Lined.append [l] [] h (fun k hk hkb => (hnone k hk hkb).elim)
      (ih (pairwise_cons.mp h).2 hok) (fun j hj hjb => (hnone j hj hjb).elim) ?_
      fun j hj ht => (hnone j hj (isTemplate_iff.mp ht).1).elim
    simp [isTemplate, hb]
  | dedent level l rest hb hlt => rw [siblings_dedent hb hlt] at hok; cases hok
  | unexpected level l rest hb hlt => rw [siblings_unexpected hb hlt] at hok; cases hok
  | line level l rest hb heq hbody hafter =>
    obtain ⟨node, others, hnode, hothers, rfl⟩ := exists_of_siblings_line hb heq hok
    subst heq
    have hsplit := takeWhile_append_dropWhile (p := Line.isBelow l.indent) (l := rest)
    have hself := bodyOf_cons_self h
    rw [← hsplit] at h
    obtain ⟨hinc, hincAfter, -⟩ := pairwise_append.mp (pairwise_cons.mp h).2
    have hlined := Lined.line h hb (closed_dropWhile rest) (by rw [cons_append, hsplit, hself])
      (by rw [lineNode, cons_append, hsplit, hself, hnode])
      (fun nodes hnodes => hbody hinc hnodes) (hafter hincAfter hothers)
    rwa [cons_append, hsplit] at hlined

end Reading

/-! ## Templates -/

theorem increasing_numberFrom (n : Nat) (texts : List (List Char)) :
    Line.Increasing (Line.numberFrom n texts) ∧ ∀ l ∈ Line.numberFrom n texts, n ≤ l.number := by
  induction texts generalizing n with
  | nil => exact ⟨Pairwise.nil, by simp [Line.numberFrom]⟩
  | cons s rest ih =>
    obtain ⟨hinc, hle⟩ := ih (n + 1)
    refine ⟨pairwise_cons.mpr ⟨fun l hl => hle l hl, hinc⟩, fun l hl => ?_⟩
    rcases mem_cons.mp hl with rfl | hl
    · exact Nat.le_refl _
    · exact Nat.le_of_succ_le (hle l hl)

theorem increasing_ofSource (source : String) : Line.Increasing (Line.ofSource source) :=
  (increasing_numberFrom 1 _).1

theorem place_of_lineNode {filename : Option String} {lines : List Line} {i : Line} {node : Node}
    (h : lineNode filename lines i = .ok node) : node.place = placeOf filename i := by
  obtain ⟨plan, -, hbuilds⟩ := builds_of_readLine h
  cases hbuilds <;> rfl

/-- The lines below a line that swallows nothing are read on a level of their own. -/
theorem exists_lined_bodyOf {filename : Option String} {lines : List Line} {i : Line} {node : Node}
    (h : Line.Increasing lines) (hb : i.isBlank = false) (hs : i.swallows = false)
    (hnode : lineNode filename lines i = .ok node) :
    ∃ plan nodes, Plan.ofContent i.content.toList = .ok plan ∧
      (plan.holder node).children = plan.inline (placeOf filename i) ++ nodes ∧
      Lined filename (levelOf (bodyOf lines i)) (bodyOf lines i) nodes := by
  obtain ⟨plan, nodes, hplan, hnodes, hchildren⟩ := exists_of_lineNode hb hs hnode
  exact ⟨plan, nodes, hplan, hchildren, siblings_lined (increasing_bodyOf h) hnodes⟩

theorem eq_map_of_map_eq_ok {filename : Option String} {lines : List Line} {node : Line → Node}
    {xs : List Line} {nodes : List Node} (h : xs.map (lineNode filename lines) = nodes.map .ok)
    (hnode : ∀ i ∈ xs, lineNode filename lines i = .ok (node i)) : nodes = xs.map node := by
  have hsame : (nodes.map .ok : List (Except ParseError Node)) = (xs.map node).map .ok := by
    rw [← h, map_map]
    exact map_congr_left hnode
  exact map_injective_iff.mpr (fun _ _ => Except.ok.inj) hsame

/-- Nodes that stand to the lines of a source as the indentation says. The template lines are the
ones that are not blank and that no line swallows; `node` gives the node of each. -/
structure Arranged (filename : Option String) (lines : List Line) (nodes : List Node)
    (node : Line → Node) : Prop where
  /-- Each template line is read once, with the lines below it, and gives a node at its place. -/
  read : ∀ i ∈ lines, isTemplate lines i = true →
    lineNode filename lines i = .ok (node i) ∧ (node i).place = placeOf filename i
  /-- The lines that belong to no line make up the template. -/
  top : nodes = (childLines lines none).map node
  /-- The lines that belong to a line are what its node holds, after the text on the line; a line
  with an expansion has them in the last node of that. -/
  below : ∀ i ∈ lines, isTemplate lines i = true → i.swallows = false →
    ∃ plan, Plan.ofContent i.content.toList = .ok plan ∧
      (plan.holder (node i)).children =
        plan.inline (placeOf filename i) ++ (childLines lines (some i)).map node
  /-- A template line belongs to a template line that has the lines below it read. -/
  above : ∀ i, ∀ j ∈ lines, isTemplate lines j = true → above? lines j = some i →
    i ∈ lines ∧ isTemplate lines i = true ∧ i.swallows = false
  /-- The lines of one list are in the order of the source. -/
  ordered : ∀ p, Line.Increasing (childLines lines p)
  /-- The lines of one list are indented alike. -/
  aligned : ∀ p, ∃ width, ∀ j ∈ childLines lines p, j.indent = width

theorem arranged_of_lined {filename : Option String} {level : Nat} {lines : List Line}
    {nodes : List Node} {node : Line → Node} (h : Line.Increasing lines)
    (hlined : Lined filename level lines nodes)
    (hnode : ∀ i ∈ lines, isTemplate lines i = true → lineNode filename lines i = .ok (node i)) :
    Arranged filename lines nodes node where
  read i hi ht := ⟨hnode i hi ht, place_of_lineNode (hnode i hi ht)⟩
  top := eq_map_of_map_eq_ok hlined.top fun i hi =>
    hnode i (mem_childLines.mp hi).1 (mem_childLines.mp hi).2.1
  below i hi ht hs := by
    obtain ⟨plan, below, hplan, hchildren, hbody⟩ :=
      exists_lined_bodyOf h (isTemplate_iff.mp ht).1 hs (hnode i hi ht)
    refine ⟨plan, hplan, hchildren.trans (congrArg _ ?_)⟩
    rw [← childLines_bodyOf h hi ht hs]
    refine eq_map_of_map_eq_ok hbody.top fun j hj => ?_
    obtain ⟨hj, htj, -⟩ := mem_childLines.mp hj
    rw [lineNode_bodyOf filename h hj (isTemplate_iff.mp htj).1]
    exact hnode j ((mem_bodyOf h).mp hj).1 (isTemplate_bodyOf h hi ht hs hj ▸ htj)
  above i j hj ht habove := isTemplate_of_above? h hj ht habove
  ordered p := h.filter _
  aligned p := by
    cases p with
    | none =>
      refine ⟨level, fun j hj => ?_⟩
      obtain ⟨hj, ht, hnone⟩ := mem_childLines.mp hj
      exact hlined.onLevel j hj (isTemplate_iff.mp ht).1 hnone
    | some i =>
      cases hlist : childLines lines (some i) with
      | nil => exact ⟨0, by simp⟩
      | cons first others =>
        obtain ⟨hfirst, htfirst, habove⟩ := mem_childLines.mp (hlist ▸ mem_cons_self)
        obtain ⟨hi, ht, hs⟩ := isTemplate_of_above? h hfirst htfirst habove
        obtain ⟨_, _, -, -, hbody⟩ :=
          exists_lined_bodyOf h (isTemplate_iff.mp ht).1 hs (hnode i hi ht)
        refine ⟨levelOf (bodyOf lines i), fun j hj => ?_⟩
        rw [← hlist, ← childLines_bodyOf h hi ht hs] at hj
        obtain ⟨hj, htj, hnone⟩ := mem_childLines.mp hj
        exact hbody.onLevel j hj (isTemplate_iff.mp htj).1 hnone

theorem exists_arranged {source : String} {filename : Option String} {nodes : List Node}
    (h : nodesOf filename (Line.ofSource source) = .ok nodes) :
    ∃ node, Arranged filename (Line.ofSource source) nodes node := by
  have hinc := increasing_ofSource source
  have hlined := siblings_lined hinc h
  have : Nonempty Node := ⟨.block (.plain nodes) ⟨1, filename⟩⟩
  choose! node hnode using hlined.read
  exact ⟨node, arranged_of_lined hinc hlined hnode⟩

/-- A source that parses is arranged by its indentation. -/
theorem parse_arranged {source : String} {filename : Option String} {root : Node}
    (h : parse source filename = .ok root) :
    ∃ nodes node, root = .block (.plain nodes) ⟨1, filename⟩ ∧
      Arranged filename (Line.ofSource source) nodes node := by
  obtain ⟨nodes, hnodes, rfl⟩ := exists_of_map_eq_ok h
  obtain ⟨node, harranged⟩ := exists_arranged hnodes
  exact ⟨nodes, node, rfl, harranged⟩

/-- A line with an expansion, a blank line below it, and a body that is swallowed. -/
theorem parse_arranged_expansion :
    let source := "ul\n  li: b Home\n\n    | x\n  :capture\n    p\n| d"
    let lines := Line.ofSource source
    (lines.map fun j => (isTemplate lines j, (above? lines j).map Line.number)) =
        [(true, none), (true, some 1), (false, none), (true, some 2), (true, some 1),
          (false, some 5), (true, none)] ∧
      ∃ root, parse source none = .ok root ∧
        ∃ nodes node, root = .block (.plain nodes) ⟨1, none⟩ ∧ Arranged none lines nodes node := by
  refine ⟨by decide +kernel, ?_⟩
  have hok : (parse "ul\n  li: b Home\n\n    | x\n  :capture\n    p\n| d" none).isOk = true := by
    decide +kernel
  cases h : parse "ul\n  li: b Home\n\n    | x\n  :capture\n    p\n| d" none with
  | error e => rw [h] at hok; cases hok
  | ok root => exact ⟨root, rfl, parse_arranged h⟩

end Template

end Offside
