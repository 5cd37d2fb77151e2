import Offside.Proofs.Template.Cursor
import Offside.Proofs.Template.OffsideRule

/-!
# Lines and open levels

A line fits if its width is that of a level that is open where it stands: the level of the template,
or the level of the lines below one of the lines it is in the body of (`Fits`). This is said about
the lines of a source, without parsing anything, and it decides, with what each line is by itself,
whether a template can be read and what is said if not (`parse_ok_iff`, `parse_error_iff`). The
first template line that is not in order is reported: for its width, for lines below it where none
may be, or for a fault of its own.

In particular no line is ever found to be indented unexpectedly. A line that goes too deep goes
deeper than the line before it, and either that line opens a level for it or it is reported itself.
-/

set_option autoImplicit false

namespace Offside

open List

namespace Template

namespace Plan

/-- The lines below a line with this plan are read on a level of their own. -/
def opens : Plan → Bool
  | .lead _ _ | .caseOf _ | .block _ => true
  | .tag _ _ _ raw => !raw
  | .expansion _ child => child.opens
  | .bare _ _ | .doctype _ | .comment _ _ | .filter _ _ => false

/-- What nothing may be nested below, if the plan is for such a line. -/
def bareLine? : Plan → Option BareLine
  | .bare what _ => some what
  | .expansion _ child => child.bareLine?
  | _ => none

end Plan

end Template

/-- The line opens a level for the lines below it. -/
def Line.opens (l : Line) : Bool :=
  match Template.Plan.ofContent l.content.toList with
  | .ok plan => !l.isBlank && plan.opens
  | .error _ => false

theorem Line.opens_of_plan {l : Line} (hb : l.isBlank = false) {plan : Template.Plan}
    (hplan : Template.Plan.ofContent l.content.toList = .ok plan) : l.opens = plan.opens := by
  simp [opens, hplan, hb]

theorem Line.isBlank_of_opens {l : Line} (h : l.opens = true) : l.isBlank = false := by
  unfold opens at h
  split at h
  · simpa using (Bool.and_eq_true_iff.mp h).1
  · cases h

namespace Template

/-! ## Lines in order -/

/-- The width of the line is that of an open level: `level`, that of the lines themselves, or the
one that a line further up has opened for the lines below it. -/
def Fits (level : Nat) (lines : List Line) (j : Line) : Prop :=
  j.indent = level ∨ ∃ i ∈ lines, i.opens = true ∧ j ∈ bodyOf lines i ∧
    j.indent = levelOf (bodyOf lines i)

instance (level : Nat) (lines : List Line) : DecidablePred (Fits level lines) := fun _ =>
  inferInstanceAs (Decidable (_ ∨ _))

/-- The line can be read where it stands. -/
structure Sound (level : Nat) (lines : List Line) (j : Line) : Prop where
  fits : Fits level lines j
  reads : ∃ plan, Plan.ofContent j.content.toList = .ok plan ∧
    (plan.bareLine? ≠ none → nextLine (bodyOf lines j) = none)

/-- What is wrong with the line, and what is said about it. -/
inductive Blames (filename : Option String) (level : Nat) (lines : List Line) (i : Line) :
    ParseError → Prop
  | dedent (h : ¬Fits level lines i) :
    Blames filename level lines i ⟨placeOf filename i, .dedent i.indent⟩
  /-- A line below a line that takes none fits no level. -/
  | nested {plan : Plan} {what : BareLine} {j : Line} (h : Fits level lines i)
      (hplan : Plan.ofContent i.content.toList = .ok plan) (hwhat : plan.bareLine? = some what)
      (hnext : nextLine (bodyOf lines i) = some j) (hj : ¬Fits level lines j) :
    Blames filename level lines i ⟨placeOf filename i, .nested what⟩
  | own {fault : ParseFault} (h : Fits level lines i)
      (hplan : Plan.ofContent i.content.toList = .error fault) :
    Blames filename level lines i ⟨placeOf filename i, fault⟩

/-- The error is about the first template line that cannot be read. -/
def Reported (filename : Option String) (level : Nat) (lines : List Line) (e : ParseError) : Prop :=
  ∃ i ∈ lines, isTemplate lines i = true ∧
    (∀ j ∈ lines, isTemplate lines j = true → j.number < i.number → Sound level lines j) ∧
    Blames filename level lines i e

section Lines

variable {filename : Option String} {level level' : Nat} {lines lines' : List Line} {i j : Line}
  {e : ParseError}

theorem mem_of_nextLine (h : nextLine lines = some j) : j ∈ lines ∧ j.isBlank = false :=
  ⟨mem_of_find?_eq_some h, by simpa using find?_some h⟩

theorem nextLine_eq_none_iff : nextLine lines = none ↔ lines.all Line.isBlank = true := by
  simp [nextLine]

theorem Sound.transfer (hbody : bodyOf lines' j = bodyOf lines j)
    (hfits : Fits level' lines' j ↔ Fits level lines j) (h : Sound level lines j) :
    Sound level' lines' j where
  fits := hfits.mpr h.fits
  reads := by
    rw [hbody]
    exact h.reads

theorem Blames.transfer (hb : i.isBlank = false) (hbody : bodyOf lines' i = bodyOf lines i)
    (hfits : ∀ j ∈ i :: bodyOf lines i, j.isBlank = false →
      (Fits level' lines' j ↔ Fits level lines j)) (h : Blames filename level lines i e) :
    Blames filename level' lines' i e := by
  have hi := hfits i mem_cons_self hb
  cases h with
  | dedent h => exact .dedent (mt hi.mp h)
  | nested h hplan hwhat hnext hj =>
    obtain ⟨hmem, hjb⟩ := mem_of_nextLine hnext
    exact .nested (hi.mpr h) hplan hwhat (hbody ▸ hnext)
      (mt (hfits _ (mem_cons_of_mem _ hmem) hjb).mp hj)
  | own h hplan => exact .own (hi.mpr h) hplan

/-- A line that can be read is not blamed. -/
theorem Sound.not_blames (h : Sound level lines i) : ¬Blames filename level lines i e := by
  obtain ⟨hfits, plan, hplan, hbare⟩ := h
  intro hblames
  cases hblames with
  | dedent hnot => exact hnot hfits
  | nested _ hplan' hwhat hnext _ =>
    cases hplan.symm.trans hplan'
    rw [hbare (by simp [hwhat])] at hnext
    cases hnext
  | own _ hplan' => cases hplan.symm.trans hplan'

/-- A line is blamed for one thing. -/
theorem Blames.unique {e' : ParseError} (h : Blames filename level lines i e)
    (h' : Blames filename level lines i e') : e = e' := by
  cases h with
  | dedent h =>
    cases h' with
    | dedent _ => rfl
    | nested h' | own h' => exact absurd h' h
  | nested h hplan hwhat =>
    cases h' with
    | dedent h' => exact absurd h h'
    | nested _ hplan' hwhat' =>
      cases hplan.symm.trans hplan'
      rw [Option.some.inj (hwhat.symm.trans hwhat')]
    | own _ hplan' => cases hplan.symm.trans hplan'
  | own h hplan =>
    cases h' with
    | dedent h' => exact absurd h h'
    | nested _ hplan' => cases hplan.symm.trans hplan'
    | own _ hplan' =>
      cases hplan.symm.trans hplan'
      rfl

/-- There is one error to report. -/
theorem Reported.unique (hinc : Line.Increasing lines) {e' : ParseError}
    (h : Reported filename level lines e) (h' : Reported filename level lines e') : e = e' := by
  obtain ⟨i, hi, ht, hbefore, hblames⟩ := h
  obtain ⟨i', hi', ht', hbefore', hblames'⟩ := h'
  -- The line that comes first of the two is sound by the other report, so it cannot be to blame.
  rcases Nat.lt_trichotomy i.number i'.number with hlt | heq | hgt
  · exact ((hbefore' i hi ht hlt).not_blames hblames).elim
  · cases eq_of_number hinc hi hi' heq
    exact hblames.unique hblames'
  · exact ((hbefore i' hi' ht' hgt).not_blames hblames').elim

end Lines

/-! ## In bodies and behind other lines -/

section Parts

variable {filename : Option String} {level level' : Nat} {xs ys rest : List Line} {l j : Line}
  {e : ParseError}

theorem fits_append_right (h : Line.Increasing (xs ++ ys)) (hclosed : Closed level' xs ys)
    (hj : j ∈ ys) : Fits level (xs ++ ys) j ↔ Fits level ys j := by
  -- Lines behind a closed part lie in no body of it, so only bodies among themselves count, and
  -- those are the same with or without the part in front.
  refine or_congr_right ⟨?_, ?_⟩
  · rintro ⟨i, hi, hopens, hmem, heq⟩
    rcases mem_append.mp hi with hi | hi
    · exact absurd hmem
        (not_mem_bodyOf_of_closed h hclosed hi (Line.isBlank_of_opens hopens) hj)
    · rw [bodyOf_append_right h hi] at hmem heq
      exact ⟨i, hi, hopens, hmem, heq⟩
  · rintro ⟨i, hi, hopens, hmem, heq⟩
    rw [← bodyOf_append_right h hi] at hmem heq
    exact ⟨i, mem_append_right _ hi, hopens, hmem, heq⟩

/-- Below the first line, what fits is what fits among the lines below it. -/
theorem fits_bodyOf (h : Line.Increasing (l :: rest)) (hl : l.opens = true)
    (hj : j ∈ bodyOf (l :: rest) l) (hb : j.isBlank = false) :
    Fits l.indent (l :: rest) j ↔
      Fits (levelOf (bodyOf (l :: rest) l)) (bodyOf (l :: rest) l) j := by
  constructor
  · rintro (heq | ⟨i, hi, hopens, hmem, heq⟩)
    · -- The level of the first line itself is no longer open below it.
      exact absurd heq.symm (Nat.ne_of_lt (indent_lt_of_mem_bodyOf h hj hb))
    · rcases mem_cons.mp hi with rfl | hrest
      · exact .inl heq
      · -- The body that `j` is in belongs to a line between `l` and `j`, which lies below `l` as
        -- well.
        have hbody : i ∈ bodyOf (l :: rest) l := mem_bodyOf_between h hj hi
          ((pairwise_cons.mp h).1 i hrest) (Nat.le_of_lt ((mem_bodyOf h).mp hmem).2.1)
        rw [← bodyOf_bodyOf h hbody (Line.isBlank_of_opens hopens)] at hmem heq
        exact .inr ⟨i, hbody, hopens, hmem, heq⟩
  · rintro (heq | ⟨i, hi, hopens, hmem, heq⟩)
    · exact .inr ⟨l, mem_cons_self, hl, hj, heq⟩
    · rw [bodyOf_bodyOf h hi (Line.isBlank_of_opens hopens)] at hmem heq
      exact .inr ⟨i, ((mem_bodyOf h).mp hi).1, hopens, hmem, heq⟩

theorem sound_append (h : Line.Increasing (xs ++ ys)) (hclosed : Closed level' xs ys)
    (hxs : ∀ j ∈ xs, isTemplate (xs ++ ys) j = true → Sound level (xs ++ ys) j)
    (hj : j ∈ xs ++ ys) (ht : isTemplate (xs ++ ys) j = true)
    (hys : j ∈ ys → isTemplate ys j = true → Sound level ys j) : Sound level (xs ++ ys) j := by
  rcases mem_append.mp hj with hj | hj
  · exact hxs j hj ht
  · rw [isTemplate_append_right h hclosed hj] at ht
    exact (hys hj ht).transfer (bodyOf_append_right h hj) (fits_append_right h hclosed hj)

/-- What is reported about lines is reported about them behind lines that can be read. -/
theorem Reported.append (h : Line.Increasing (xs ++ ys)) (hclosed : Closed level' xs ys)
    (hxs : ∀ j ∈ xs, isTemplate (xs ++ ys) j = true → Sound level (xs ++ ys) j)
    (hys : Reported filename level ys e) : Reported filename level (xs ++ ys) e := by
  obtain ⟨i, hi, ht, hbefore, hblames⟩ := hys
  rw [← isTemplate_append_right h hclosed hi] at ht
  -- The same line is to blame. What is before it is the part in front or was before it already.
  refine ⟨i, mem_append_right _ hi, ht, fun j hj htj hlt => ?_, ?_⟩
  · exact sound_append h hclosed hxs hj htj fun hj htj => hbefore j hj htj hlt
  · refine hblames.transfer (isTemplate_iff.mp ht).1 (bodyOf_append_right h hi) fun j hj _ => ?_
    refine fits_append_right h hclosed ?_
    rcases mem_cons.mp hj with rfl | hj
    · exact hi
    · exact ((mem_bodyOf (pairwise_append.mp h).2.1).mp hj).1

theorem not_lt_first (h : Line.Increasing (l :: rest)) (hj : j ∈ l :: rest) :
    ¬j.number < l.number := by
  rcases mem_cons.mp hj with rfl | hj
  · exact Nat.lt_irrefl _
  · exact Nat.lt_asymm ((pairwise_cons.mp h).1 j hj)

theorem Reported.first (h : Line.Increasing (l :: rest)) (hb : l.isBlank = false)
    (hblames : Blames filename level (l :: rest) l e) : Reported filename level (l :: rest) e :=
  ⟨l, mem_cons_self, (first_mem_childLines h hb).1,
    fun _ hj _ hlt => (not_lt_first h hj hlt).elim, hblames⟩

/-- The lines below the first line are read as lines of their own. -/
theorem sound_bodyOf (h : Line.Increasing (l :: rest)) (hl : l.opens = true)
    (hj : j ∈ bodyOf (l :: rest) l) (hb : j.isBlank = false)
    (hsound : Sound (levelOf (bodyOf (l :: rest) l)) (bodyOf (l :: rest) l) j) :
    Sound l.indent (l :: rest) j :=
  hsound.transfer (bodyOf_bodyOf h hj hb).symm (fits_bodyOf h hl hj hb)

theorem Reported.below (h : Line.Increasing (l :: rest)) (hopens : l.opens = true)
    (hswallows : l.swallows = false) (hl : Sound l.indent (l :: rest) l)
    (hbody : Reported filename (levelOf (bodyOf (l :: rest) l)) (bodyOf (l :: rest) l) e) :
    Reported filename l.indent (l :: rest) e := by
  have hblank := Line.isBlank_of_opens hopens
  have htl := (first_mem_childLines h hblank).1
  obtain ⟨i, hi, ht, hbefore, hblames⟩ := hbody
  rw [isTemplate_bodyOf h mem_cons_self htl hswallows hi] at ht
  have hib := (isTemplate_iff.mp ht).1
  -- A template line before `i` is the first line, or lies below it between the two.
  refine ⟨i, ((mem_bodyOf h).mp hi).1, ht, fun j hj htj hlt => ?_, ?_⟩
  · rcases mem_cons.mp hj with rfl | hrest
    · exact hl
    · have hmem : j ∈ bodyOf (l :: rest) l := mem_bodyOf_between h hi hj
        ((pairwise_cons.mp h).1 j hrest) (Nat.le_of_lt hlt)
      have htj' := (isTemplate_bodyOf h mem_cons_self htl hswallows hmem).trans htj
      exact sound_bodyOf h hopens hmem (isTemplate_iff.mp htj).1 (hbefore j hmem htj' hlt)
  · refine hblames.transfer hib (bodyOf_bodyOf h hi hib).symm fun j hj hjb => ?_
    refine fits_bodyOf h hopens ?_ hjb
    rcases mem_cons.mp hj with rfl | hj
    · exact hi
    · exact ((mem_bodyOf (increasing_bodyOf h)).mp hj).1

/-- The first line below a line that opens no level fits none. -/
theorem not_fits_of_nextLine (h : Line.Increasing (l :: rest)) (hl : l.opens = false)
    (hnext : nextLine (bodyOf (l :: rest) l) = some j) : ¬Fits l.indent (l :: rest) j := by
  obtain ⟨hj, hb⟩ := mem_of_nextLine hnext
  rintro (heq | ⟨i, hi, hopens, hmem, -⟩)
  · exact absurd heq.symm (Nat.ne_of_lt (indent_lt_of_mem_bodyOf h hj hb))
  · rcases mem_cons.mp hi with rfl | hrest
    · rw [hl] at hopens
      cases hopens
    · -- A line in between that opens a level is not blank, so it would come first.
      have hij := ((mem_bodyOf h).mp hmem).2.1
      have hbody : i ∈ bodyOf (l :: rest) l := mem_bodyOf_between h hj hi
        ((pairwise_cons.mp h).1 i hrest) (Nat.le_of_lt hij)
      obtain ⟨-, before, after, hsplit, hblank⟩ := find?_eq_some_iff_append.mp hnext
      have hinc := increasing_bodyOf (i := l) h
      rw [hsplit] at hbody hinc
      rcases mem_append.mp hbody with hbefore | hbody
      · have hib := Line.isBlank_of_opens hopens
        simpa [hib] using hblank i hbefore
      · rcases mem_cons.mp hbody with rfl | hafter
        · exact Nat.lt_irrefl _ hij
        · have hji := (pairwise_cons.mp (pairwise_append.mp hinc).2.1).1 i hafter
          exact Nat.lt_asymm hij hji

end Parts

/-! ## Along the reading of lines -/

section Reading

variable {filename : Option String} {level : Nat} {l : Line} {rest : List Line}

/-- A plan fails because of lines below it where none may be, or as those lines do. -/
theorem Plan.fault_of_build {place : Place} {below : Below} {plan : Plan} {e : ParseError}
    (h : plan.build place below = .error e) :
    (∃ what, plan.bareLine? = some what ∧ below.isEmpty = false ∧ e = ⟨place, .nested what⟩) ∨
      plan.opens = true ∧ below.nodes = .error e := by
  -- By the plan: most plans pass the lines below them on as they are, so an error is theirs. A line
  -- of its own takes none, and an expansion is at fault where its child is.
  induction plan with
  | bare what leaf =>
    unfold build Template.bare at h
    split at h <;> cases h
    exact .inl ⟨what, rfl, Bool.eq_false_iff.mpr ‹_›, rfl⟩
  | doctype text | filter name attrs => cases h
  | comment text buffer =>
    unfold build at h
    split at h <;> cases h
  | lead l always =>
    have h := eq_error_of_map h
    refine .inr ⟨rfl, ?_⟩
    cases always with
    | true => exact eq_error_of_map (eq_error_of_map h)
    | false =>
      simp only [Bool.false_eq_true, if_false, Below.block?] at h
      split at h
      · cases h
      · exact eq_error_of_map (eq_error_of_map h)
  | caseOf expr => exact .inr ⟨rfl, eq_error_of_map (eq_error_of_map h)⟩
  | block label => exact .inr ⟨rfl, eq_error_of_map h⟩
  | tag t text code raw =>
    have h := eq_error_of_map h
    cases raw with
    | true => cases h
    | false => exact .inr ⟨rfl, h⟩
  | expansion t child ih => exact ih (eq_error_of_map h)

/-- What a plan that is carried out has made of the lines below it. -/
theorem Plan.Builds.below_cases {place : Place} {below : Below} {plan : Plan} {node : Node}
    (h : plan.Builds place below node) :
    plan.swallows = true ∨ plan.opens = true ∧ (∃ nodes, below.nodes = .ok nodes) ∨
      below.isEmpty = true := by
  induction h with
  | bare he | noLead he | comment he => exact .inr (.inr he)
  | doctype | remark | filter | rawTag => exact .inl rfl
  | lead hn | caseOf hn | block hn | tag hn => exact .inr (.inl ⟨rfl, _, hn⟩)
  | expansion _ ih => exact ih

theorem Plan.Builds.isEmpty_of_bare {place : Place} {below : Below} {plan : Plan} {node : Node}
    (h : plan.Builds place below node) (hbare : plan.bareLine? ≠ none) : below.isEmpty = true := by
  induction h with
  | bare he => exact he
  | expansion _ ih => exact ih hbare
  | doctype | comment | remark | noLead | lead | caseOf | block | filter | rawTag | tag =>
    exact absurd rfl hbare

theorem Plan.opens_eq_false_of_bare {plan : Plan} {what : BareLine}
    (h : plan.bareLine? = some what) : plan.opens = false := by
  induction plan with
  | bare => rfl
  | expansion t child ih => exact ih h
  | doctype | comment | lead | caseOf | block | filter | tag => cases h

theorem Plan.swallows_eq_false_of_opens {plan : Plan} (h : plan.opens = true) :
    plan.swallows = false := by
  induction plan with
  | bare | lead | caseOf | block => rfl
  | expansion t child ih => exact ih h
  | tag t text code raw =>
    cases raw with
    | true => cases h
    | false => rfl
  | doctype | comment | filter => cases h

theorem Plan.bareLine?_of_opens {plan : Plan} (h : plan.opens = true) : plan.bareLine? = none := by
  by_contra hne
  obtain ⟨what, hwhat⟩ := Option.ne_none_iff_exists'.mp hne
  rw [opens_eq_false_of_bare hwhat] at h
  cases h

section First

variable {plan : Plan} (h : Line.Increasing (l :: rest)) (hb : l.isBlank = false)
  (hplan : Plan.ofContent l.content.toList = .ok plan)

include h hb hplan

/-- If the first line is not built, it is to blame itself, or a line below it. -/
theorem reported_of_build {e : ParseError}
    (hbody : ∀ e, nodesOf filename (bodyOf (l :: rest) l) = .error e →
      Reported filename (levelOf (bodyOf (l :: rest) l)) (bodyOf (l :: rest) l) e)
    (hbuild : plan.build (placeOf filename l)
      ⟨bodyOf (l :: rest) l, nodesOf filename (bodyOf (l :: rest) l)⟩ = .error e) :
    Reported filename l.indent (l :: rest) e := by
  have hfits : Fits l.indent (l :: rest) l := .inl rfl
  have hopens := Line.opens_of_plan hb hplan
  rcases Plan.fault_of_build hbuild with ⟨what, hwhat, hempty, rfl⟩ | ⟨hopen, hnodes⟩
  · -- A line of its own opens no level, so what lies below it does not fit, and the line is blamed.
    have hclosed := hopens.trans (Plan.opens_eq_false_of_bare hwhat)
    obtain ⟨j, hnext⟩ := Option.ne_none_iff_exists'.mp
      (mt nextLine_eq_none_iff.mp (Bool.eq_false_iff.mp hempty))
    exact .first h hb (.nested hfits hplan hwhat hnext (not_fits_of_nextLine h hclosed hnext))
  · -- The line itself is sound, and the error comes from the lines below it.
    have hsound : Sound l.indent (l :: rest) l :=
      ⟨hfits, plan, hplan, fun hne => absurd (Plan.bareLine?_of_opens hopen) hne⟩
    have hswallows : l.swallows = false :=
      (Line.swallows_of_plan hb hplan).trans (Plan.swallows_eq_false_of_opens hopen)
    exact .below h (hopens.trans hopen) hswallows hsound (hbody e hnodes)

/-- If the first line is built, it can be read, and so can the template lines below it. -/
theorem sound_of_builds {node : Node}
    (hbody : ∀ nodes, nodesOf filename (bodyOf (l :: rest) l) = .ok nodes →
      ∀ j ∈ bodyOf (l :: rest) l, isTemplate (bodyOf (l :: rest) l) j = true →
        Sound (levelOf (bodyOf (l :: rest) l)) (bodyOf (l :: rest) l) j)
    (hbuilds : plan.Builds (placeOf filename l)
      ⟨bodyOf (l :: rest) l, nodesOf filename (bodyOf (l :: rest) l)⟩ node) :
    ∀ j ∈ l :: bodyOf (l :: rest) l, isTemplate (l :: rest) j = true →
      Sound l.indent (l :: rest) j := by
  have hopens := Line.opens_of_plan hb hplan
  have hswallows := Line.swallows_of_plan hb hplan
  intro j hj ht
  rcases mem_cons.mp hj with rfl | hj
  · exact ⟨.inl rfl, plan, hplan, fun hne => nextLine_eq_none_iff.mpr (hbuilds.isEmpty_of_bare hne)⟩
  have hjb := (isTemplate_iff.mp ht).1
  rcases hbuilds.below_cases with hswallow | ⟨hopen, nodes, hnodes⟩ | hempty
  · -- A line that swallows its body leaves no template lines in it.
    exact absurd hj ((isTemplate_iff.mp ht).2 l mem_cons_self (hswallows.trans hswallow))
  · have htj := isTemplate_bodyOf h mem_cons_self (first_mem_childLines h hb).1
      (hswallows.trans (Plan.swallows_eq_false_of_opens hopen)) hj
    exact sound_bodyOf h (hopens.trans hopen) hj hjb (hbody nodes hnodes j hj (htj.trans ht))
  · rw [all_eq_true.mp hempty j hj] at hjb
    cases hjb

end First

/-- The first line and what lies below it. -/
theorem readLine_reported (filename : Option String) (h : Line.Increasing (l :: rest))
    (hb : l.isBlank = false)
    (hbody : Ends (Reported filename (levelOf (bodyOf (l :: rest) l)) (bodyOf (l :: rest) l))
      (fun _ => ∀ j ∈ bodyOf (l :: rest) l, isTemplate (bodyOf (l :: rest) l) j = true →
        Sound (levelOf (bodyOf (l :: rest) l)) (bodyOf (l :: rest) l) j)
      (nodesOf filename (bodyOf (l :: rest) l))) :
    Ends (Reported filename l.indent (l :: rest))
      (fun _ => ∀ j ∈ l :: bodyOf (l :: rest) l, isTemplate (l :: rest) j = true →
        Sound l.indent (l :: rest) j)
      (lineNode filename (l :: rest) l) := by
  rw [lineNode, readLine_eq_build]
  cases hplan : Plan.ofContent l.content.toList with
  | error fault => exact Reported.first h hb (.own (.inl rfl) hplan)
  | ok plan =>
    dsimp only
    cases hbuild : plan.build (placeOf filename l)
        ⟨bodyOf (l :: rest) l, nodesOf filename (bodyOf (l :: rest) l)⟩ with
    | error e =>
      refine reported_of_build h hb hplan (fun e he => ?_) hbuild
      rwa [he] at hbody
    | ok node =>
      refine sound_of_builds h hb hplan (fun nodes hnodes => ?_) (Plan.builds_of_build hbuild)
      rwa [hnodes] at hbody

theorem levelOf_dropWhile_le (indent : Nat) (lines : List Line) :
    levelOf (lines.dropWhile (Line.isBelow indent)) ≤ indent := by
  cases hnext : nextLine (lines.dropWhile (Line.isBelow indent)) with
  | none =>
    rw [levelOf, show (lines.dropWhile (Line.isBelow indent)).find? _ = none from hnext]
    exact Nat.zero_le _
  | some next =>
    rw [levelOf, show (lines.dropWhile (Line.isBelow indent)).find? _ = some next from hnext]
    exact nextLine_le (dropWhile_isBlank_dropWhile indent lines) hnext

/-- Lines on a level are read unless one of them is at fault, and then the first such line is
reported. -/
theorem siblings_reported {lines : List Line} (h : Line.Increasing lines)
    (hlevel : levelOf lines ≤ level) :
    Ends (Reported filename level lines)
      (fun _ => ∀ j ∈ lines, isTemplate lines j = true → Sound level lines j)
      (siblings filename level lines) := by
  -- Along the recursion of `siblings`. The hypothesis on the level says that the lines do not start
  -- deeper than it, which is what rules out an unexpected indentation; it is kept because what is
  -- left behind a line and its body starts no deeper than the line.
  induction level, lines using siblings_induct with
  | nil level =>
    rw [siblings_nil]
    intro j hj
    cases hj
  | blank level l rest hb ih =>
    rw [levelOf_blank hb] at hlevel
    have hnot : ∀ j ∈ [l], j.isBlank = false → False := fun j hj hjb => by
      rw [mem_singleton.mp hj, hb] at hjb
      cases hjb
    have hclosed : Closed level [l] rest := fun j hj hjb => (hnot j hj hjb).elim
    have hl : ∀ j ∈ [l], isTemplate ([l] ++ rest) j = true → Sound level ([l] ++ rest) j :=
      fun j hj ht => (hnot j hj (isTemplate_iff.mp ht).1).elim
    rw [siblings_blank hb]
    refine (ih (pairwise_cons.mp h).2 hlevel).mono (fun e he => Reported.append h hclosed hl he) ?_
    intro _ hrest j hj ht
    exact sound_append h hclosed hl hj ht (hrest j)
  | dedent level l rest hb hlt =>
    rw [siblings_dedent hb hlt]
    refine Reported.first h hb (.dedent ?_)
    -- No line stands before the first, so there is no body for it to be in.
    rintro (heq | ⟨i, hi, -, hmem, -⟩)
    · exact Nat.ne_of_lt hlt heq
    · exact not_lt_first h hi ((mem_bodyOf h).mp hmem).2.1
  | unexpected level l rest hb hlt =>
    rw [levelOf_line hb] at hlevel
    exact absurd hlevel (Nat.not_le_of_lt hlt)
  | line level l rest hb heq hbody hafter =>
    subst heq
    have hself := bodyOf_cons_self h
    have hsplit := takeWhile_append_dropWhile (p := Line.isBelow l.indent) (l := rest)
    have hinc := (pairwise_cons.mp h).2
    have hclosed := closed_dropWhile (l := l) rest
    have hline := readLine_reported filename h hb
      (hself.symm ▸ hbody (hinc.sublist (takeWhile_sublist _)) (Nat.le_refl _))
    have hrest := hafter (hinc.sublist (dropWhile_sublist _)) (levelOf_dropWhile_le l.indent rest)
    rw [siblings_line hb rfl]
    rw [lineNode, hself] at hline
    -- The lines fall into the first with its body, and the rest, which is closed against it.
    have hlines : l :: rest = l :: rest.takeWhile (Line.isBelow l.indent) ++
        rest.dropWhile (Line.isBelow l.indent) := by rw [cons_append, hsplit]
    rw [hlines] at h hline ⊢
    refine hline.bind fun node hxs => ?_
    have hrest := hrest.mono (fun e he => Reported.append h hclosed hxs he) fun _ hok => hok
    exact hrest.bind fun nodes hys j hj ht => sound_append h hclosed hxs hj ht (hys j)

end Reading

/-! ## What is said -/

/-- A line by itself is never said to be indented unexpectedly. -/
theorem Plan.fault_of_ofContent {content : List Char} {fault : ParseFault}
    (h : Plan.ofContent content = .error fault) :
    fault ≠ .unexpectedIndent ∧ ∀ words, fault ≠ .reported words := by
  -- The cases that are named are those in which a line is refused.
  fun_induction Plan.ofContent content with
  | case5 => cases h; simp
  | case17 content name rest hkind =>
    have h := eq_error_of_map h
    unfold filterAttrs at h
    dsimp only at h
    split at h
    · cases h
    · split at h
      · cases h; simp
      · split at h <;> cases h
        simp
  | case18 => cases h; simp
  | case23 content hkind head hread child htail _ ih => exact ih (eq_error_of_map h)
  | _ => cases h

theorem Blames.fault_ne {filename : Option String} {level : Nat} {lines : List Line} {i : Line}
    {e : ParseError} (h : Blames filename level lines i e) :
    e.fault ≠ .unexpectedIndent ∧ ∀ words, e.fault ≠ .reported words := by
  cases h with
  | dedent | nested => simp
  | own _ hplan => exact Plan.fault_of_ofContent hplan

end Template

/-- The text is no beginning of `t`. -/
def Leaves (t s : String) : Prop :=
  ¬s.toList <+: t.toList

instance (t s : String) : Decidable (Leaves t s) :=
  inferInstanceAs (Decidable (¬_))

theorem Leaves.ne {t s : String} (h : Leaves t s) : s ≠ t := by
  rintro rfl
  exact h (prefix_refl _)

theorem Leaves.append {t s : String} (h : Leaves t s) (more : String) : Leaves t (s ++ more) := by
  intro hprefix
  rw [String.toList_append] at hprefix
  exact h ((prefix_append _ _).trans hprefix)

theorem AttrFault.leaves_message (fault : AttrFault) :
    Leaves "unexpected indentation" fault.message := by
  have hquoted : Leaves "unexpected indentation" "unexpected `" := by decide
  have hvalue : Leaves "unexpected indentation" "attribute `" := by decide
  have hopen : Leaves "unexpected indentation" "unterminated attribute name in `" := by decide
  have hname : Leaves "unexpected indentation" "missing attribute name in `" := by decide
  cases fault with
  | notOpened | unterminated => decide
  | trailing rest name => exact (((hquoted.append rest).append _).append name).append _
  | missingValue name => exact (hvalue.append name).append _
  | openName item => exact (hopen.append item).append _
  | missingName item => exact (hname.append item).append _

theorem TagFault.leaves_message (fault : TagFault) :
    Leaves "unexpected indentation" fault.message := by
  have htext : Leaves "unexpected indentation" "unexpected text `" := by decide
  have hparted : Leaves "unexpected indentation" "unexpected `:" := by decide
  have hquoted : Leaves "unexpected indentation" "unexpected `" := by decide
  have htwice : Leaves "unexpected indentation" "duplicate attribute \"" := by decide
  cases fault with
  | attributes fault => exact fault.leaves_message
  | spreadNotOpened | spreadUnterminated => decide
  | unexpectedText text => exact (htext.append text).append _
  | expansionNotParted child => exact (hparted.append child).append _
  | trailing rest name => exact (((hquoted.append rest).append _).append name).append _
  | duplicate name => exact (htwice.append name).append _

/-- No other fault reads like an unexpected indentation, unless a front end puts it that way. -/
theorem ParseFault.message_ne {fault : ParseFault} (h : fault ≠ .unexpectedIndent)
    (hwords : ∀ words, fault ≠ .reported words) : fault.message ≠ "unexpected indentation" := by
  have hdedent : Leaves "unexpected indentation" "inconsistent indentation (dedent to column " := by
    decide
  have hquoted : Leaves "unexpected indentation" "unexpected `" := by decide
  -- It is enough to look at how each message begins, whatever is quoted in it.
  refine Leaves.ne ?_
  cases fault with
  | unexpectedIndent => exact absurd rfl h
  | reported words => exact absurd rfl (hwords words)
  | filterAttributes fault => exact fault.leaves_message
  | tag fault => exact fault.leaves_message
  | elseWithCondition => decide
  | nested below =>
    have hbelow : Leaves "unexpected indentation" below.words := by cases below <;> decide
    exact hbelow.append _
  | dedent found => exact (hdedent.append found.repr).append _
  | afterFilter rest name => exact (((hquoted.append rest).append _).append name).append _

namespace Template

/-! ## Templates -/

section Parsing

variable {source : String} {filename : Option String}

theorem parse_reported (source : String) (filename : Option String) :
    Ends (Reported filename (levelOf (Line.ofSource source)) (Line.ofSource source))
      (fun _ => ∀ j ∈ Line.ofSource source, isTemplate (Line.ofSource source) j = true →
        Sound (levelOf (Line.ofSource source)) (Line.ofSource source) j)
      (parse source filename) :=
  Ends.map (siblings_reported (increasing_ofSource source) (Nat.le_refl _))

/-- A source can be parsed unless one of its template lines is at fault. -/
theorem parse_ok_iff :
    (∃ root, parse source filename = .ok root) ↔
      ∀ j ∈ Line.ofSource source, isTemplate (Line.ofSource source) j = true →
        Sound (levelOf (Line.ofSource source)) (Line.ofSource source) j := by
  have hends := parse_reported source filename
  cases h : parse source filename with
  | ok root =>
    rw [h] at hends
    exact iff_of_true ⟨root, rfl⟩ hends
  | error e =>
    rw [h] at hends
    obtain ⟨i, hi, ht, -, hblames⟩ := hends
    refine iff_of_false (by simp) fun hsound => ?_
    exact (hsound i hi ht).not_blames hblames

/-- The first template line that is at fault is reported. -/
theorem parse_error_iff {e : ParseError} :
    parse source filename = .error e ↔
      Reported filename (levelOf (Line.ofSource source)) (Line.ofSource source) e := by
  have hends := parse_reported source filename
  cases h : parse source filename with
  | ok root =>
    rw [h] at hends
    refine iff_of_false (by simp) ?_
    rintro ⟨i, hi, ht, -, hblames⟩
    exact (hends i hi ht).not_blames hblames
  | error e' =>
    rw [h] at hends
    refine ⟨fun heq => Except.error.inj heq ▸ hends, fun he => ?_⟩
    rw [Reported.unique (increasing_ofSource source) hends he]

/-- Parsing is reading with a cursor. Whenever a line has been read, the next line that is not blank
is indented no deeper, so no line is ever found to be indented unexpectedly. What is reported is the
first template line that is at fault; a line that fits no open level is at fault for its width, or
the line above it is that takes no lines below it, unless a line further up has a fault of its
own. -/
theorem parse_levels (source : String) (filename : Option String) :
    let lines := Line.ofSource source
    (parse source filename = (readOn filename none none lines).map fun t =>
      .block (.plain t.value) ⟨1, filename⟩) ∧
    (∀ (place : Place) (indent : Nat) (rest : List Line) (plan : Plan) (t : Took Node rest),
      plan.readAt place indent (readOn filename (some indent) none rest) = .ok t →
      ∀ next, nextLine t.left = some next → next.indent ≤ indent) ∧
    (∀ e, parse source filename = .error e ↔ Reported filename (levelOf lines) lines e) ∧
    (∀ e, parse source filename = .error e →
      e.fault ≠ .unexpectedIndent ∧ e.fault.message ≠ "unexpected indentation") ∧
    (∀ j ∈ lines, isTemplate lines j = true → ¬Fits (levelOf lines) lines j →
      ∃ e, parse source filename = .error e ∧
        ((∃ found, e.fault = .dedent found) ∨ (∃ what, e.fault = .nested what) ∨
          ∃ i ∈ lines, i.number < j.number ∧
            Plan.ofContent i.content.toList = .error e.fault)) := by
  intro lines
  refine ⟨parse_eq_readOn source, fun _ _ _ _ _ h _ hnext => nextLine_readAt h hnext,
    fun e => parse_error_iff, fun e he => ?_, fun j hj ht hmisfit => ?_⟩
  · obtain ⟨i, -, -, -, hblames⟩ := parse_error_iff.mp he
    obtain ⟨hfault, hwords⟩ := hblames.fault_ne
    exact ⟨hfault, ParseFault.message_ne hfault hwords⟩
  · cases he : parse source filename with
    | ok root => exact absurd (parse_ok_iff.mp ⟨root, he⟩ j hj ht).fits hmisfit
    | error e =>
      refine ⟨e, rfl, ?_⟩
      -- The line that is reported comes no later than the misfit, since all lines before it fit.
      obtain ⟨i, hi, -, hbefore, hblames⟩ := parse_error_iff.mp he
      have hle : i.number ≤ j.number := Nat.le_of_not_lt fun hlt =>
        hmisfit (hbefore j hj ht hlt).fits
      cases hblames with
      | dedent _ => exact .inl ⟨_, rfl⟩
      | nested => exact .inr (.inl ⟨_, rfl⟩)
      | own hfits hplan =>
        refine .inr (.inr ⟨i, hi, Nat.lt_of_le_of_ne hle fun heq => hmisfit ?_, hplan⟩)
        rwa [← eq_of_number (increasing_ofSource source) hi hj heq]

/-- A line goes back to a width between two levels, and the line before it has left the cursor
right in front of it. -/
theorem parse_levels_between :
    let source := "ul\n    li: b x\n\n  p"
    let lines := Line.ofSource source
    (∃ j ∈ lines, isTemplate lines j = true ∧ ¬Fits (levelOf lines) lines j ∧
      ∃ e, parse source none = .error e ∧
        ((∃ found, e.fault = .dedent found) ∨ (∃ what, e.fault = .nested what) ∨
          ∃ i ∈ lines, i.number < j.number ∧ Plan.ofContent i.content.toList = .error e.fault)) ∧
    (∃ e, parse source none = .error e ∧
      e.fault ≠ .unexpectedIndent ∧ e.fault.message ≠ "unexpected indentation") ∧
    ∃ t : Took Node (lines.drop 2),
      (Plan.caseOf "x").readAt ⟨2, none⟩ 4 (readOn none (some 4) none (lines.drop 2)) = .ok t ∧
      ∃ next, nextLine t.left = some next ∧ next.indent ≤ 4 := by
  intro source lines
  obtain ⟨-, hnext, -, hfault, hmisfit⟩ := parse_levels source none
  have hfails : (parse source none).isOk = false := by decide +kernel
  have hreads : ((Plan.caseOf "x").readAt ⟨2, none⟩ 4
      (readOn none (some 4) none (lines.drop 2))).toOption.map (fun t => (nextLine t.left).isSome) =
        some true := by decide +kernel
  refine ⟨⟨⟨4, 2, "p", "  p"⟩, by decide +kernel, by decide +kernel, by decide +kernel, ?_⟩, ?_, ?_⟩
  · exact hmisfit _ (by decide +kernel) (by decide +kernel) (by decide +kernel)
  · cases he : parse source none with
    | ok root => rw [he] at hfails; cases hfails
    | error e => exact ⟨e, rfl, hfault e he⟩
  · cases ht : (Plan.caseOf "x").readAt ⟨2, none⟩ 4
      (readOn none (some 4) none (lines.drop 2)) with
    | error e => rw [ht] at hreads; cases hreads
    | ok t =>
      rw [ht] at hreads
      obtain ⟨next, hn⟩ := Option.isSome_iff_exists.mp (Option.some.inj hreads)
      exact ⟨t, rfl, next, hn, hnext _ _ _ _ t ht next hn⟩

end Parsing

end Template

end Offside
