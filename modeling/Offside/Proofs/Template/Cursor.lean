import Offside.Proofs.Template.Append

/-!
# Reading with a cursor

Parsing splits lines into what lies below a line and what comes after, and reads the two apart. The
same can be done in one go, by a cursor that moves on as lines are taken: a line looks at the next
line that is not blank, takes what lies below it, or leaves it where it is, and the lines of a level
go on from wherever the cursor then stands (`readOn`). Nothing is cut beforehand, so it is up to
each kind of line to leave the cursor where the level can go on.

They all do: when a line has been read, the next line that is not blank is indented no deeper
(`nextLine_readAt`). For this reason both ways of reading are the same (`outcome_eq`), and the
level never meets a line that is indented deeper than it.
-/

set_option autoImplicit false

namespace Offside.Template

open List

/-- Something read off the front of lines, and the lines that are left. -/
structure Took (α : Type) (lines : List Line) where
  value : α
  left : List Line
  suffix : left <:+ lines

namespace Took

variable {α β : Type} {lines : List Line}

/-- The cursor stays where it is. -/
def stay (value : α) : Took α lines :=
  ⟨value, lines, suffix_refl lines⟩

/-- The cursor passes all that lies below a line with this indentation. -/
def pass (indent : Nat) (value : α) : Took α lines :=
  ⟨value, lines.dropWhile (Line.isBelow indent), dropWhile_suffix _⟩

/-- Something else made of what has been read. -/
def map (g : α → β) (t : Took α lines) : Took β lines :=
  ⟨g t.value, t.left, t.suffix⟩

end Took

/-- The next line that is not blank. -/
def nextLine (lines : List Line) : Option Line :=
  lines.find? fun l => !l.isBlank

/-- Something lies below a line with this indentation: the next line that is not blank is deeper. -/
def hasBelow (indent : Nat) (lines : List Line) : Bool :=
  (nextLine lines).any fun l => indent < l.indent

/-- The node of a line with this plan, read where the cursor stands behind the line; `nested` is
what reading lines below it from there gives. -/
def Plan.readAt (place : Place) (indent : Nat) {lines : List Line}
    (nested : Except ParseError (Took (List Node) lines)) :
    Plan → Except ParseError (Took Node lines)
  | .bare what leaf =>
    if hasBelow indent lines then .error ⟨place, .nested what⟩ else .ok (.stay (.leaf leaf place))
  | .doctype text => .ok (.pass indent (.leaf (.doctype text) place))
  | .comment text buffer =>
    if hasBelow indent lines then
      let body := .plain (verbatim place.filename (lines.takeWhile (Line.isBelow indent)))
      .ok (.pass indent (.frame (.comment text buffer) body place))
    else .ok (.stay (.leaf (.comment text buffer) place))
  | .lead l always =>
    if always || hasBelow indent lines then
      nested.map (.map fun nodes => .lead l (some (.plain nodes)) place)
    else .ok (.stay (.lead l none place))
  | .caseOf expr => nested.map (.map fun nodes => .frame (.caseOf expr) (.plain nodes) place)
  | .block label => nested.map (.map fun nodes => .block (.mk nodes label) place)
  | .filter name attrs =>
    let body := .plain (verbatim place.filename (lines.takeWhile (Line.isBelow indent)))
    .ok (.pass indent (.frame (.filter name attrs) body place))
  | .tag t text code raw =>
    let body :=
      if raw then
        .ok (.pass indent (verbatim place.filename (lines.takeWhile (Line.isBelow indent))))
      else nested
    body.map (.map fun nodes =>
      .tag t (.plain (inlineText place text ++ nodes)) (inlineCode place code) place)
  | .expansion t child =>
    (child.readAt place indent nested).map (.map fun n => .tag t (.plain [n]) none place)

/-- The nodes of the lines at the cursor, up to a line that is indented no deeper than `parent`.
The lines stand on `level`; without one, on the level of the first of them. -/
def readOn (filename : Option String) (parent level : Option Nat) (lines : List Line) :
    Except ParseError (Took (List Node) lines) :=
  match h : lines.dropWhile Line.isBlank with
  | [] => .ok ⟨[], [], nil_suffix⟩
  | l :: rest =>
    have hsuffix : l :: rest <:+ lines := h ▸ dropWhile_suffix _
    if parent.any (l.indent ≤ ·) then .ok ⟨[], l :: rest, hsuffix⟩
    else if level.any (l.indent < ·) then .error ⟨placeOf filename l, .dedent l.indent⟩
    else if level.any (· < l.indent) then .error ⟨placeOf filename l, .unexpectedIndent⟩
    else
      match Plan.ofContent l.content.toList with
      | .error fault => .error ⟨placeOf filename l, fault⟩
      | .ok plan => do
        let node ← plan.readAt (placeOf filename l) l.indent
          (readOn filename (some l.indent) none rest)
        let others ← readOn filename parent (some l.indent) node.left
        .ok ⟨node.value :: others.value, others.left,
          others.suffix.trans (node.suffix.trans ((suffix_cons l rest).trans hsuffix))⟩
termination_by lines.length
decreasing_by
  · exact Nat.lt_of_succ_le hsuffix.length_le
  · exact Nat.lt_of_lt_of_le (Nat.lt_succ_of_le node.suffix.length_le) hsuffix.length_le

/-! ## Where a line leaves the cursor -/

section Below

variable {indent : Nat} {lines : List Line}

theorem isBelow_of_isBlank {l : Line} (hb : l.isBlank = true) : l.isBelow indent = true := by
  simp [Line.isBelow, hb]

theorem isEmpty_takeWhile (indent : Nat) (lines : List Line) :
    (lines.takeWhile (Line.isBelow indent)).all Line.isBlank = !hasBelow indent lines := by
  -- Blank lines count as lying below, so both sides pass them and look at the same line.
  induction lines with
  | nil => rfl
  | cons l rest ih =>
    cases hb : l.isBlank with
    | true => simpa [hasBelow, nextLine, hb, isBelow_of_isBlank hb] using ih
    | false =>
      by_cases hlt : indent < l.indent <;> simp [hasBelow, nextLine, hb, Line.isBelow, hlt]

theorem dropWhile_isBlank_of_not_hasBelow (h : hasBelow indent lines = false) :
    lines.dropWhile Line.isBlank = lines.dropWhile (Line.isBelow indent) := by
  induction lines with
  | nil => rfl
  | cons l rest ih =>
    cases hb : l.isBlank with
    | true =>
      rw [dropWhile_cons_of_pos hb, dropWhile_cons_of_pos (isBelow_of_isBlank hb)]
      exact ih (by simpa [hasBelow, nextLine, hb] using h)
    | false =>
      have hle : l.indent ≤ indent := by simpa [hasBelow, nextLine, hb] using h
      rw [dropWhile_cons_of_neg (by simp [hb]),
        dropWhile_cons_of_neg (by simp [not_isBelow hb hle])]

theorem dropWhile_isBlank_dropWhile (indent : Nat) (lines : List Line) :
    (lines.dropWhile (Line.isBelow indent)).dropWhile Line.isBlank =
      lines.dropWhile (Line.isBelow indent) := by
  cases h : lines.dropWhile (Line.isBelow indent) with
  | nil => rfl
  | cons l rest =>
    have hstop := head?_dropWhile_not (Line.isBelow indent) lines
    rw [h] at hstop
    have hb : l.isBlank = false := (Bool.or_eq_false_iff.mp hstop).1
    rw [dropWhile_cons_of_neg (by simp [hb])]

/-- When the cursor has come to what does not lie below a line, the next line goes no deeper. -/
theorem nextLine_le {left : List Line} {next : Line}
    (h : left.dropWhile Line.isBlank = lines.dropWhile (Line.isBelow indent))
    (hnext : nextLine left = some next) : next.indent ≤ indent := by
  -- The next line is the first that is left of blank lines, and there the cut has stopped.
  rw [nextLine, find?_not_eq_head?_dropWhile, h] at hnext
  have hstop := head?_dropWhile_not (Line.isBelow indent) lines
  rw [hnext] at hstop
  simpa using (Bool.or_eq_false_iff.mp hstop).2

end Below

namespace Plan

variable {place : Place} {indent : Nat} {lines : List Line}
  {nested : Except ParseError (Took (List Node) lines)}

/-- Reading at the cursor gives the node that is built from what lies below the line. -/
theorem map_value_readAt (plan : Plan) :
    (plan.readAt place indent nested).map Took.value =
      plan.build place ⟨lines.takeWhile (Line.isBelow indent), nested.map Took.value⟩ := by
  have hempty (nodes : Except ParseError (List Node)) :
      Below.isEmpty ⟨lines.takeWhile (Line.isBelow indent), nodes⟩ = !hasBelow indent lines :=
    isEmpty_takeWhile indent lines
  induction plan with
  | bare what leaf =>
    rw [readAt, build, Template.bare, hempty]
    cases hasBelow indent lines <;> rfl
  | doctype text | filter name attrs => rfl
  | comment text buffer =>
    rw [readAt, build, hempty]
    cases hasBelow indent lines <;> rfl
  | lead l always =>
    rw [readAt, build, Below.block?, hempty]
    cases always <;> cases hasBelow indent lines <;> cases nested <;> rfl
  | caseOf expr | block label => cases nested <;> rfl
  | tag t text code raw => cases raw <;> cases nested <;> rfl
  | expansion t child ih =>
    rw [readAt, build, ← ih]
    cases child.readAt place indent nested <;> rfl

/-- What is left starts, after blank lines, with the first line that does not lie below. -/
theorem left_readAt {plan : Plan} {t : Took Node lines}
    (hnested : ∀ t, nested = .ok t →
      t.left.dropWhile Line.isBlank = lines.dropWhile (Line.isBelow indent))
    (h : plan.readAt place indent nested = .ok t) :
    t.left.dropWhile Line.isBlank = lines.dropWhile (Line.isBelow indent) := by
  have hpass : (lines.dropWhile (Line.isBelow indent)).dropWhile Line.isBlank =
      lines.dropWhile (Line.isBelow indent) := dropWhile_isBlank_dropWhile indent lines
  -- Plans that read lines below them leave the cursor where that reading does.
  have hmap {α : Type} {g : List Node → α} {t : Took α lines} (h : nested.map (.map g) = .ok t) :
      t.left.dropWhile Line.isBlank = lines.dropWhile (Line.isBelow indent) := by
    obtain ⟨t', ht', rfl⟩ := exists_of_map_eq_ok h
    exact hnested t' ht'
  induction plan generalizing t with
  | bare what leaf =>
    rw [readAt] at h
    split at h <;> cases h
    -- The cursor has not moved, but there was nothing below to move past.
    exact dropWhile_isBlank_of_not_hasBelow (Bool.eq_false_iff.mpr ‹_›)
  | doctype text | filter name attrs => cases h; exact hpass
  | comment text buffer =>
    rw [readAt] at h
    split at h <;> cases h
    · exact hpass
    · exact dropWhile_isBlank_of_not_hasBelow (Bool.eq_false_iff.mpr ‹_›)
  | lead l always =>
    rw [readAt] at h
    split at h
    · exact hmap h
    · next hnot =>
      cases h
      rw [Bool.or_eq_true, not_or] at hnot
      exact dropWhile_isBlank_of_not_hasBelow (Bool.eq_false_iff.mpr hnot.2)
  | caseOf expr | block label => exact hmap h
  | tag t text code raw =>
    cases raw with
    | true => cases h; exact hpass
    | false => exact hmap h
  | expansion t child ih =>
    rw [readAt] at h
    obtain ⟨inner, hinner, rfl⟩ := exists_of_map_eq_ok h
    have hleft : inner.left.dropWhile Line.isBlank = lines.dropWhile (Line.isBelow indent) :=
      ih hinner
    exact hleft

end Plan

/-! ## Both ways of reading are the same -/

section Reading

variable {filename : Option String} {parent level : Option Nat} {lines : List Line}

/-- The line lies below `parent`; without one, all lines do. -/
def isUnder (parent : Option Nat) (l : Line) : Bool :=
  parent.all fun p => l.isBelow p

/-- What comes of reading on from the cursor, and the lines that are left then. -/
def outcome (filename : Option String) (parent level : Option Nat) (lines : List Line) :
    Except ParseError (List Node × List Line) :=
  (readOn filename parent level lines).map fun t => (t.value, t.left)

/-- The same by cutting off first what lies below `parent`. -/
def cutOutcome (filename : Option String) (parent level : Option Nat) (lines : List Line) :
    Except ParseError (List Node × List Line) :=
  let body := lines.takeWhile (isUnder parent)
  (siblings filename (level.getD (levelOf body)) body).map fun nodes =>
    (nodes, lines.dropWhile (isUnder parent))

theorem isUnder_of_isBlank {l : Line} (hb : l.isBlank = true) : isUnder parent l = true := by
  cases parent <;> simp [isUnder, isBelow_of_isBlank hb]

theorem isUnder_of_isBelow {l m : Line} (hb : l.isBlank = false) (hl : isUnder parent l = true)
    (hm : m.isBelow l.indent = true) : isUnder parent m = true := by
  cases parent with
  | none => rfl
  | some p =>
    simp only [isUnder, Option.all_some, Line.isBelow, hb, Bool.false_or, Bool.or_eq_true,
      decide_eq_true_eq] at hl hm ⊢
    exact hm.imp_right (Nat.lt_trans hl)

theorem cutOutcome_dropWhile (lines : List Line) :
    cutOutcome filename parent level (lines.dropWhile Line.isBlank) =
      cutOutcome filename parent level lines := by
  induction lines with
  | nil => rfl
  | cons l rest ih =>
    cases hb : l.isBlank with
    | false => rw [dropWhile_cons_of_neg (by simp [hb])]
    | true =>
      have hunder : isUnder parent l = true := isUnder_of_isBlank hb
      rw [dropWhile_cons_of_pos hb, ih]
      simp only [cutOutcome, takeWhile_cons_of_pos hunder, dropWhile_cons_of_pos hunder,
        siblings_blank hb, levelOf_blank hb]

/-- Lines that are cut off under `parent` can be cut again under a line among them. -/
theorem takeWhile_takeWhile_under {l : Line} (hb : l.isBlank = false)
    (hl : isUnder parent l = true) (rest : List Line) :
    (rest.takeWhile (isUnder parent)).takeWhile (Line.isBelow l.indent) =
        rest.takeWhile (Line.isBelow l.indent) ∧
      (rest.takeWhile (isUnder parent)).dropWhile (Line.isBelow l.indent) =
        (rest.dropWhile (Line.isBelow l.indent)).takeWhile (isUnder parent) ∧
      rest.dropWhile (isUnder parent) =
        (rest.dropWhile (Line.isBelow l.indent)).dropWhile (isUnder parent) := by
  -- What lies below `l` lies under `parent`, so the cut under `parent` never comes first.
  induction rest with
  | nil => exact ⟨rfl, rfl, rfl⟩
  | cons m rest ih =>
    cases hm : m.isBelow l.indent with
    | true =>
      have hunder := isUnder_of_isBelow hb hl hm
      obtain ⟨htake, hdrop, hleft⟩ := ih
      simp [hm, hunder, htake, hdrop, hleft]
    | false => by_cases hunder : isUnder parent m = true <;> simp [hm, hunder]

theorem outcome_nil (h : lines.dropWhile Line.isBlank = []) :
    outcome filename parent level lines = .ok ([], []) := by
  rw [outcome, readOn]
  split
  · rfl
  · next l rest h' => cases h.symm.trans h'

theorem outcome_cons {l : Line} {rest : List Line} (h : lines.dropWhile Line.isBlank = l :: rest) :
    outcome filename parent level lines =
      if parent.any (l.indent ≤ ·) then .ok ([], l :: rest)
      else if level.any (l.indent < ·) then .error ⟨placeOf filename l, .dedent l.indent⟩
      else if level.any (· < l.indent) then .error ⟨placeOf filename l, .unexpectedIndent⟩
      else
        match Plan.ofContent l.content.toList with
        | .error fault => .error ⟨placeOf filename l, fault⟩
        | .ok plan =>
          (plan.readAt (placeOf filename l) l.indent
              (readOn filename (some l.indent) none rest)).bind fun node =>
            (outcome filename parent (some l.indent) node.left).map fun others =>
              (node.value :: others.1, others.2) := by
  rw [outcome, readOn]
  split
  · next h' => cases h.symm.trans h'
  · next l' rest' h' =>
    cases h'.symm.trans h
    dsimp only
    split_ifs
    · rfl
    · rfl
    · rfl
    · cases Plan.ofContent l.content.toList with
      | error fault => rfl
      | ok plan =>
        cases hread : plan.readAt (placeOf filename l) l.indent
            (readOn filename (some l.indent) none rest) with
        | error e => simp [hread, Except.map, bind, Except.bind]
        | ok node =>
          cases hothers : readOn filename parent (some l.indent) node.left <;>
            simp [hread, hothers, outcome, Except.map, bind, Except.bind]

theorem any_le_eq {l : Line} (hb : l.isBlank = false) :
    (parent.any fun p => decide (l.indent ≤ p)) = !isUnder parent l := by
  cases parent with
  | none => rfl
  | some p => by_cases h : l.indent ≤ p <;> simp [isUnder, Line.isBelow, hb, h, Nat.lt_of_not_le]

/-- What lies below a line is taken by reading on from behind it. -/
theorem left_readOn {indent : Nat} {t : Took (List Node) lines}
    (heq : outcome filename (some indent) none lines = cutOutcome filename (some indent) none lines)
    (h : readOn filename (some indent) none lines = .ok t) :
    t.left.dropWhile Line.isBlank = lines.dropWhile (Line.isBelow indent) := by
  rw [outcome, h] at heq
  obtain ⟨nodes, -, hpair⟩ := exists_of_map_eq_ok heq.symm
  have hleft : lines.dropWhile (isUnder (some indent)) = t.left := congrArg Prod.snd hpair
  rw [← hleft]
  exact dropWhile_isBlank_dropWhile indent lines

theorem map_fst_outcome :
    (outcome filename parent level lines).map Prod.fst =
      (readOn filename parent level lines).map Took.value := by
  rw [outcome]
  cases readOn filename parent level lines <;> rfl

theorem map_fst_cutOutcome :
    (cutOutcome filename parent none lines).map Prod.fst =
      nodesOf filename (lines.takeWhile (isUnder parent)) := by
  rw [cutOutcome, Option.getD_none, nodesOf]
  cases siblings filename (levelOf (lines.takeWhile (isUnder parent)))
    (lines.takeWhile (isUnder parent)) <;> rfl

theorem cutOutcome_cons {l : Line} {rest : List Line} (hb : l.isBlank = false)
    (hunder : isUnder parent l = true) :
    cutOutcome filename parent level (l :: rest) =
      (siblings filename (level.getD l.indent) (l :: rest.takeWhile (isUnder parent))).map
        fun nodes => (nodes, rest.dropWhile (isUnder parent)) := by
  simp only [cutOutcome, takeWhile_cons_of_pos hunder, dropWhile_cons_of_pos hunder,
    levelOf_line hb]

/-- Both ways of reading agree on a line, and on the lines after it, if they agree on what comes
behind. -/
theorem outcome_line {l : Line} {rest : List Line} (hb : l.isBlank = false)
    (hunder : isUnder parent l = true)
    (hbelow : outcome filename (some l.indent) none rest =
      cutOutcome filename (some l.indent) none rest)
    (hafter : ∀ left : List Line, left.length ≤ rest.length →
      outcome filename parent (some l.indent) left =
        cutOutcome filename parent (some l.indent) left) :
    (match Plan.ofContent l.content.toList with
      | .error fault => .error ⟨placeOf filename l, fault⟩
      | .ok plan =>
        (plan.readAt (placeOf filename l) l.indent
            (readOn filename (some l.indent) none rest)).bind fun node =>
          (outcome filename parent (some l.indent) node.left).map fun others =>
            (node.value :: others.1, others.2)) =
      (siblings filename l.indent (l :: rest.takeWhile (isUnder parent))).map
        fun nodes => (nodes, rest.dropWhile (isUnder parent)) := by
  obtain ⟨htake, hdrop, hleft⟩ := takeWhile_takeWhile_under hb hunder rest
  rw [siblings_line hb rfl, htake, hdrop, readLine_eq_build]
  cases Plan.ofContent l.content.toList with
  | error fault => rfl
  | ok plan =>
    -- What reading on gives for the lines below is what is parsed of them when they are cut off.
    have hnodes : (readOn filename (some l.indent) none rest).map Took.value =
        nodesOf filename (rest.takeWhile (Line.isBelow l.indent)) := by
      rw [← map_fst_outcome, hbelow, map_fst_cutOutcome]
      rfl
    dsimp only
    rw [← hnodes, ← Plan.map_value_readAt]
    cases hread : plan.readAt (placeOf filename l) l.indent
        (readOn filename (some l.indent) none rest) with
    | error e => rfl
    | ok node =>
      -- Here it matters where the line has left the cursor: the others go on from there, while
      -- parsing goes on behind the body.
      have hcursor := Plan.left_readAt (fun t ht => left_readOn hbelow ht) hread
      have hothers : outcome filename parent (some l.indent) node.left =
          (siblings filename l.indent
            ((rest.dropWhile (Line.isBelow l.indent)).takeWhile (isUnder parent))).map
              fun nodes => (nodes, rest.dropWhile (isUnder parent)) := by
        rw [hafter node.left node.suffix.length_le, ← cutOutcome_dropWhile, hcursor, hleft]
        rfl
      simp only [Except.bind, hothers]
      cases siblings filename l.indent
        ((rest.dropWhile (Line.isBelow l.indent)).takeWhile (isUnder parent)) <;> rfl

/-- Reading on with a cursor is reading what is cut off. -/
theorem outcome_eq (filename : Option String) (parent level : Option Nat) (lines : List Line) :
    outcome filename parent level lines = cutOutcome filename parent level lines := by
  -- By the number of lines left: both the lines below a line and those after it are fewer.
  induction hn : lines.length using Nat.strong_induction_on generalizing parent level lines with
  | _ n ih =>
    rw [← cutOutcome_dropWhile]
    cases h : lines.dropWhile Line.isBlank with
    | nil =>
      rw [outcome_nil h]
      simp [cutOutcome, Except.map]
    | cons l rest =>
      have hb : l.isBlank = false := by
        have hstop := head?_dropWhile_not Line.isBlank lines
        rwa [h] at hstop
      have hlen : rest.length < n := by
        have := (dropWhile_suffix Line.isBlank (l := lines)).length_le
        rw [h, hn] at this
        exact this
      rw [outcome_cons h, any_le_eq hb]
      cases hunder : isUnder parent l with
      | false => simp [cutOutcome, hunder, Except.map]
      | true =>
        -- Without a level the first line sets it, so it can be neither above nor below.
        have hlt : (level.any fun w => decide (l.indent < w)) =
            decide (l.indent < level.getD l.indent) := by cases level <;> simp
        have hgt : (level.any fun w => decide (w < l.indent)) =
            decide (level.getD l.indent < l.indent) := by cases level <;> simp
        rw [cutOutcome_cons hb hunder, hlt, hgt]
        rcases Nat.lt_trichotomy l.indent (level.getD l.indent) with hless | heq | hmore
        · simp [hless, siblings_dedent hb hless, Except.map]
        · rw [← heq]
          simp only [Bool.not_true, Bool.false_eq_true, if_false, Nat.lt_irrefl, decide_false]
          exact outcome_line hb hunder (ih _ hlen _ _ _ rfl)
            fun left hle => ih _ (Nat.lt_of_le_of_lt hle hlen) _ _ _ rfl
        · simp [hmore, Nat.lt_asymm hmore, siblings_unexpected hb hmore, Except.map]

/-- When a line has been read, the next line that is not blank is indented no deeper. -/
theorem nextLine_readAt {place : Place} {indent : Nat} {plan : Plan} {t : Took Node lines}
    (h : plan.readAt place indent (readOn filename (some indent) none lines) = .ok t) {next : Line}
    (hnext : nextLine t.left = some next) : next.indent ≤ indent :=
  nextLine_le (Plan.left_readAt (fun _ ht => left_readOn (outcome_eq _ _ _ _) ht) h) hnext

/-- Parsing is reading all lines with a cursor. -/
theorem parse_eq_readOn (source : String) :
    parse source filename =
      (readOn filename none none (Line.ofSource source)).map fun t =>
        .block (.plain t.value) ⟨1, filename⟩ := by
  have hall : (Line.ofSource source).takeWhile (isUnder none) = Line.ofSource source :=
    takeWhile_eq_self_iff.mpr fun _ _ => rfl
  have hnodes : (readOn filename none none (Line.ofSource source)).map Took.value =
      nodesOf filename (Line.ofSource source) := by
    rw [← map_fst_outcome, outcome_eq, map_fst_cutOutcome, hall]
  rw [parse, ← hnodes]
  cases readOn filename none none (Line.ofSource source) <;> rfl

end Reading

end Offside.Template
