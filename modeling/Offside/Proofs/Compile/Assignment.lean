import Offside.Proofs.Compile.Supported
import Offside.Proofs.Compile.WellFormed
import Offside.Proofs.IR.PseudoSource

/-!
# Assignments in front of captures

In front of what is captured stands its assignment to a variable, for the runtime to evaluate: of
the captured text as a literal, or of the listing of its nodes. This file says when there is
something on both sides of it (`visit_capture_assigns`).

There are two ways for it to fail. The variable is given as a pair of quotes with nothing in it,
where no default steps in; or the listing is asked for, and all that is captured is of kinds that
are not listed.
-/

set_option autoImplicit false

namespace Offside

open List

theorem IR.WellFormed.hasLiteralText {o : Options} {n : IR} (h : n.WellFormed o) :
    n.HasLiteralText := by
  cases n with
  | atom a origin =>
    cases a with
    | text expr buffer =>
      obtain ⟨t, -, rfl⟩ := h
      exact Json.isLiteral_quote t
    | _ => trivial
  | group head children origin | tag name props children buffer origin => trivial

namespace Compile

variable {o : Options}

/-! ## The variable -/

theorem unquote_singleton (q : Char) : unquote [q] = [q] := by
  simp [unquote]

theorem unquote_concat (q : Char) (inner : List Char) (last : Char) :
    unquote (q :: (inner ++ [last])) =
      if (q = '\x22' ∨ q = '\x27') ∧ last = q then inner else q :: (inner ++ [last]) := by
  by_cases hquote : q = '\x22' ∨ q = '\x27' <;> by_cases hlast : last = q <;>
    simp [unquote, hquote, hlast]

/-- Nothing is left of a text without its quotes, if there was nothing else. -/
theorem unquote_eq_nil_iff {s : List Char} :
    unquote s = [] ↔ s = [] ∨ s = ['\x22', '\x22'] ∨ s = ['\x27', '\x27'] := by
  cases s with
  | nil => simp [unquote]
  | cons q rest =>
    -- Quotes are dropped at both ends only, which a single character does not have.
    rcases eq_nil_or_concat rest with rfl | ⟨inner, last, rfl⟩
    · simp [unquote_singleton]
    · rw [concat_eq_append, unquote_concat]
      split
      · rename_i hpair
        obtain ⟨hquote, rfl⟩ := hpair
        rcases hquote with rfl | rfl <;> simp
      · rename_i hpair
        have hne {c : Char} (hc : c = '\x22' ∨ c = '\x27') : q :: (inner ++ [last]) ≠ [c, c] := by
          intro heq
          obtain ⟨rfl, hrest⟩ := cons.inj heq
          have hlast : last = q := by simpa using congrArg getLast? hrest
          exact hpair ⟨hc, hlast⟩
        simp only [reduceCtorEq, hne (.inl rfl), hne (.inr rfl), or_false]

/-- The attributes give a variable to assign to, but its name is empty. -/
def NamesNothing (attrs : List Attr) : Prop :=
  ∃ e, attr? "as" attrs = some (.expr e) ∧
    (Text.trim e.toList = [] ∨ Text.trim e.toList = ['\x22', '\x22'] ∨
      Text.trim e.toList = ['\x27', '\x27'])

theorem captureTarget_eq_empty_iff (hvariable : o.captureVariable ≠ "") (attrs : List Attr) :
    captureTarget o attrs = "" ↔ NamesNothing attrs := by
  unfold captureTarget NamesNothing
  split
  · rename_i e hattr
    rw [hattr, String.ofList_eq_empty_iff, unquote_eq_nil_iff]
    simp
  · rename_i hattr
    constructor
    · exact fun hempty => absurd hempty hvariable
    · rintro ⟨e, he, -⟩
      exact absurd he (hattr e)

/-! ## The value -/

/-- What is assigned: the captured text, or the listing of its nodes. -/
def assignedValue (attrs : List Attr) (source : String) (nodes : List IR) : String :=
  if isUnquoted attrs then IR.listing 0 nodes else Json.quote source

/-- There is something on both sides of the assignment, and its value is one literal or, if it is
unquoted, a sum of operands. -/
structure IsAssignment (unquoted : Bool) (target value : String) : Prop where
  target_ne : target ≠ ""
  value_ne : value ≠ ""
  literal : unquoted = false → Json.IsLiteral value
  sum : unquoted = true → ∃ terms : List IR.Term, terms ≠ [] ∧
    value = " + ".intercalate (terms.map IR.Term.source)

theorem isAssignment_iff {attrs : List Attr} {source target : String} {nodes : List IR}
    (hnodes : ∀ n ∈ IR.walkAll nodes, n.HasLiteralText) :
    IsAssignment (isUnquoted attrs) target (assignedValue attrs source nodes) ↔
      target ≠ "" ∧ (isUnquoted attrs = true → ∃ n ∈ nodes, n.isListed = true) := by
  -- Quoted text is a literal whatever it is. A listing can be empty, and that is all that can go
  -- wrong with it.
  cases hmode : isUnquoted attrs with
  | false =>
    have hvalue : assignedValue attrs source nodes = Json.quote source := by
      rw [assignedValue, hmode, if_neg Bool.false_ne_true]
    rw [hvalue]
    constructor
    · exact fun h => ⟨h.target_ne, fun hlisted => absurd hlisted Bool.false_ne_true⟩
    · rintro ⟨htarget, -⟩
      exact
        { target_ne := htarget
          value_ne := (IR.denotes_quote source).ne_empty IR.Term.source_ne_empty
          literal := fun _ => Json.isLiteral_quote source
          sum := fun hlisted => absurd hlisted Bool.false_ne_true }
  | true =>
    have hvalue : assignedValue attrs source nodes = IR.listing 0 nodes := by
      rw [assignedValue, hmode, if_pos rfl]
    have hlisted : IR.listing 0 nodes ≠ "" ↔ ∃ n ∈ nodes, n.isListed = true := by
      rw [ne_eq, IR.listing_eq_empty_iff 0 hnodes]
      simp
    rw [hvalue]
    constructor
    · exact fun h => ⟨h.target_ne, fun _ => hlisted.mp h.value_ne⟩
    · rintro ⟨htarget, hsome⟩
      have hne := hlisted.mpr (hsome rfl)
      have hsum := (IR.denotesIfAny_of_literal 0 hnodes).resolve_left fun hempty => hne hempty.1
      obtain ⟨terms, hterms, hlisting, -⟩ := IR.Denotes.exists_terms hsum
      exact
        { target_ne := htarget
          value_ne := hne
          literal := fun hquoted => absurd hquoted.symm Bool.false_ne_true
          sum := fun _ => ⟨terms, hterms, hlisting⟩ }

/-! ## The capture -/

/-- Text that is captured in a source, directly or in other captured text, compiles with it. -/
theorem exists_nested_of_captured {s text : String} {nodes : List IR}
    (hok : Compile.source o s = .ok nodes) (htext : Relation.ReflTransGen Embeds s text)
    (f : Option String) : ∃ nodes', nested o text f = .ok nodes' := by
  induction htext generalizing f with
  | refl => exact exists_nested (source_eq o s ▸ hok) f
  | tail _ hstep ih => exact exists_nested_of_embeds hstep ih f

theorem nested_wellFormed {text : String} {f : Option String} {nodes : List IR}
    (h : nested o text f = .ok nodes) : IR.AllWellFormed o nodes := by
  have hyields : Observable.Yields (atDepth o (Text.weight text.toList + 1) text f) nodes := h
  exact embedded_wellFormed FrontEnd.bundled _ text f nodes hyields

/-- A capture of a source that compiles gives its assignment and what it captures. The assignment
is complete unless the variable is given as nothing, or nothing of what is captured is listed where
it is to be evaluated. -/
theorem visit_capture_assigns {s text : String} {nodes : List IR} {f : Option String} {root : Node}
    {attrs : List Attr} {lines : List Node} {label : BlockLabel} {p : Place}
    (hvariable : o.captureVariable ≠ "") (hok : Compile.source o s = .ok nodes)
    (htext : Relation.ReflTransGen Embeds s text) (hparse : Template.parse text f = .ok root)
    (hmem : .frame (.filter "capture" attrs) (.mk lines label) p ∈ root.walk)
    (host : Option Host) :
    ∃ inner,
      visit o (nested o) host (.frame (.filter "capture" attrs) (.mk lines label) p) =
        .ok (.many (.atom (.statement .var (captureTarget o attrs ++ " = " ++
          assignedValue attrs (linesOf lines) inner ++ ";")) (.ofPlace p) :: inner)) ∧
      (IsAssignment (isUnquoted attrs) (captureTarget o attrs)
          (assignedValue attrs (linesOf lines) inner) ↔
        ¬ NamesNothing attrs ∧ (isUnquoted attrs = true → ∃ n ∈ inner, n.isListed = true)) := by
  have hcaptured : Embeds text (linesOf lines) := by
    refine ⟨f, root, hparse, _, hmem, ?_⟩
    rw [Node.capturedText?, if_pos rfl]
    rfl
  -- The source compiles, and so does all text that is captured in it, this one included.
  obtain ⟨captured, hcompiled⟩ := exists_nested_of_captured hok (htext.tail hcaptured)
    (p.filename <|> o.filename)
  refine ⟨captured.map (IR.shift p.line), ?_, ?_⟩
  · rw [visit, filter, if_pos rfl, capture_eq, hcompiled, mapBoth_ok,
      ← assignment_shift o attrs _ p.line]
    rfl
  · rw [isAssignment_iff fun n hn => ?_, ne_eq, captureTarget_eq_empty_iff hvariable]
    exact (((nested_wellFormed hcompiled).map_mapOrigin _) n hn).hasLiteralText

/-- A capture in a capture, to be evaluated, below a tag. -/
theorem visit_capture_assigns_nested :
    let s := "if a\n  :capture(as=\"x\")\n    p\n      :capture(unquote)\n        b= y\n"
    (Compile.source {} s).isOk = true ∧ ∃ root attrs lines label p,
      Template.parse "p\n  :capture(unquote)\n    b= y" none = .ok root ∧
      .frame (.filter "capture" attrs) (.mk lines label) p ∈ root.walk ∧
      linesOf lines = "b= y" ∧ ∃ inner,
        visit {} (nested {}) none (.frame (.filter "capture" attrs) (.mk lines label) p) =
          .ok (.many (.atom (.statement .var (captureTarget {} attrs ++ " = " ++
            assignedValue attrs (linesOf lines) inner ++ ";")) (.ofPlace p) :: inner)) ∧
        (IsAssignment (isUnquoted attrs) (captureTarget {} attrs)
            (assignedValue attrs (linesOf lines) inner) ↔
          ¬ NamesNothing attrs ∧ (isUnquoted attrs = true → ∃ n ∈ inner, n.isListed = true)) := by
  intro s
  have hok : (Compile.source {} s).isOk = true := by decide +kernel
  have houter : Embeds s "p\n  :capture(unquote)\n    b= y" :=
    embeds_of_passes (o := {}) (by decide +kernel)
  have hinner : passes {} "p\n  :capture(unquote)\n    b= y" (fun root _ =>
      root.walk.any fun m => m.capturedText? == some "b= y") = true := by decide +kernel
  obtain ⟨root, -, hparse, -, hany⟩ := exists_of_passes hinner
  obtain ⟨m, hmem, htext⟩ := any_eq_true.mp hany
  obtain ⟨attrs, lines, label, p, rfl, hlines⟩ := Node.exists_capture (beq_iff_eq.mp htext)
  refine ⟨hok, root, attrs, lines, label, p, hparse, hmem, hlines, ?_⟩
  cases hsource : Compile.source {} s with
  | error e =>
    rw [hsource] at hok
    cases hok
  | ok nodes => exact visit_capture_assigns (by decide) hsource (.single houter) hparse hmem none

/-- The statement at the head of a list of nodes. -/
def leadingStatement? : List IR → Option String
  | .atom (.statement _ expr) _ :: _ => some expr
  | _ => none

/-- A pair of quotes leaves no variable to assign to, and an empty capture nothing to assign. -/
theorem source_capture_halves :
    (Compile.source {} ":capture(as=\"\")\n  p").toOption.bind leadingStatement? =
        some " = \"p\";" ∧
      (Compile.source {} ":capture(unquote)").toOption.bind leadingStatement? =
        some "capture = ;" := by
  decide +kernel

end Compile

end Offside
