import Offside.Proofs.Compile.Nested
import Offside.Proofs.Template.Capture

/-!
# Captures are transparent

Capturing text does not change what the text compiles to. The nodes of a capture are those that the
captured lines would have given if they had stood at the left margin instead, on the same lines of
the template, and so are its errors; only the assignment in front is new
(`source_captured`).

The one thing that does show the capture is the width in the complaint about a line that is indented
like none above it: it is counted from where the captured lines start.
-/

set_option autoImplicit false

namespace Offside

open List

/-! ## Errors but for a column -/

/-- The fault without the column that an inconsistent indentation was found at. -/
def ParseFault.forgetColumn : ParseFault → ParseFault
  | .dedent _ => .dedent 0
  | fault => fault

/-- The error without the column that an inconsistent indentation was found at; everything else
stays. -/
def CompileError.forgetColumn : CompileError → CompileError
  | .frontEnd e => .frontEnd ⟨e.place, e.fault.forgetColumn⟩
  | e => e

@[simp] theorem ParseFault.forgetColumn_indent (cols : Nat) (fault : ParseFault) :
    (fault.indent cols).forgetColumn = fault.forgetColumn := by
  cases fault <;> rfl

namespace Compile

variable {o : Options} {f : Option String}

/-- What comes of compiling, but for the column. -/
def UpToColumn (x y : Except CompileError (List IR)) : Prop :=
  mapBoth CompileError.forgetColumn id x = mapBoth CompileError.forgetColumn id y

/-- Lines compile to the same wherever they start. -/
theorem visitLines_moved {cols : Nat} {lines lines' : List Line}
    (h : Forall₂ (Template.Moved f f id cols) lines lines') :
    UpToColumn (visitLines o f lines) (visitLines o f lines') := by
  rw [UpToColumn, visitLines, visitLines, Template.nodesOf_moved h]
  cases Template.nodesOf f lines with
  | error e => simp [CompileError.forgetColumn, ParseError.move]
  | ok nodes => simp [map_congr_left fun n _ => Node.mapPlace_id n]

/-- Lines compile to what their text, read by itself, compiles to further down. -/
theorem visitLines_reread {rows : Nat} {lines : List Line} (h : Line.Consecutive (1 + rows) lines) :
    UpToColumn (visitLines o f lines)
      (mapBoth (CompileError.shift (.ofNat rows)) (map (IR.shift (.ofNat rows)))
        (nested o (linesOf (Template.verbatim f lines)) f)) := by
  rw [UpToColumn, nested_eq_visitLines, visitLines, Template.nodesOf_eq_reread h, visitLines]
  cases hnodes : Template.nodesOf f (Line.ofSource (linesOf (Template.verbatim f lines))) with
  | error e =>
    simp [CompileError.forgetColumn, CompileError.shift, ParseError.move, ParseError.shift]
  | ok nodes => simp [visitAll_shift (Template.grounded_of_nodesOf hnodes)]

/-- A capture compiles to its assignment and what its text compiles to further down. -/
theorem source_eq_nested (o : Options) {head w : List Char} {attrs : List Attr}
    (hhead : CaptureHead head attrs) (hw : ∀ c ∈ w, Text.isIndent c = true) (hne : w ≠ [])
    (body : List Char) :
    Compile.source o (String.ofList (head ++ '\n' :: Line.indentLines w body)) =
      mapBoth (CompileError.shift 1)
        (fun nodes => .atom (.statement .var (assignment o attrs
            (linesOf (Template.verbatim o.filename (Template.capturedLines w body))) nodes))
            ⟨some 1, o.filename⟩ :: nodes.map (IR.shift 1))
        (nested o (linesOf (Template.verbatim o.filename (Template.capturedLines w body)))
          o.filename) := by
  have hfile : (o.filename <|> o.filename) = o.filename := by cases o.filename <;> rfl
  rw [source_eq, nested_eq_visitLines, visitLines, Template.nodesOf_captured hhead hw hne body]
  simp only [visitAll_cons, visitAll_nil, visit, filter, if_true, Block.plain, capture_eq, hfile]
  cases nested o (linesOf (Template.verbatim o.filename (Template.capturedLines w body)))
      o.filename with
  | error e => rfl
  | ok nodes => simp [Except.bind, Visited.toList, Provenance.ofPlace]

/-- Captured lines are the lines below an empty one, indented. -/
theorem upToColumn_captured {w : List Char} (hw : ∀ c ∈ w, Text.isIndent c = true) (body : String) :
    UpToColumn (Compile.source o ("\n" ++ body))
      (mapBoth (CompileError.shift 1) (map (IR.shift 1))
        (nested o (linesOf (Template.verbatim o.filename (Template.capturedLines w body.toList)))
          o.filename)) := by
  have hnl : '\n' ∉ w := fun h => absurd (hw _ h) (by decide)
  have hsource : Line.ofSource ("\n" ++ body) =
      .ofText 1 [] :: Line.numberFrom 2 (Line.segments body.toList) := by
    simp [Line.ofSource, Line.numberFrom]
  have hblank : (Line.ofText 1 []).isBlank = true := rfl
  -- The empty line in front only makes the lines start at the second.
  have hlines : visitLines o o.filename (Line.ofSource ("\n" ++ body)) =
      visitLines o o.filename (Line.numberFrom 2 (Line.segments body.toList)) := by
    rw [hsource, visitLines, Template.nodesOf, Template.levelOf_blank hblank,
      Template.siblings_blank hblank]
    rfl
  have hconsecutive : Line.Consecutive (1 + 1) (Template.capturedLines w body.toList) := by
    refine Line.consecutive_numberFrom 2 fun t ht => ?_
    obtain ⟨s, hs, rfl⟩ := mem_map.mp ht
    simpa [hnl] using Line.not_mem_of_mem_segments hs
  rw [source_eq, nested_eq_visitLines, hlines]
  exact Eq.trans (visitLines_moved (Template.moved_indented hw 2 _))
    (visitLines_reread hconsecutive)

/-- Capturing text does not change what it compiles to. The text `body`, indented below the head of
a capture, gives the assignment and then the nodes that it gives at the left margin below an empty
line, places included; and if it fails there, it fails with the same error, of which only a column
can differ. -/
theorem source_captured (o : Options) {head : String} {attrs : List Attr}
    (hhead : CaptureHead head.toList attrs) {k : Nat} (hk : 1 ≤ k) (body : String) :
    match Compile.source o ("\n" ++ body) with
    | .ok nodes =>
      ∃ text, Compile.source o (head ++ "\n" ++ Text.indented k body) =
        .ok (.atom (.statement .var (assignment o attrs text nodes)) ⟨some 1, o.filename⟩ :: nodes)
    | .error e =>
      ∃ e', Compile.source o (head ++ "\n" ++ Text.indented k body) = .error e' ∧
        e'.forgetColumn = e.forgetColumn := by
  have hw : ∀ c ∈ replicate k ' ', Text.isIndent c = true := by
    intro c hc
    rw [eq_of_mem_replicate hc]
    rfl
  have hne : replicate k ' ' ≠ [] := by simp; omega
  have hcaptured := source_eq_nested o hhead hw hne body.toList
  have hplain : UpToColumn (Compile.source o ("\n" ++ body)) _ := upToColumn_captured hw body
  have hsource : head ++ "\n" ++ Text.indented k body =
      String.ofList (head.toList ++ '\n' :: Line.indentLines (replicate k ' ') body.toList) := by
    apply String.toList_inj.mp
    simp [Text.indented]
  rw [hsource, hcaptured]
  generalize linesOf (Template.verbatim o.filename
    (Template.capturedLines (replicate k ' ') body.toList)) = text at hplain ⊢
  -- Both sides follow from what the captured text compiles to by itself.
  cases hsame : Compile.source o ("\n" ++ body) with
  | ok nodes =>
    rw [UpToColumn, hsame] at hplain
    cases hnested : nested o text o.filename with
    | error e' => simp [hnested] at hplain
    | ok nodes' =>
      obtain rfl : nodes = nodes'.map (IR.shift 1) := by simpa [hnested] using hplain
      exact ⟨text, by simp⟩
  | error e =>
    rw [UpToColumn, hsame] at hplain
    cases hnested : nested o text o.filename with
    | ok nodes' => simp [hnested] at hplain
    | error e' =>
      refine ⟨e'.shift 1, rfl, ?_⟩
      simpa [hnested, eq_comm] using hplain

/-- A capture with a name of its own, around text that starts with a blank line and captures text
after a blank line itself. -/
theorem source_captured_nested :
    CaptureHead ":capture(as='menu')".toList [⟨"as", .expr "'menu'", true⟩] ∧
      ∃ nodes text,
        Compile.source {} ("\n" ++ "\nul\n  :capture\n\n      li= x\n  p\n") = .ok nodes ∧
        Compile.source {} (":capture(as='menu')" ++ "\n" ++
            Text.indented 2 "\nul\n  :capture\n\n      li= x\n  p\n") =
          .ok (.atom (.statement .var
            (assignment {} [⟨"as", .expr "'menu'", true⟩] text nodes)) ⟨some 1, none⟩ ::
              nodes) := by
  have hhead : CaptureHead ":capture(as='menu')".toList [⟨"as", .expr "'menu'", true⟩] :=
    .inr ⟨"(as='menu')".toList, rfl, by decide, rfl⟩
  have hsame := source_captured {} hhead (show 1 ≤ 2 by decide)
    "\nul\n  :capture\n\n      li= x\n  p\n"
  have hok :
      (Compile.source {} ("\n" ++ "\nul\n  :capture\n\n      li= x\n  p\n")).isOk = true := by
    decide +kernel
  refine ⟨hhead, ?_⟩
  cases hnodes : Compile.source {} ("\n" ++ "\nul\n  :capture\n\n      li= x\n  p\n") with
  | error e => rw [hnodes] at hok; cases hok
  | ok nodes =>
    rw [hnodes] at hsame
    obtain ⟨text, htext⟩ := hsame
    exact ⟨nodes, text, rfl, htext⟩

end Compile

end Offside
