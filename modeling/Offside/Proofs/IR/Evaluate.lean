import Offside.IR.Listing
import Offside.Proofs.IR.Sum
import Offside.Proofs.Json.Literal
import Offside.Text.Space

/-!
# The value of a listing

A listing is an expression for the runtime: a sum of operands, each of them a string literal or the
JSON of one. This file says what such a sum comes to. Literals are decoded, the JSON of a literal is
the literal as it is written, and the values are put together in order.

Sums of sums are sums again (`SumOf.plus`), so the value of a listing follows the way it is made.
-/

set_option autoImplicit false

namespace Offside

open List

namespace IR

open Json

/-! ## Operands -/

/-- An operand of a sum. -/
inductive Operand where
  | literal (pieces : List Piece)
  /-- The JSON of a literal. -/
  | stringified (pieces : List Piece)

namespace Operand

/-- What stands in front of a literal to be stringified. -/
def opening : String := "JSON.stringify("

/-- The operand as it is written. -/
def source : Operand → String
  | .literal pieces => String.ofList (Json.literal pieces)
  | .stringified pieces => opening ++ String.ofList (Json.literal pieces) ++ ")"

/-- What the operand comes to. -/
def value? : Operand → Option (List Char)
  | .literal pieces => decode? pieces
  | .stringified pieces => some (Json.literal pieces)

/-- The closing parenthesis behind the literal that is stringified. -/
def close? : List Piece × List Char → Option (Operand × List Char)
  | (pieces, ')' :: after) => some (.stringified pieces, after)
  | _ => none

/-- The operand at the start of a text, and what follows it. -/
def read? (s : List Char) : Option (Operand × List Char) :=
  match literal? s with
  | some (pieces, after) => some (.literal pieces, after)
  | none => ((Text.after? opening s).bind literal?).bind close?

theorem read?_source (op : Operand) (rest : List Char) :
    read? (op.source.toList ++ rest) = some (op, rest) := by
  cases op with
  | literal pieces =>
    have hread : literal? (Json.literal pieces ++ rest) = some (pieces, rest) :=
      literal?_eq_some.mpr rfl
    rw [source, String.toList_ofList]
    simp only [read?, hread]
  | stringified pieces =>
    have hread : literal? (Json.literal pieces ++ ')' :: rest) = some (pieces, ')' :: rest) :=
      literal?_eq_some.mpr rfl
    have hsource : (stringified pieces).source.toList ++ rest =
        opening.toList ++ (Json.literal pieces ++ ')' :: rest) := by
      simp [source]
    -- What is stringified starts with a letter, so it is not taken for a literal.
    have hnone : literal? (opening.toList ++ (Json.literal pieces ++ ')' :: rest)) = none := by
      have hhead : opening.toList = 'J' :: "SON.stringify(".toList := by simp [opening]
      have hne : 'J' ≠ mark := by decide
      rw [hhead, cons_append, literal?, if_neg hne]
    rw [hsource]
    simp only [read?, hnone, Text.after?_append, Option.bind_some, hread]
    rfl

theorem length_read? {s rest : List Char} {op : Operand} (h : read? s = some (op, rest)) :
    rest.length < s.length := by
  -- A literal has at least its two marks, and reading takes at least one literal.
  have hliteral {s after : List Char} {pieces : List Piece}
      (h : literal? s = some (pieces, after)) : after.length < s.length := by
    rw [literal?_eq_some.mp h, Json.literal]
    simp
    omega
  unfold read? at h
  split at h
  · rename_i pieces after hread
    cases h
    exact hliteral hread
  · obtain ⟨⟨pieces, after⟩, hread, hclose⟩ := Option.bind_eq_some_iff.mp h
    obtain ⟨inner, hafter, hread⟩ := Option.bind_eq_some_iff.mp hread
    have hinner := congrArg length (Text.eq_append_of_after? hafter)
    have hshorter := hliteral hread
    unfold close? at hclose
    split at hclose
    · rename_i heq
      cases heq
      cases hclose
      simp only [length_append, length_cons] at hinner hshorter
      omega
    · cases hclose

end Operand

/-! ## Sums -/

/-- The operands of a sum. -/
def operands? (s : List Char) : Option (List Operand) :=
  match h : Operand.read? s with
  | none => none
  | some (op, []) => some [op]
  | some (op, c :: rest) =>
    match hmore : Text.after? plus (c :: rest) with
    | none => none
    | some more =>
      have := Operand.length_read? h
      have := congrArg length (Text.eq_append_of_after? hmore)
      (operands? more).map (op :: ·)
termination_by s.length
decreasing_by
  simp only [length_append] at *
  omega

/-- The value of an expression. There is nothing in an empty one, and its value is empty. -/
def evaluate (expr : String) : Option String :=
  if expr.isEmpty then some ""
  else
    (operands? expr.toList).bind fun ops =>
      (ops.mapM Operand.value?).map fun values => String.ofList values.flatten

/-- The sum of operands. -/
def sum (ops : List Operand) : String :=
  plus.intercalate (ops.map Operand.source)

theorem operands?_last {s : List Char} {op : Operand} (h : Operand.read? s = some (op, [])) :
    operands? s = some [op] := by
  rw [operands?]
  split <;> simp_all

theorem operands?_plus {s more : List Char} {op : Operand}
    (h : Operand.read? s = some (op, plus.toList ++ more)) :
    operands? s = (operands? more).map (op :: ·) := by
  -- The definition asks whether anything follows the operand, so the sign is spelled out.
  have hplus : plus.toList ++ more = ' ' :: '+' :: ' ' :: more := by simp [plus]
  rw [hplus] at h
  have hafter : Text.after? plus (' ' :: '+' :: ' ' :: more) = some more := by
    rw [← hplus, Text.after?_append]
  rw [operands?]
  split
  · rename_i hnone
    rw [h] at hnone
    cases hnone
  · rename_i hlast
    rw [h] at hlast
    cases hlast
  · rename_i hread
    rw [h] at hread
    cases hread
    split
    · rename_i hnone
      rw [hafter] at hnone
      cases hnone
    · rename_i hmore
      rw [hafter] at hmore
      cases hmore
      rfl

theorem operands?_sum {ops : List Operand} (hne : ops ≠ []) :
    operands? (sum ops).toList = some ops := by
  induction ops with
  | nil => exact absurd rfl hne
  | cons op rest ih =>
    cases rest with
    | nil =>
      refine operands?_last ?_
      simpa [sum] using Operand.read?_source op []
    | cons next rest =>
      have hsum : (sum (op :: next :: rest)).toList =
          op.source.toList ++ (plus.toList ++ (sum (next :: rest)).toList) := by
        rw [sum, map_cons, map_cons, String.intercalate_cons_cons, String.toList_append,
          String.toList_append, append_assoc]
        rfl
      rw [hsum, operands?_plus (Operand.read?_source op _), ih (cons_ne_nil _ _)]
      rfl

/-! ## What sums come to -/

/-- The text is a sum of at least one operand, and comes to `value`. -/
def Evaluates (expr value : String) : Prop :=
  ∃ ops values, ops ≠ [] ∧ expr = sum ops ∧ ops.mapM Operand.value? = some values ∧
    value.toList = values.flatten

theorem evaluates_iff_sumOf {expr value : String} :
    Evaluates expr value ↔ SumOf Operand.source Operand.value? expr value.toList :=
  Iff.rfl

theorem Operand.source_ne_empty (op : Operand) : op.source ≠ "" := by
  cases op <;> simp [source, Json.literal, opening]

theorem Evaluates.ne_empty {expr value : String} (h : Evaluates expr value) : expr ≠ "" :=
  SumOf.ne_empty Operand.source_ne_empty (evaluates_iff_sumOf.mp h)

theorem Evaluates.evaluate_eq {expr value : String} (h : Evaluates expr value) :
    evaluate expr = some value := by
  have hnonempty : ¬ expr.isEmpty := by
    rw [String.isEmpty_iff]
    exact h.ne_empty
  obtain ⟨ops, values, hne, rfl, hvalues, hvalue⟩ := h
  rw [evaluate, if_neg hnonempty, operands?_sum hne, Option.bind_some, hvalues, Option.map_some,
    ← hvalue, String.ofList_toList]

/-- A sum of two sums. -/
theorem Evaluates.plus {a b v w : String} (ha : Evaluates a v) (hb : Evaluates b w) :
    Evaluates (a ++ IR.plus ++ b) (v ++ w) := by
  rw [evaluates_iff_sumOf, String.toList_append]
  exact SumOf.plus ha hb

theorem evaluates_quote (t : String) : Evaluates (quote t) t := by
  obtain ⟨pieces, hquote, hvalue⟩ := exists_pieces_quote t.toList
  have hvalue : (Operand.literal pieces).value? = some t.toList := hvalue
  have hsource : quote t = (Operand.literal pieces).source := by
    rw [quote, hquote, Operand.source]
  rw [hsource, evaluates_iff_sumOf]
  exact SumOf.single hvalue

theorem evaluates_stringified {lit : String} (h : IsLiteral lit) :
    Evaluates (stringified lit) lit := by
  obtain ⟨pieces, hpieces⟩ := h
  have hstringified : stringified lit = (Operand.stringified pieces).source := by
    rw [Operand.source, ← hpieces, String.ofList_toList]
    rfl
  rw [hstringified, evaluates_iff_sumOf, hpieces]
  exact SumOf.single rfl

/-- A list of sums with a literal between any two of them. -/
theorem Evaluates.intercalate (t : String) {exprs values : List String}
    (h : Forall₂ Evaluates exprs values) (hne : exprs ≠ []) :
    Evaluates ((IR.plus ++ quote t ++ IR.plus).intercalate exprs) (t.intercalate values) := by
  rw [evaluates_iff_sumOf, String.toList_intercalate]
  exact SumOf.intercalate (evaluates_quote t) (forall₂_map_right_iff.mpr h) hne

/-- The text is empty, or a sum. -/
def EvaluatesIfAny (expr value : String) : Prop :=
  expr = "" ∧ value = "" ∨ Evaluates expr value

theorem nil_intercalate {α : Type} (lists : List (List α)) :
    ([] : List α).intercalate lists = lists.flatten := by
  induction lists with
  | nil => rfl
  | cons a rest ih =>
    cases rest with
    | nil => rw [intercalate_singleton, flatten_singleton]
    | cons b rest =>
      rw [intercalate_cons_cons, append_nil, ih, flatten_cons, flatten_cons, flatten_cons]

/-- A sum, and then more sums of which empty ones are left out. -/
theorem Evaluates.parts {first value : String} (hfirst : Evaluates first value)
    {exprs values : List String} (h : Forall₂ EvaluatesIfAny exprs values) :
    Evaluates (IR.plus.intercalate (first :: exprs.filter (!·.isEmpty)))
      ("".intercalate (value :: values)) := by
  have hparts : Forall₂ (SumIfAny Operand.source Operand.value?) exprs
      (values.map String.toList) := by
    refine forall₂_map_right_iff.mpr (h.imp fun expr v hexpr => ?_)
    exact hexpr.imp_left fun hempty => ⟨hempty.1, by rw [hempty.2, String.toList_empty]⟩
  have hvalue : ("".intercalate (value :: values)).toList =
      value.toList ++ (values.map String.toList).flatten := by
    rw [String.toList_intercalate, String.toList_empty, nil_intercalate, map_cons, flatten_cons]
  rw [evaluates_iff_sumOf, hvalue]
  exact SumOf.parts Operand.source_ne_empty hfirst hparts

end IR

end Offside
