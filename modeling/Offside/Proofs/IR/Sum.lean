import Mathlib.Data.List.Forall2
import Offside.IR.Listing

/-!
# Sums of operands

Listings are put together by joins: pieces by a plus sign, props by a space, nodes by a line feed,
and at some of these joins what is empty is left out first. This file says what the joins do, for
operands of any kind: as long as each piece is a sum of operands, so is the whole, no sign is left
over or doubled, and its value is the values of the pieces put together.
-/

set_option autoImplicit false

namespace Offside.IR

open List

/-! ## The joins of a listing -/

theorem plusSpace_eq : plusSpace = plus ++ Json.quote " " ++ plus := by
  decide

theorem plusNewline_eq : plusNewline = plus ++ Json.quote "\n" ++ plus := by
  decide

/-! ## Sums -/

variable {Op α : Type} {source : Op → String} {value? : Op → Option (List α)}

/-- The text is a sum of at least one operand, and comes to `value`. -/
def SumOf (source : Op → String) (value? : Op → Option (List α)) (expr : String)
    (value : List α) : Prop :=
  ∃ ops values, ops ≠ [] ∧ expr = plus.intercalate (ops.map source) ∧
    ops.mapM value? = some values ∧ value = values.flatten

/-- The text is empty, or a sum. -/
def SumIfAny (source : Op → String) (value? : Op → Option (List α)) (expr : String)
    (value : List α) : Prop :=
  expr = "" ∧ value = [] ∨ SumOf source value? expr value

namespace SumOf

theorem single {op : Op} {value : List α} (h : value? op = some value) :
    SumOf source value? (source op) value := by
  refine ⟨[op], [value], cons_ne_nil _ _, ?_, ?_, ?_⟩
  · rw [map_singleton, String.intercalate_singleton]
  · rw [mapM_cons, h]
    rfl
  · rw [flatten_singleton]

/-- A sum of two sums. -/
theorem plus {a b : String} {v w : List α} (ha : SumOf source value? a v)
    (hb : SumOf source value? b w) : SumOf source value? (a ++ IR.plus ++ b) (v ++ w) := by
  obtain ⟨ops, values, hne, rfl, hvalues, rfl⟩ := ha
  obtain ⟨ops', values', hne', rfl, hvalues', rfl⟩ := hb
  refine ⟨ops ++ ops', values ++ values', append_ne_nil_of_left_ne_nil hne _, ?_, ?_, ?_⟩
  · rw [map_append, String.intercalate_append_of_ne_nil (by simpa) (by simpa)]
  · rw [mapM_append, hvalues, hvalues']
    rfl
  · rw [flatten_append]

/-- There is something to read in a sum. -/
theorem ne_empty (hsource : ∀ op, source op ≠ "") {expr : String} {value : List α}
    (h : SumOf source value? expr value) : expr ≠ "" := by
  obtain ⟨ops, values, hne, rfl, -, -⟩ := h
  cases ops with
  | nil => exact absurd rfl hne
  | cons op rest =>
    cases rest with
    | nil =>
      rw [map_singleton, String.intercalate_singleton]
      exact hsource op
    | cons next rest =>
      rw [map_cons, map_cons, String.intercalate_cons_cons, ne_eq, String.append_eq_empty_iff,
        String.append_eq_empty_iff]
      exact fun h => hsource op h.1.1

/-- A list of sums with a sum between any two of them. -/
theorem intercalate {sep : String} {w : List α} (hsep : SumOf source value? sep w)
    {exprs : List String} {values : List (List α)}
    (h : Forall₂ (SumOf source value?) exprs values) (hne : exprs ≠ []) :
    SumOf source value? ((IR.plus ++ sep ++ IR.plus).intercalate exprs) (w.intercalate values) := by
  induction h with
  | nil => exact absurd rfl hne
  | @cons a v exprs values ha hrest ih =>
    -- There is a separator only if a second sum follows.
    cases hrest with
    | nil => simpa using ha
    | @cons b v' exprs values hb hrest =>
      rw [String.intercalate_cons_cons, intercalate_cons_cons]
      have hsum := (ha.plus hsep).plus (ih (cons_ne_nil _ _))
      simpa only [String.append_assoc] using hsum

/-- The same of a list that may be empty. -/
theorem intercalateIfAny {sep : String} {w : List α} (hsep : SumOf source value? sep w)
    {exprs : List String} {values : List (List α)}
    (h : Forall₂ (SumOf source value?) exprs values) :
    SumIfAny source value? ((IR.plus ++ sep ++ IR.plus).intercalate exprs)
      (w.intercalate values) := by
  cases h with
  | nil => exact .inl ⟨String.intercalate_nil, rfl⟩
  | cons ha hrest => exact .inr (intercalate hsep (.cons ha hrest) (cons_ne_nil _ _))

/-- A sum, and then more sums of which empty ones are left out. -/
theorem parts (hsource : ∀ op, source op ≠ "") {first : String} {value : List α}
    (hfirst : SumOf source value? first value) {exprs : List String} {values : List (List α)}
    (h : Forall₂ (SumIfAny source value?) exprs values) :
    SumOf source value? (IR.plus.intercalate (first :: exprs.filter (!·.isEmpty)))
      (value ++ values.flatten) := by
  induction h generalizing first value with
  | nil => simpa using hfirst
  | @cons expr v exprs values hexpr hrest ih =>
    rw [flatten_cons]
    -- An empty text has no value either, so leaving it out is harmless. Any other one is the first
    -- sum of what is left.
    rcases hexpr with ⟨rfl, rfl⟩ | hexpr
    · rw [filter_cons_of_neg (by simp), nil_append]
      exact ih hfirst
    · rw [filter_cons_of_pos (by simpa using hexpr.ne_empty hsource), String.intercalate_cons_cons]
      exact hfirst.plus (ih hexpr)

end SumOf

end Offside.IR
