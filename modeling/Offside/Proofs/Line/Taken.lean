import Offside.Line.Kind
import Offside.Proofs.Tag.Tail

/-!
# What a line kind takes from its line

Piped text is the end of its line as it stands; the expressions of code and of conditions are
trimmed. The other kinds have nothing in them that depends on how the line ends.
-/

set_option autoImplicit false

namespace Offside.LineKind

open List

/-- What the kind holds of the line `s`: text is the end of it, and expressions are trimmed. -/
def TakenFrom (s : List Char) : LineKind → Prop
  | .text t => t.toList <:+ s
  | .code expr _ _ | .condition _ expr => Text.trim expr.toList = expr.toList
  | _ => True

/-! ## What a rule can give -/

section Gives

variable {α : Type} {P : LineKind → Prop}

/-- If the rule accepts the line, `P` holds of the kind it gives. -/
def Gives (P : LineKind → Prop) (x : Option LineKind) : Prop :=
  ∀ k, x = some k → P k

theorem Gives.none : Gives P none := fun _ h => nomatch h

theorem Gives.some {k : LineKind} (h : P k) : Gives P (some k) := fun _ heq =>
  Option.some.inj heq ▸ h

theorem Gives.map {x : Option α} {g : α → LineKind} (h : ∀ a, x = .some a → P (g a)) :
    Gives P (x.map g) := by
  cases x with
  | none => exact .none
  | some a => exact .some (h a rfl)

theorem Gives.bind {x : Option α} {g : α → Option LineKind} (h : ∀ a, Gives P (g a)) :
    Gives P (x.bind g) := by
  cases x with
  | none => exact .none
  | some a => exact h a

theorem Gives.orElse {x y : Option LineKind} (hx : Gives P x) (hy : Gives P y) :
    Gives P (x <|> y) := by
  cases x with
  | none => exact hy
  | some k => exact .some (hx k rfl)

end Gives

/-! ## The rules -/

variable {s : List Char}

theorem trim_trimmed (s : List Char) :
    Text.trim (Text.trimmed s).toList = (Text.trimmed s).toList := by
  rw [Text.trimmed, String.toList_ofList, Text.trim_trim]

theorem trim_argument {arg : Option String} (h : argumentOrEnd? s = some arg) :
    Text.trim (arg.getD "").toList = (arg.getD "").toList := by
  simp only [argumentOrEnd?] at h
  split at h
  · cases h
    rfl
  split at h
  · cases h
  · cases h
    exact trim_trimmed _

theorem condition_taken : Gives (TakenFrom s) (condition? s) := by
  -- All conditions but `else if` are a word and an argument, and differ in the word alone.
  have hword (word : Condition) (rest : Option (List Char)) :
      Gives (TakenFrom s)
        ((rest.bind argumentOrEnd?).map fun e => .condition word (e.getD "")) := by
    refine .map fun arg harg => ?_
    obtain ⟨rest, -, harg⟩ := Option.bind_eq_some_iff.mp harg
    exact trim_argument harg
  refine .orElse (hword _ _) (.orElse (hword _ _) (.orElse (.map fun arg harg => ?_) (hword _ _)))
  unfold elseIf? at harg
  split at harg
  · split at harg
    · obtain ⟨rest, -, harg⟩ := Option.bind_eq_some_iff.mp harg
      exact trim_argument harg
    · cases harg
  · cases harg

theorem rule_taken : ∀ rule ∈ rules, Gives (TakenFrom s) (rule s) := by
  simp only [rules, forall_mem_cons, not_mem_nil, false_imp_iff, implies_true, and_true]
  -- One goal for each rule. Most kinds hold nothing that matters here, whatever the rule accepts.
  refine ⟨?comment, ?text, ?literal, ?buffered, ?each, ?code, condition_taken, ?caseOf, ?default,
    ?when, ?block, ?subBlock, ?yield, ?mixin, ?doctype, ?filter⟩
  case comment =>
    unfold comment?
    split
    · exact .some trivial
    · exact .some trivial
    · exact .none
  case literal =>
    unfold literal?
    split
    · exact .some trivial
    · exact .none
  case text =>
    unfold text?
    split
    · exact .some (by rw [TakenFrom, String.toList_ofList]; exact ⟨['|', ' '], rfl⟩)
    · exact .some (by rw [TakenFrom, String.toList_ofList]; exact suffix_cons _ _)
    · exact .none
  case buffered =>
    unfold bufferedCode?
    split
    · exact .some (trim_trimmed _)
    · exact .some (trim_trimmed _)
    · exact .none
  case code =>
    unfold code?
    split
    · exact .some (trim_trimmed _)
    · exact .none
  case each | caseOf | when | doctype => exact .map fun _ _ => trivial
  case default =>
    unfold whenDefault?
    split
    · exact .some trivial
    · exact .none
  case block =>
    refine .bind fun rest => ?_
    split
    · exact .some trivial
    split
    · exact .map fun _ _ => trivial
    · exact .none
  case subBlock =>
    unfold subBlock?
    split
    · exact .map fun _ _ => trivial
    · exact .none
  case yield =>
    refine .bind fun rest => .orElse ?_ (.map fun _ _ => trivial)
    split
    · exact .map fun _ _ => trivial
    · exact .none
  case mixin =>
    unfold mixin?
    split
    · exact .map fun _ _ => trivial
    · refine .bind fun rest => ?_
      split
      · exact .map fun _ _ => trivial
      · exact .none
  case filter =>
    unfold filter?
    split
    · dsimp only
      split
      · exact .none
      · exact .some trivial
    · exact .none

theorem ofContent_taken (s : List Char) : (ofContent s).TakenFrom s := by
  unfold ofContent
  cases hfound : rules.findSome? fun rule => rule s with
  | none => trivial
  | some k =>
    obtain ⟨rule, hrule, hk⟩ := exists_of_findSome?_eq_some hfound
    exact rule_taken rule hrule k hk

end Offside.LineKind
