import Offside.Proofs.Compile.Effects
import Offside.Proofs.Compile.Lists
import Offside.Proofs.Text.Brackets

/-!
# Loop headers and their brackets

A loop header is cut at the first `in` that stands by itself, and what is in front of it at its
first comma; a header without such an `in` loses a parenthesis in front and one at its end. None of
this looks at brackets. So a header with balanced brackets can fall into parts that are not
balanced, and `visit_each_brackets` says when: exactly when a cut is made inside a bracket, or when
parentheses are dropped that are not partners of each other.
-/

set_option autoImplicit false

namespace Offside

open List

/-! ## Cutting a header -/

namespace LoopHeader

open Brackets Text

variable {header before after : List Char} {key : String}

theorem exists_takeWhile (s : List Char) :
    s = s.takeWhile isSpace ++ trimStart s ∧ ∀ c ∈ s.takeWhile isSpace, isSpace c = true :=
  ⟨takeWhile_append_dropWhile.symm, fun _ hc => mem_takeWhile_imp hc⟩

/-- An `in` that stands by itself, and the white space around it. -/
theorem exists_of_afterIn? {s : List Char} (h : afterIn? s = some after) :
    ∃ front back, s = front ++ 'i' :: 'n' :: back ++ after ∧ (∀ c ∈ front, isSpace c = true) ∧
      ∀ c ∈ back, isSpace c = true := by
  obtain ⟨hfront, hspaces⟩ := exists_takeWhile s
  unfold afterIn? at h
  split_ifs at h
  split at h
  · rename_i behind hbehind
    split_ifs at h
    cases h
    obtain ⟨hback, hspaces'⟩ := exists_takeWhile behind
    refine ⟨_, _, ?_, hspaces, hspaces'⟩
    rw [append_assoc, cons_append, cons_append, ← hback, ← hbehind, ← hfront]
  · cases h

/-- What separates the two sides of a header. -/
theorem exists_separator (h : splitIn? header = some (before, after)) :
    ∃ front back, header = before ++ (front ++ 'i' :: 'n' :: back) ++ after ∧
      (∀ c ∈ front, isSpace c = true) ∧ ∀ c ∈ back, isSpace c = true := by
  induction header generalizing before with
  | nil => cases h
  | cons c rest ih =>
    rw [splitIn?, Option.or_eq_some_iff] at h
    rcases h with h | ⟨-, h⟩
    · obtain ⟨after', hafter, heq⟩ := Option.map_eq_some_iff.mp h
      cases heq
      exact exists_of_afterIn? hafter
    · obtain ⟨⟨before', after'⟩, hrest, heq⟩ := Option.map_eq_some_iff.mp h
      cases heq
      obtain ⟨front, back, heq, hfront, hback⟩ := ih hrest
      exact ⟨front, back, by rw [heq]; rfl, hfront, hback⟩

/-- The two sides of a balanced header are balanced together. -/
theorem balanced_before_iff (hheader : Balanced header)
    (h : splitIn? header = some (before, after)) : Balanced before ↔ Balanced after := by
  obtain ⟨front, back, rfl, hfront, hback⟩ := exists_separator h
  -- The separator has no brackets in it, so whatever one side leaves open the other has to close.
  have hseparator : Balanced (front ++ 'i' :: 'n' :: back) := by
    refine .of_isPlain (forall_mem_append.mpr ⟨fun c hc => isPlain_of_isSpace (hfront c hc), ?_⟩)
    exact forall_mem_cons.mpr ⟨⟨rfl, rfl⟩, forall_mem_cons.mpr
      ⟨⟨rfl, rfl⟩, fun c hc => isPlain_of_isSpace (hback c hc)⟩⟩
  constructor
  · intro hbefore
    rwa [append_assoc, hbefore.append_iff_right, hseparator.append_iff_right] at hheader
  · intro hafter
    rwa [hafter.append_iff_left, hseparator.append_iff_left] at hheader

theorem balanced_trimmed_iff {s : List Char} : Balanced (trimmed s).toList ↔ Balanced s := by
  rw [trimmed, String.toList_ofList, trim, Balanced.trimEnd_iff, Balanced.trimStart_iff]

theorem binding_fst (s : List Char) : (binding s).1 = trimmed (s.takeWhile (· != ',')) := by
  unfold binding
  split
  · rename_i hnil
    rw [takeWhile_eq_self_iff.mpr (dropWhile_eq_nil_iff.mp hnil)]
  · rfl

/-- The key of a balanced binding is balanced if the value in front of it is. -/
theorem balanced_binding_snd (hbefore : Balanced before)
    (hvalue : Balanced (before.takeWhile (· != ','))) :
    ∀ k ∈ (binding before).2, Balanced k.toList := by
  intro k hk
  rw [← takeWhile_append_dropWhile (p := (· != ',')) (l := before),
    hvalue.append_iff_right] at hbefore
  unfold binding at hk
  split at hk
  · cases hk
  · rename_i c rest hrest
    dsimp only at hk
    split at hk
    · cases hk
    · cases hk
      -- What `dropWhile` stops at is a comma, which leaves the key behind it as balanced as it was.
      obtain rfl : c = ',' := by
        have hhead := head?_dropWhile_not (· != ',') before
        rw [hrest] at hhead
        simpa using hhead
      have hcomma : Balanced [','] := by decide
      rw [hrest, ← singleton_append, hcomma.append_iff_right] at hbefore
      exact balanced_trimmed_iff.mpr hbefore

/-! ## Dropping parentheses -/

theorem dropOpening_cons {rest : List Char} (h : trimStart header = '(' :: rest) :
    dropOpening header = rest := by
  rw [dropOpening, h]
  rfl

theorem dropOpening_of_head? (h : (trimStart header).head? ≠ some '(') :
    dropOpening header = header := by
  unfold dropOpening
  split
  · rename_i rest heq
    rw [heq] at h
    exact absurd rfl h
  · rfl

theorem dropClosing_concat {rest : List Char} (h : trimEnd header = rest ++ [')']) :
    dropClosing header = rest := by
  rw [dropClosing, h, reverse_concat]
  simp

theorem dropClosing_of_getLast? (h : (trimEnd header).getLast? ≠ some ')') :
    dropClosing header = header := by
  unfold dropClosing
  split
  · rename_i rest heq
    rw [← head?_reverse, heq] at h
    exact absurd rfl h
  · rfl

theorem trimEnd_cons {c : Char} (hc : isSpace c = false) (s : List Char) :
    trimEnd (c :: s) = c :: trimEnd s := by
  rw [trimEnd, trimEnd, reverse_cons, dropWhile_append]
  split
  · rename_i hnil
    rw [List.isEmpty_iff.mp hnil, dropWhile_cons_of_neg (by simp [hc])]
    rfl
  · rw [reverse_concat]

theorem head?_trim (h : (trim header).head? = some '(') : (trimStart header).head? = some '(' := by
  obtain ⟨rest, hrest⟩ := trimEnd_isPrefix (trimStart header)
  rw [← hrest, head?_append, ← trim, h]
  rfl

/-- What is left of a balanced header that has lost its parentheses is balanced if it had none at
its ends, or two that are partners. -/
theorem balanced_dropped_iff (h : Balanced header) :
    Balanced (dropClosing (dropOpening header)) ↔
      Wrapped (trim header) ∨
        (trimStart header).head? ≠ some '(' ∧ (trimEnd header).getLast? ≠ some ')' := by
  -- Of the four ways the ends can look, only two parentheses leave a choice. One parenthesis by
  -- itself is never dropped without harm.
  by_cases hopening : (trimStart header).head? = some '('
  · obtain ⟨rest, hrest⟩ := head?_eq_some_iff.mp hopening
    have htrim : trim header = '(' :: trimEnd rest := by
      rw [trim, hrest, trimEnd_cons rfl]
    have hbalanced : Balanced ('(' :: trimEnd rest) := by
      rwa [← htrim, trim, Balanced.trimEnd_iff, Balanced.trimStart_iff]
    rw [dropOpening_cons hrest, htrim, or_iff_left fun hnone => hnone.1 hopening]
    by_cases hclosing : (trimEnd rest).getLast? = some ')'
    · obtain ⟨inner, hinner⟩ := getLast?_eq_some_iff.mp hclosing
      rw [hinner] at hbalanced ⊢
      rw [dropClosing_concat hinner, balanced_inner_iff hbalanced]
    · rw [dropClosing_of_getLast? hclosing, ← Balanced.trimEnd_iff]
      refine iff_of_false (not_balanced_tail hbalanced) fun hwrapped => ?_
      have hlast := hwrapped.2.1
      rw [getLast?_cons] at hlast
      cases hend : (trimEnd rest).getLast? with
      | none => simp [hend] at hlast
      | some c => exact hclosing (by simpa [hend] using hlast)
  · have hwrapped : ¬Wrapped (trim header) := fun hwrapped => hopening (head?_trim hwrapped.1)
    rw [dropOpening_of_head? hopening, or_iff_right hwrapped, and_iff_right hopening]
    by_cases hclosing : (trimEnd header).getLast? = some ')'
    · obtain ⟨rest, hrest⟩ := getLast?_eq_some_iff.mp hclosing
      rw [← Balanced.trimEnd_iff, hrest] at h
      rw [dropClosing_concat hrest]
      exact iff_of_false (not_balanced_dropLast h) fun hne => hne hclosing
    · rw [dropClosing_of_getLast? hclosing]
      exact iff_of_true h hclosing

/-! ## Whole headers -/

/-- The header is cut outside its brackets, and it loses no parenthesis without its partner. The key
of the loop, if the header names none, is `key`. -/
inductive KeepsBrackets (header : List Char) (key : String) : Prop
  | cut {before after : List Char} (h : splitIn? header = some (before, after))
      (hin : Balanced before) (hcomma : Balanced (before.takeWhile (· != ',')))
      (hkey : (binding before).2 = none → Balanced key.toList)
  | wrapped (h : splitIn? header = none) (hwrapped : Wrapped (trim header))
  | bare (h : splitIn? header = none) (hfront : (trimStart header).head? ≠ some '(')
      (hend : (trimEnd header).getLast? ≠ some ')')

end LoopHeader

/-- The texts of a loop. -/
def Group.loopTexts : Group → List String
  | .each key value expr _ => [value, key, expr]
  | .loop header _ => [header]
  | _ => []

namespace Compile

open Brackets LoopHeader Runnable

theorem read_of_splitIn? {header : String} {before after : List Char}
    (h : splitIn? header.toList = some (before, after)) :
    LoopHeader.read header =
      .each (binding before).1 (binding before).2 (Text.trimmed after) := by
  rw [LoopHeader.read, h]

/-- The texts of a loop are balanced if its header is not cut in the wrong places. -/
theorem loopTexts_balanced_iff {header key : String} (h : Balanced header.toList) :
    (∀ t ∈ (loop key (.read header)).loopTexts, Balanced t.toList) ↔
      KeepsBrackets header.toList key := by
  -- Whether there is an `in` decides which of the constructors can hold, so the others are refuted
  -- by `hsplit`.
  cases hsplit : splitIn? header.toList with
  | none =>
    have hread : LoopHeader.read header =
        .plain (String.ofList (dropClosing (dropOpening header.toList))) := by
      rw [LoopHeader.read, hsplit]
    rw [hread, loop, Group.loopTexts, forall_mem_singleton, String.toList_ofList,
      balanced_dropped_iff h]
    constructor
    · rintro (hwrapped | ⟨hfront, hend⟩)
      · exact .wrapped hsplit hwrapped
      · exact .bare hsplit hfront hend
    · intro hkeeps
      cases hkeeps with
      | cut hcut => rw [hsplit] at hcut; cases hcut
      | wrapped _ hwrapped => exact .inl hwrapped
      | bare _ hfront hend => exact .inr ⟨hfront, hend⟩
  | some cut =>
    obtain ⟨before, after⟩ := cut
    rw [read_of_splitIn? hsplit, loop, Group.loopTexts, forall_mem_cons, forall_mem_cons,
      forall_mem_singleton, binding_fst, balanced_trimmed_iff, balanced_trimmed_iff,
      ← balanced_before_iff h hsplit]
    constructor
    · rintro ⟨hvalue, hkey, hbefore⟩
      refine .cut hsplit hbefore hvalue fun hnone => ?_
      rwa [hnone, Option.getD_none] at hkey
    · intro hkeeps
      cases hkeeps with
      | wrapped hnone | bare hnone => rw [hsplit] at hnone; cases hnone
      | cut hcut hin hcomma hkey =>
        cases hsplit.symm.trans hcut
        refine ⟨hcomma, ?_, hin⟩
        cases hnamed : (binding before).2 with
        | none => exact hkey hnamed
        | some k => exact balanced_binding_snd hin hcomma k hnamed

/-- What is visited of a loop whose header has balanced brackets: its value, its key and its
expression are balanced exactly if the header is cut outside of brackets, and its expression, where
there is nothing else, exactly if no parenthesis is dropped without its partner. -/
theorem visit_each_brackets {m : Type → Type} [Monad m] [MonadExceptOf CompileError m] [Runnable m]
    [LawfulMonad m] (o : Options) (embed : Embed m) (host : Option Host) {header key : String}
    {body : Option Block} {p : Place} {v : Visited} {s s' : State m}
    (hheader : Balanced header.toList)
    (h : run (visit o embed host (.lead (.each header key) body p)) s = (.ok v, s')) :
    ∃ children, v = .one (.group (loop key (.read header)) children (.ofPlace p)) ∧
      ((∀ t ∈ (loop key (.read header)).loopTexts, Balanced t.toList) ↔
        KeepsBrackets header.toList key) := by
  rw [visit_lead_eq] at h
  obtain ⟨shell, s₁, hshell, hrest⟩ := run_bind_eq_ok_iff.mp h
  rw [run_ofExcept] at hshell
  cases hshell
  obtain ⟨children, s₂, -, hpure⟩ := run_bind_eq_ok_iff.mp hrest
  obtain ⟨rfl, -⟩ := run_pure_eq_ok_iff.mp hpure
  exact ⟨children, rfl, loopTexts_balanced_iff hheader⟩

/-- A loop that holds nothing. -/
theorem visit_each_of_read {o : Options} {embed : Embed (Except CompileError)} {header key : String}
    {read : LoopHeader} (h : LoopHeader.read header = read) (p : Place) :
    visit o embed none (.lead (.each header key) none p) =
      .ok (.one (.group (loop key read) [] (.ofPlace p))) := by
  subst h
  rfl

/-- Calls in the header of a loop with parentheses around it. -/
theorem visit_each_brackets_calls :
    let p : Place := ⟨1, none⟩
    let header := "(x = f(a[0]); x; x = next(x))"
    let inner := "x = f(a[0]); x; x = next(x)"
    let embed : Embed (Except CompileError) := embedded {} FrontEnd.bundled 1
    Balanced header.toList ∧
      run (visit {} embed none (.lead (.each header "$index") none p)) () =
        (.ok (.one (.group (.loop inner true) [] (.ofPlace p))), ()) ∧
      Balanced inner.toList ∧ KeepsBrackets header.toList "$index" := by
  intro p header inner embed
  have hheader : Balanced header.toList := by decide
  have hinner : Balanced inner.toList := by decide
  have hread : LoopHeader.read header = .plain inner := by decide
  have hrun : run (visit {} embed none (.lead (.each header "$index") none p)) () =
      (.ok (.one (.group (.loop inner true) [] (.ofPlace p))), ()) :=
    congrArg (·, ()) (visit_each_of_read hread p)
  refine ⟨hheader, hrun, hinner, ?_⟩
  obtain ⟨children, -, hkeeps⟩ := visit_each_brackets {} embed none hheader hrun
  rw [hread] at hkeeps
  exact hkeeps.mp (forall_mem_singleton.mpr hinner)

/-- A call at the end of a header loses its parenthesis, a pattern is cut at its comma, and
parentheses around a header are cut at its `in`. -/
theorem visit_each_torn :
    let p : Place := ⟨1, none⟩
    let visited (header : String) : Except CompileError Visited :=
      visit {} (embedded {} FrontEnd.bundled 1) none (.lead (.each header "$index") none p)
    (Balanced "x of f(y)".toList ∧ ¬Balanced "x of f(y".toList ∧
      visited "x of f(y)" = .ok (.one (.group (.loop "x of f(y" true) [] (.ofPlace p)))) ∧
    (Balanced "[a, b] in c".toList ∧ ¬Balanced "[a".toList ∧
      visited "[a, b] in c" = .ok (.one (.group (.each "b]" "[a" "c" true) [] (.ofPlace p)))) ∧
    (Balanced "(x in xs)".toList ∧ ¬Balanced "(x".toList ∧
      visited "(x in xs)" =
        .ok (.one (.group (.each "$index" "(x" "xs)" true) [] (.ofPlace p)))) := by
  intro p visited
  have hcall : LoopHeader.read "x of f(y)" = .plain "x of f(y" := by decide
  have hpattern : LoopHeader.read "[a, b] in c" = .each "[a" (some "b]") "c" := by decide
  have hparentheses : LoopHeader.read "(x in xs)" = .each "(x" none "xs)" := by decide
  exact ⟨⟨by decide, by decide, visit_each_of_read hcall p⟩,
    ⟨by decide, by decide, visit_each_of_read hpattern p⟩,
    ⟨by decide, by decide, visit_each_of_read hparentheses p⟩⟩

end Compile

end Offside
