import Mathlib.Data.List.Forall2
import Offside.Compile.FrontEnd
import Offside.Proofs.Template.Tree

/-!
# Compilations with effects

A front end need not be a function: it may keep a state, answer differently from one call to the
next, or take its answers from elsewhere. The visit runs in any monad with compile errors for that
reason. What can be said about all of its results is said here in terms of one relation, that a
computation yields a result, of which only the ways it can come about are known (`Observable`).

Where a result is to be shown and not only taken apart, it has to be known how a computation runs:
from a state to an outcome and a state (`Runnable`).

Two computations are compared by what they do but for a change of their errors (`SameUpTo`). In the
monads at hand such a change leaves everything else alone, above all the state (`LawfulErrors`).

The monads that compilations run in are instances: errors alone, and errors on top of a state of
any type.
-/

set_option autoImplicit false

namespace Offside

/-- Monads with compile errors whose computations can be asked for their results. -/
class Observable (m : Type → Type) [Monad m] [MonadExceptOf CompileError m] where
  /-- The computation has this result, in some state of whatever it depends on. -/
  Yields {α : Type} : m α → α → Prop
  eq_of_yields_pure {α : Type} {a b : α} : Yields (pure a) b → b = a
  exists_of_yields_bind {α β : Type} {x : m α} {k : α → m β} {b : β} :
    Yields (x >>= k) b → ∃ a, Yields x a ∧ Yields (k a) b
  not_yields_throw {α : Type} (e : CompileError) (a : α) : ¬Yields (throw e) a
  of_yields_tryCatch {α : Type} {x : m α} {handler : CompileError → m α} {a : α} :
    Yields (tryCatchThe CompileError x handler) a → Yields x a ∨ ∃ e, Yields (handler e) a

instance : Observable (Except CompileError) where
  Yields x a := x = .ok a
  eq_of_yields_pure h := (Except.ok.inj h).symm
  exists_of_yields_bind {α β x k b} h := by
    cases x with
    | ok a => exact ⟨a, rfl, h⟩
    | error e => cases h
  not_yields_throw e a h := by cases h
  of_yields_tryCatch {α x handler a} h := by
    cases x with
    | ok b => exact .inl h
    | error e => exact .inr ⟨e, h⟩

instance (σ : Type) : Observable (ExceptT CompileError (StateM σ)) where
  Yields x a := ∃ s s', x.run.run s = (.ok a, s')
  eq_of_yields_pure := by
    rintro α a b ⟨s, s', h⟩
    cases h
    rfl
  exists_of_yields_bind := by
    rintro α β x k b ⟨s, s', h⟩
    rw [ExceptT.run_bind, StateT.run_bind] at h
    cases hx : x.run.run s with
    | mk outcome s₁ =>
      rw [hx] at h
      cases outcome with
      | ok a => exact ⟨a, ⟨s, s₁, hx⟩, s₁, s', h⟩
      | error e => cases h
  not_yields_throw := by
    rintro α e a ⟨s, s', h⟩
    cases h
  of_yields_tryCatch := by
    rintro α x handler a ⟨s, s', h⟩
    change (tryCatch x handler).run.run s = _ at h
    rw [ExceptT.run_tryCatch, StateT.run_bind] at h
    cases hx : x.run.run s with
    | mk outcome s₁ =>
      rw [hx] at h
      cases outcome with
      | ok b =>
        cases h
        exact .inl ⟨s, s₁, hx⟩
      | error e => exact .inr ⟨e, s₁, s', h⟩

namespace Observable

section

variable {m : Type → Type} [Monad m] [MonadExceptOf CompileError m] [Observable m] {α β : Type}

/-- An outcome that is lifted yields its result, if it has one. -/
theorem eq_ok_of_yields_ofExcept {x : Except CompileError α} {a : α}
    (h : Yields (ofExcept x : m α) a) : x = .ok a := by
  cases x with
  | ok b => exact congrArg Except.ok (eq_of_yields_pure h).symm
  | error e => exact (not_yields_throw e a h).elim

variable [LawfulMonad m]

theorem exists_of_yields_map {f : α → β} {x : m α} {b : β} (h : Yields (f <$> x) b) :
    ∃ a, Yields x a ∧ b = f a := by
  rw [← bind_pure_comp] at h
  obtain ⟨a, ha, h⟩ := exists_of_yields_bind h
  exact ⟨a, ha, eq_of_yields_pure h⟩

/-- Each result of going through a list is that of an element. -/
theorem exists_of_yields_mapM {f : α → m β} {xs : List α} {ys : List β}
    (h : Yields (xs.mapM f) ys) : ∀ y ∈ ys, ∃ x ∈ xs, Yields (f x) y := by
  induction xs generalizing ys with
  | nil =>
    rw [List.mapM_nil] at h
    simp [eq_of_yields_pure h]
  | cons x rest ih =>
    rw [List.mapM_cons] at h
    obtain ⟨y, hy, h⟩ := exists_of_yields_bind h
    obtain ⟨others, hothers, h⟩ := exists_of_yields_bind h
    rw [eq_of_yields_pure h]
    refine List.forall_mem_cons.mpr ⟨⟨x, List.mem_cons_self, hy⟩, fun y' hy' => ?_⟩
    obtain ⟨x', hx', hyields⟩ := ih hothers y' hy'
    exact ⟨x', List.mem_cons_of_mem _ hx', hyields⟩

end

end Observable

/-! ## Runs -/

/-- Monads with compile errors whose computations run from a state to an outcome and a state. -/
class Runnable (m : Type → Type) [Monad m] [MonadExceptOf CompileError m] where
  /-- What a computation depends on, and may change. -/
  State : Type
  run {α : Type} : m α → State → Except CompileError α × State
  run_pure {α : Type} (a : α) (s : State) : run (pure a) s = (.ok a, s)
  run_throw {α : Type} (e : CompileError) (s : State) : run (throw e : m α) s = (.error e, s)
  run_bind_of_ok {α β : Type} {x : m α} {k : α → m β} {a : α} {s s' : State} :
    run x s = (.ok a, s') → run (x >>= k) s = run (k a) s'
  run_bind_of_error {α β : Type} {x : m α} {k : α → m β} {e : CompileError} {s s' : State} :
    run x s = (.error e, s') → run (x >>= k) s = (.error e, s')

instance : Runnable (Except CompileError) where
  State := Unit
  run x s := (x, s)
  run_pure a s := rfl
  run_throw e s := rfl
  run_bind_of_ok {α β x k a s s'} h := by
    cases h
    rfl
  run_bind_of_error {α β x k e s s'} h := by
    cases h
    rfl

instance (σ : Type) : Runnable (ExceptT CompileError (StateM σ)) where
  State := σ
  run x s := x.run.run s
  run_pure a s := rfl
  run_throw e s := rfl
  run_bind_of_ok h := by
    rw [ExceptT.run_bind, StateT.run_bind, h]
    rfl
  run_bind_of_error h := by
    rw [ExceptT.run_bind, StateT.run_bind, h]
    rfl

namespace Runnable

variable {m : Type → Type} [Monad m] [MonadExceptOf CompileError m] [Runnable m] {α β : Type}
  {s s' : State m}

theorem run_pure_eq_ok_iff {a b : α} : run (pure a : m α) s = (.ok b, s') ↔ b = a ∧ s' = s := by
  rw [run_pure, Prod.mk.injEq, Except.ok.injEq, eq_comm, @eq_comm _ s]

theorem run_pure_ne_error {a : α} {e : CompileError} : run (pure a : m α) s ≠ (.error e, s') := by
  rw [run_pure]
  simp

/-- A computation that goes on has a result if both of its parts have one. -/
theorem run_bind_eq_ok_iff {x : m α} {k : α → m β} {b : β} :
    run (x >>= k) s = (.ok b, s') ↔
      ∃ a s₁, run x s = (.ok a, s₁) ∧ run (k a) s₁ = (.ok b, s') := by
  cases hx : run x s with
  | mk outcome s₁ =>
    cases outcome with
    | ok a => simp [run_bind_of_ok hx]
    | error e => simp [run_bind_of_error hx]

/-- It fails if its first part fails, or if its second part fails behind the first. -/
theorem run_bind_eq_error_iff {x : m α} {k : α → m β} {e : CompileError} :
    run (x >>= k) s = (.error e, s') ↔
      run x s = (.error e, s') ∨
        ∃ a s₁, run x s = (.ok a, s₁) ∧ run (k a) s₁ = (.error e, s') := by
  cases hx : run x s with
  | mk outcome s₁ =>
    cases outcome with
    | ok a => simp [run_bind_of_ok hx]
    | error e => simp [run_bind_of_error hx]

/-- An outcome that is lifted leaves the state alone. -/
theorem run_ofExcept (x : Except CompileError α) : run (ofExcept x : m α) s = (x, s) := by
  cases x with
  | ok a => exact run_pure a s
  | error e => exact run_throw e s

end Runnable

/-! ## Errors changed on the way out -/

/-- The computation with its error, if it fails, changed by `g`. -/
def rethrow {m : Type → Type} [Monad m] [MonadExceptOf CompileError m] {α : Type}
    (g : CompileError → CompileError) (x : m α) : m α :=
  tryCatchThe CompileError x fun e => throw (g e)

/-- Monads with compile errors in which changing the error is all that `rethrow` does. -/
class LawfulErrors (m : Type → Type) [Monad m] [MonadExceptOf CompileError m] : Prop
    extends LawfulMonad m where
  rethrow_pure {α : Type} (g : CompileError → CompileError) (a : α) :
    rethrow g (pure a : m α) = pure a
  rethrow_throw {α : Type} (g : CompileError → CompileError) (e : CompileError) :
    rethrow g (throw e : m α) = throw (g e)
  rethrow_bind {α β : Type} (g : CompileError → CompileError) (x : m α) (k : α → m β) :
    rethrow g (x >>= k) = rethrow g x >>= fun a => rethrow g (k a)

theorem rethrow_eq_mapBoth {α : Type} (g : CompileError → CompileError)
    (x : Except CompileError α) : rethrow g x = mapBoth g id x := by
  cases x <;> rfl

/-- Only the error is changed, not the state that the computation leaves. -/
theorem run_rethrow {σ α : Type} (g : CompileError → CompileError)
    (x : ExceptT CompileError (StateM σ) α) (s : σ) :
    (rethrow g x).run.run s = Prod.map (mapBoth g id) id (x.run.run s) := by
  change (tryCatch x _).run.run s = _
  rw [ExceptT.run_tryCatch, StateT.run_bind]
  cases x.run.run s with
  | mk outcome s' => cases outcome <;> rfl

instance : LawfulErrors (Except CompileError) where
  rethrow_pure g a := rfl
  rethrow_throw g e := rfl
  rethrow_bind g x k := by cases x <;> rfl

instance (σ : Type) : LawfulErrors (ExceptT CompileError (StateM σ)) where
  rethrow_pure g a := rfl
  rethrow_throw g e := rfl
  rethrow_bind g x k := by
    refine ExceptT.ext (StateT.ext fun s => ?_)
    rw [run_rethrow, ExceptT.run_bind, ExceptT.run_bind, StateT.run_bind, StateT.run_bind,
      run_rethrow]
    cases x.run.run s with
    | mk outcome s₁ =>
      cases outcome with
      | error e => rfl
      | ok a => exact (run_rethrow g (k a) s₁).symm

section

variable {m : Type → Type} [Monad m] [MonadExceptOf CompileError m] {α β γ : Type}
  {g : CompileError → CompileError}

/-- The computations do the same, but for what `g` does not tell apart in their errors. -/
def SameUpTo (g : CompileError → CompileError) (x y : m α) : Prop :=
  rethrow g x = rethrow g y

namespace SameUpTo

theorem refl (x : m α) : SameUpTo g x x :=
  rfl

theorem of_eq {x y : m α} (h : x = y) : SameUpTo g x y :=
  congrArg (rethrow g) h

theorem trans {x y z : m α} (h : SameUpTo g x y) (h' : SameUpTo g y z) : SameUpTo g x z :=
  Eq.trans h h'

variable [LawfulErrors m]

theorem bind {x y : m α} {k l : α → m β} (h : SameUpTo g x y) (hk : ∀ a, SameUpTo g (k a) (l a)) :
    SameUpTo g (x >>= k) (y >>= l) := by
  rw [SameUpTo, LawfulErrors.rethrow_bind, LawfulErrors.rethrow_bind, h]
  exact congrArg (rethrow g y >>= ·) (funext hk)

theorem map {x y : m α} (f : α → β) (h : SameUpTo g x y) : SameUpTo g (f <$> x) (f <$> y) := by
  rw [← bind_pure_comp, ← bind_pure_comp]
  exact h.bind fun a => .refl _

/-- Going through two lists in step does the same if every two elements in step do. -/
theorem mapM {f : α → m γ} {f' : β → m γ} {xs : List α} {ys : List β}
    (h : List.Forall₂ (fun a b => SameUpTo g (f a) (f' b)) xs ys) :
    SameUpTo g (xs.mapM f) (ys.mapM f') := by
  induction h with
  | nil => exact .of_eq (by simp)
  | cons hab _ ih =>
    rw [List.mapM_cons, List.mapM_cons]
    exact hab.bind fun c => ih.bind fun cs => .refl _

/-- Outcomes that are lifted do the same if they are the same but for their errors. -/
theorem lift {x y : Except CompileError α} (h : mapBoth g id x = mapBoth g id y) :
    SameUpTo g (ofExcept x : m α) (ofExcept y) := by
  -- Changing the error of what is lifted is lifting it with its error changed.
  have hlift (x : Except CompileError α) :
      rethrow g (ofExcept x : m α) = ofExcept (mapBoth g id x) := by
    cases x with
    | ok a => exact LawfulErrors.rethrow_pure g a
    | error e => exact LawfulErrors.rethrow_throw g e
  rw [SameUpTo, hlift, hlift, h]

end SameUpTo

end

end Offside
