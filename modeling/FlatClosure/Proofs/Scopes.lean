import FlatClosure.Proofs.Machine
import FlatClosure.Syntax.Visit

/-!
# Scopes on a traversal

`Scoping.within` enters the variables of a scope, goes through what stands in it and leaves them
again.

* `Scoping.Keeps.run_within` : **the variables are left whatever comes of the traversal inside**, in
  the state in which it ends or fails, and the answer stays.
* `Scoping.Silent.within_eq` : a traversal that does nothing where scopes begin and end does not
  notice them.
-/

namespace FlatClosure

variable {ε σ α : Type}

/-! ### Traversals that keep track of scopes -/

/-- What comes last is done in the state in which the step ends or fails. -/
theorem run_tryFinally (x : ExceptT ε (StateM σ) α) {last : ExceptT ε (StateM σ) Unit} {s t : σ}
    (h : last.run (x.run s).2 = (.ok (), t)) : (tryFinally x last).run s = ((x.run s).1, t) := by
  have left : last (x s).2 = (.ok (), t) := h
  change tryFinally x last s = ((x s).1, t)
  rcases hx : x s with ⟨_ | a, u⟩ <;> rw [hx] at left
  all_goals
    simp only [tryFinally, tryFinally', ExceptT.mk, hx, left, Functor.map, ExceptT.map, bind,
      StateT.bind]
    rfl

theorem run_forM {f : String → ExceptT ε (StateM σ) Unit} {step : String → σ → σ}
    (h : ∀ x s, (f x).run s = (.ok (), step x s)) (xs : List String) (s : σ) :
    (forM xs f).run s = (.ok (), xs.foldl (fun s x => step x s) s) := by
  induction xs generalizing s with
  | nil => rfl
  | cons x xs ih =>
    rw [List.forM_cons, run_bind, h]
    exact ih (step x s)

/-- The state changes by `push` where the scope of a variable begins, and by `pop` where it ends. -/
structure Scoping.Keeps (S : Scoping (ExceptT ε (StateM σ))) (push pop : String → σ → σ) :
    Prop where
  enter : ∀ x s, (S.enter x).run s = (.ok (), push x s)
  exit : ∀ x s, (S.exit x).run s = (.ok (), pop x s)

/-- The variables of a scope are left whatever comes of the traversal inside. -/
theorem Scoping.Keeps.run_within {S : Scoping (ExceptT ε (StateM σ))} {push pop : String → σ → σ}
    (h : S.Keeps push pop) (xs : List String) (act : ExceptT ε (StateM σ) α) (s : σ) :
    (S.within xs act).run s =
      ((act.run (xs.foldl (fun s x => push x s) s)).1,
        xs.reverse.foldl (fun s x => pop x s)
          (act.run (xs.foldl (fun s x => push x s) s)).2) := by
  rw [Scoping.within, run_bind, run_forM h.enter]
  exact run_tryFinally act (run_forM h.exit _ _)

/-! ### Traversals that do not -/

theorem tryFinally_except (x : Except ε α) : tryFinally x (pure ()) = x := by
  cases x <;> rfl

theorem tryFinally_stateT (x : StateT σ (Except ε) α) : tryFinally x (pure ()) = x := by
  funext s
  cases h : x s
  all_goals
    simp only [tryFinally, tryFinally', h, Functor.map, StateT.map]
    rfl

theorem tryFinally_exceptT (x : ExceptT ε (StateM σ) α) : tryFinally x (pure ()) = x := by
  funext s
  exact run_tryFinally x rfl

variable {m : Type → Type} [Monad m]

/-- Nothing is done where scopes begin and end. -/
structure Scoping.Silent (S : Scoping m) : Prop where
  enter : ∀ x, S.enter x = pure ()
  exit : ∀ x, S.exit x = pure ()

/-- A traversal that does nothing where scopes begin and end does not notice them. -/
theorem Scoping.Silent.within_eq [LawfulMonad m] [MonadFinally m] {S : Scoping m} (h : S.Silent)
    (xs : List String) {act : m α} (last : tryFinally act (pure ()) = act) :
    S.within xs act = act := by
  have silent {f : String → m Unit} (hf : ∀ x, f x = pure ()) (ys : List String) :
      forM ys f = pure () := by
    induction ys with
    | nil => rfl
    | cons y ys ih => rw [List.forM_cons, hf, pure_bind, ih]
  rw [Scoping.within, silent h.enter, silent h.exit, pure_bind, last]

end FlatClosure
