import FlatClosure.Syntax.Fold

/-!
# One traversal in two monads

A rebuilding traversal uses its monad for nothing but to put steps one after the other.  So if two
folders, each in a monad of its own, take related steps at every node, and the relation passes to
steps one after the other, then they take related steps along every tree.

* `FoldLaw.fold`, `FoldLaw.foldList` : along expressions.
* `FoldLaw.foldBlock` : **along statements.**
-/

namespace FlatClosure

variable {m n : Type → Type} [Monad m] [MonadFinally m] [Monad n] [MonadFinally n]

/-- The relation passes to steps one after the other, and the folders take related steps. -/
structure FoldLaw (R : ∀ {α : Type}, m α → n α → Prop) (F : Folder m) (G : Folder n) : Prop where
  pure : ∀ {α : Type} (a : α), R (pure a) (pure a)
  bind : ∀ {α β : Type} {x : m α} {y : n α} {f : α → m β} {g : α → n β},
    R x y → (∀ a, R (f a) (g a)) → R (x >>= f) (y >>= g)
  stmt : ∀ s, R (F.stmt s) (G.stmt s)
  expr : ∀ e, R (F.expr e) (G.expr e)
  write : ∀ x, R (F.write x) (G.write x)
  within : ∀ xs {α : Type} {x : m α} {y : n α}, R x y → R (F.within xs x) (G.within xs y)

namespace FoldLaw

variable {R : ∀ {α : Type}, m α → n α → Prop} {F : Folder m} {G : Folder n}

theorem replaceOr (h : FoldLaw R F G) {α : Type} {x : m (Option α)} {y : n (Option α)} {x' : m α}
    {y' : n α} (first : R x y) (rebuilt : R x' y') : R (replaceOr x x') (replaceOr y y') := by
  refine h.bind first fun replacement => ?_
  cases replacement with
  | none => exact rebuilt
  | some a => exact h.pure a

theorem map (h : FoldLaw R F G) {α β : Type} {x : m α} {y : n α} (f : α → β) (hx : R x y) :
    R (x >>= fun a => Pure.pure (f a)) (y >>= fun a => Pure.pure (f a)) :=
  h.bind hx fun a => h.pure (f a)

/-! ### Expressions -/

mutual

theorem fold (h : FoldLaw R F G) (e : Expr) : R (e.fold F) (e.fold G) := by
  cases e with
  | literal | id | construct => exact h.replaceOr (h.expr _) (h.pure _)
  | unary _ a | builtin1 _ a | field a _ => exact h.replaceOr (h.expr _) (h.map _ (h.fold a))
  | binary _ l r | builtin2 _ l r | index l r =>
    exact h.replaceOr (h.expr _) (h.bind (h.fold l) fun _ => h.map _ (h.fold r))
  | call f args | methodCall f _ args =>
    exact h.replaceOr (h.expr _) (h.bind (h.fold f) fun _ => h.map _ (h.foldList args))
  | list es | set es | tuple es => exact h.replaceOr (h.expr _) (h.map _ (h.foldList es))
  | comprehension k e x it c =>
    have scope : R (F.within [x] do
        let e ← e.fold F
        let c ← Expr.foldOption F c
        return (e, c)) (G.within [x] do
        let e ← e.fold G
        let c ← Expr.foldOption G c
        return (e, c)) :=
      h.within [x] (h.bind (h.fold e) fun _ => h.map _ (h.foldOption c))
    exact h.replaceOr (h.expr _) (h.bind (h.fold it) fun it =>
      h.map (fun ec => Expr.comprehension k ec.1 x it ec.2) scope)
  | ifElse c t e =>
    exact h.replaceOr (h.expr _)
      (h.bind (h.fold c) fun _ => h.bind (h.fold t) fun _ => h.map _ (h.fold e))
  | lambda ps _ b _ => exact h.replaceOr (h.expr _) (h.map _ (h.within _ (h.fold b)))

theorem foldList (h : FoldLaw R F G) (es : List Expr) :
    R (Expr.foldList F es) (Expr.foldList G es) := by
  cases es with
  | nil => exact h.pure _
  | cons e es => exact h.bind (h.fold e) fun _ => h.map _ (h.foldList es)

theorem foldOption (h : FoldLaw R F G) (c : Option Expr) :
    R (Expr.foldOption F c) (Expr.foldOption G c) := by
  cases c with
  | none => exact h.pure _
  | some e => exact h.map _ (h.fold e)

end

/-! ### Statements -/

theorem foldTarget (h : FoldLaw R F G) (t : Target) : R (t.fold F) (t.fold G) := by
  cases t with
  | id x => exact h.map _ (h.write x)
  | field o _ => exact h.map _ (h.fold o)
  | index o i => exact h.bind (h.fold o) fun _ => h.map _ (h.fold i)
  | ignore => exact h.pure _

theorem foldSlots (h : FoldLaw R F G) (slots : List Slot) :
    R (Slot.foldList F slots) (Slot.foldList G slots) := by
  induction slots with
  | nil => exact h.pure _
  | cons s ss ih => exact h.bind (h.foldTarget s.target) fun _ => h.map _ ih

mutual

theorem foldStmt (h : FoldLaw R F G) (s : Stmt) : R (s.fold F) (s.fold G) := by
  cases s with
  | assign x v =>
    exact h.replaceOr (h.stmt _) (h.bind (h.fold v) fun _ => h.map _ (h.write x))
  | unpack slots v =>
    exact h.replaceOr (h.stmt _) (h.bind (h.fold v) fun _ => h.map _ (h.foldSlots slots))
  | ret v => exact h.replaceOr (h.stmt _) (h.map _ (h.foldOption v))
  | expr e => exact h.replaceOr (h.stmt _) (h.map _ (h.fold e))
  | setField o _ v => exact h.replaceOr (h.stmt _) (h.bind (h.fold o) fun _ => h.map _ (h.fold v))
  | setIndex o i v =>
    exact h.replaceOr (h.stmt _)
      (h.bind (h.fold o) fun _ => h.bind (h.fold i) fun _ => h.map _ (h.fold v))
  | ifElse c thn els =>
    exact h.replaceOr (h.stmt _)
      (h.bind (h.fold c) fun _ => h.bind (h.foldBlock thn) fun _ => h.map _ (h.foldBlock els))
  | whileLoop c body =>
    exact h.replaceOr (h.stmt _) (h.bind (h.fold c) fun _ => h.map _ (h.foldBlock body))
  | forEach x it body els =>
    exact h.replaceOr (h.stmt _) (h.bind (h.fold it) fun _ => h.bind (h.write x) fun _ =>
      h.bind (h.foldBlock body) fun _ => h.map _ (h.foldElse els))
  | pass | nonlocal | global | breakLoop | continueLoop =>
    exact h.replaceOr (h.stmt _) (h.pure _)
  | closure f =>
    obtain ⟨name, params, ret, inits, body, span⟩ := f
    have inner : R (FunDef.fold F ⟨name, params, ret, inits, body, span⟩)
        (FunDef.fold G ⟨name, params, ret, inits, body, span⟩) := h.map _ (h.foldBlock body)
    exact h.replaceOr (h.stmt _) (h.map _ inner)

/-- Two folders that take related steps take related steps along a block. -/
theorem foldBlock (h : FoldLaw R F G) (ss : List Stmt) :
    R (Stmt.foldList F ss) (Stmt.foldList G ss) := by
  cases ss with
  | nil => exact h.pure _
  | cons s ss => exact h.bind (h.foldStmt s) fun _ => h.map _ (h.foldBlock ss)

theorem foldElse (h : FoldLaw R F G) (els : Option (List Stmt)) :
    R (Stmt.foldOption F els) (Stmt.foldOption G els) := by
  cases els with
  | none => exact h.pure _
  | some ss => exact h.map _ (h.foldBlock ss)

end

end FoldLaw

end FlatClosure
