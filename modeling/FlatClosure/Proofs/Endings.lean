import FlatClosure.Proofs.Depth

/-!
# What a point leaves

A point leaves a state behind when the evaluator is done with it, whether it succeeded or not.  A
relation that code never breaks relates this state to the one that is left by the point that led
there, and so on to the state that all requests leave.

* `Lasting` : the relation holds along all code.
* `Starts.after` : from a point back to the one that led to it.
* `Visited.lasts` : **what is related to all that comes after it at each step is related to what
  the requests leave.**
-/

namespace FlatClosure

variable {α β : Type} {R : Machine → Machine → Prop}

/-- The relation holds along all code, also where a comprehension variable comes and goes, and where
calls are opened and closed. -/
structure Lasting (k : Calls) (R : Machine → Machine → Prop) : Prop where
  law : ExecLaw k.ctx.program (fun _ => True) (Along R) (Along R)
  trans : ∀ ⦃s t u⦄, R s t → R t u → R s u
  calls : k.Have (Along R)
  shadow : ∀ x v, Along R (modify (·.shadow x v))
  restore : ∀ x old, Along R (modify (·.restore x old))
  frames : ∀ s fs, R s (Machine.withFrames s fs)

/-- The state that the evaluator leaves when it is done with what it started on at a point. -/
def Point.after (k : Calls) (a : Point) : Machine := ((a.job.perform k).run a.state).2

namespace Lasting

variable {k : Calls} (h : Lasting k R)

include h

theorem refl (s : Machine) : R s s := h.law.block.pure () s

theorem eval (e : Expr) : Along R (e.eval k) := h.law.evalExpr h.calls e fun _ _ => trivial

theorem evalList (es : List Expr) : Along R (Expr.evalList k es) :=
  h.law.eval.evalList h.calls es fun _ _ => trivial

theorem holds (c : Option Expr) : Along R (Expr.holds k c) :=
  h.law.eval.holds h.calls c fun _ _ => trivial

theorem block (ss : List Stmt) : Along R (Stmt.execList k ss) :=
  h.law.execList h.calls ss fun _ _ => trivial

theorem rounds (c : Expr) (body : List Stmt) (n : Nat) :
    Along R (loopWhile (Expr.holds k (some c)) (Stmt.execList k body) n) :=
  h.law.block.loopWhile (h.holds (some c)) (h.block body) n

theorem assign (t : Target) (v : Value) : Along R (t.assign k v) := by
  have any : ∀ m ∈ t.collect effects (.literal .none), True := fun _ _ => trivial
  exact h.law.assign h.calls v t any

theorem assignSlots (starOpen : Bool) (slots : List Slot) (items : List Value) :
    Along R (assignSlots k starOpen slots items) := by
  have any : ∀ m ∈ Slot.collectList effects (.literal .none) slots, True := fun _ _ => trivial
  exact h.law.assignSlots h.calls starOpen slots items any

theorem comprehend (c : Option Expr) (e : Expr) : Along R (comprehend k c e) :=
  h.law.eval.comprehend (h.holds c) (h.eval e)

theorem newSet (vs : List Value) : Along R (do newList (Value.dedup (← get).heap vs)) :=
  h.law.block.look (fun _ _ h => by simp only [h.heap]) fun _ => h.law.block.quiet (.newList _)

theorem truth (v : Value) : Along R (do return v.truthy (← get).heap) :=
  h.law.block.look (fun _ _ h => by simp only [h.heap]) fun _ => h.law.block.pure _

theorem gather (x : String) {step : EvalM (Option Value)} (hs : Along R step)
    (items : List Value) : Along R (gather x step items) :=
  h.law.block.gather (h.shadow x) hs items

/-- What follows a loop, or a round of one. -/
theorem flow (flow : Flow) {left : Flow} {x : EvalM Flow} (hx : Along R x) :
    Along R (match flow with
      | .breakLoop => (pure left : EvalM Flow)
      | .ret v => pure (.ret v)
      | _ => x) := by
  cases flow with
  | breakLoop | ret => exact h.law.block.pure _
  | normal | continueLoop => exact hx

/-! ### Parts -/

/-- What is related to the state after the first part is related to the state after both. -/
theorem bind {s t : Machine} {x : EvalM α} {f : α → EvalM β} (hx : R t (x.run s).2)
    (hf : ∀ a, Along R (f a)) : R t ((x >>= f).run s).2 := by
  rw [run_bind]
  rcases hr : x.run s with ⟨e | a, u⟩ <;> rw [hr] at hx
  · exact hx
  · exact h.trans hx (hf a u)

theorem of_run_eq {s t : Machine} {x y : EvalM α} (same : x.run s = y.run t) :
    R (y.run t).2 (x.run s).2 := same ▸ h.refl _

/-- An operand is evaluated before the others and before what is done with them. -/
theorem operand {e : Expr} {es : List Expr} {f : Value → EvalM β}
    (hf : ∀ v t, R ((Expr.evalList k es).run t).2 ((f v).run t).2) (s : Machine) :
    R ((Expr.evalList k (e :: es)).run s).2 ((e.eval k >>= f).run s).2 := by
  rw [Expr.evalList, run_bind, run_bind]
  rcases (e.eval k).run s with ⟨_ | v, t⟩
  · exact h.refl t
  · have rest : ((Expr.evalList k es >>= fun vs => pure (v :: vs) : EvalM _).run t).2 =
        ((Expr.evalList k es).run t).2 := by
      rw [run_bind]
      rcases (Expr.evalList k es).run t with ⟨_ | _, _⟩ <;> rfl
    change R ((Expr.evalList k es >>= fun vs => pure (v :: vs) : EvalM _).run t).2 _
    exact rest ▸ hf v t

theorem one {e : Expr} {f : Value → EvalM α} (hf : ∀ v, Along R (f v)) (s : Machine) :
    R ((Expr.evalList k [e]).run s).2 ((e.eval k >>= f).run s).2 := by
  have last (v : Value) (t : Machine) : R ((Expr.evalList k []).run t).2 ((f v).run t).2 := hf v t
  exact h.operand last s

theorem two {e e' : Expr} {f : Value → Value → EvalM α} (hf : ∀ v w, Along R (f v w))
    (s : Machine) :
    R ((Expr.evalList k [e, e']).run s).2 ((e.eval k >>= fun v => e'.eval k >>= f v).run s).2 :=
  h.operand (fun v t => h.one (hf v) t) s

theorem exprOperands (e : Expr) (s : Machine) :
    R ((Expr.evalList k e.operands).run s).2 ((e.eval k).run s).2 := by
  have step := h.law.block
  cases e with
  | literal | id | call | construct | lambda => exact h.eval _ s
  | unary op a => exact h.one (fun _ => step.quiet (.applyUnary _ _)) s
  | builtin1 name a => exact h.one (fun _ => step.quiet (.applyBuiltin1 _ _)) s
  | field o x => exact h.one (fun _ => step.quiet (.getField _ _)) s
  | binary op l r =>
    cases op with
    | and => exact h.one (fun _ => step.branch (h.eval r) (step.pure _)) s
    | or => exact h.one (fun _ => step.branch (step.pure _) (h.eval r)) s
    | _ => exact h.two (fun _ _ => step.quiet (.applyBinary _ _ _)) s
  | builtin2 name l r => exact h.two (fun _ _ => step.quiet (.applyBuiltin2 _ _ _)) s
  | index o i => exact h.two (fun _ _ => step.quiet (.getIndex _ _)) s
  | methodCall o m args =>
    exact h.operand (fun v t => h.bind (h.refl _) fun vs =>
      h.law.eval.callMethodOf h.calls v m vs) s
  | list es => exact h.bind (h.refl _) fun _ => step.quiet (.newList _)
  | set es => exact h.bind (h.refl _) h.newSet
  | tuple es => exact h.bind (h.refl _) fun _ => step.pure _
  | comprehension kind e x it c =>
    refine h.one (fun v => step.bind (step.quiet (.itemsOf _ _)) fun items => ?_) s
    refine step.bind (h.law.eval.gather x trivial (h.comprehend c e) items) fun vs => ?_
    cases kind with
    | list => exact step.quiet (.newList _)
    | set => exact h.newSet vs
  | ifElse c t e => exact h.one (fun _ => step.branch (h.eval t) (h.eval e)) s

theorem targetOperands (t : Target) (v : Value) (s : Machine) :
    R ((Expr.evalList k t.operands).run s).2 ((t.assign k v).run s).2 := by
  cases t with
  | id | ignore => exact h.assign _ v s
  | field o x => exact h.one (fun _ => h.law.field _ _ _) s
  | index o i => exact h.two (fun _ _ => h.law.block.quiet (.storeItem _ _ _)) s

theorem stmtOperands (st : Stmt) (s : Machine) :
    R ((Expr.evalList k st.operands).run s).2 ((st.exec k).run s).2 := by
  have step := h.law.block
  cases st with
  | assign x e =>
    exact h.one (fun v => step.bind (h.law.store x trivial v) fun _ => step.pure _) s
  | unpack slots e =>
    have any : ∀ m ∈ Slot.collectList effects e slots, True := fun _ _ => trivial
    exact h.one (fun v => step.bind (h.law.destructure h.calls slots v any) fun _ => step.pure _) s
  | expr e => exact h.one (fun _ => step.pure _) s
  | ret v =>
    cases v with
    | none => exact h.refl s
    | some e => exact h.one (fun _ => step.pure _) s
  | setField o x e =>
    exact h.two (fun _ _ => step.bind (h.law.field _ _ _) fun _ => step.pure _) s
  | setIndex o i e =>
    exact h.operand (fun _ => h.two fun _ _ =>
      step.bind (step.quiet (.storeItem _ _ _)) fun _ => step.pure _) s
  | ifElse c thn els => exact h.one (fun _ => step.branch (h.block thn) (h.block els)) s
  | forEach x it body els =>
    refine h.one (fun v => step.bind (step.quiet (.itemsOf v _)) fun vs => ?_) s
    refine step.bind (step.loopEach (h.law.store x trivial) (h.block body) vs) fun flow => ?_
    exact h.flow flow (h.law.execOption h.calls els fun _ _ => trivial)
  | whileLoop | pass | nonlocal | global | breakLoop | continueLoop | closure =>
    exact h.law.exec h.calls _ (fun _ _ => trivial) s

/-! ### Items -/

theorem gather_shadowing (x : String) (step : EvalM (Option Value)) (items : List Value)
    (s : Machine) :
    R ((FlatClosure.gather x step items).run s).2 ((gatherShadowing x step items).run s).2 := by
  cases items with
  | nil => exact h.refl s
  | cons v vs => exact h.restore x _ _

/-- What is related to what an item leaves is related to what all items leave. -/
theorem item {x : String} {step : EvalM (Option Value)} (hs : Along R step) {v : Value}
    {vs : List Value} {s t : Machine} (ht : R t (step.run (s.shadow x v)).2) :
    R t ((FlatClosure.gather x step (v :: vs)).run s).2 := by
  have law := h.law.block
  rw [FlatClosure.gather, run_modify_bind]
  exact h.bind ht fun _ => law.bind (h.gather x hs vs) fun _ => law.pure _

theorem condition (c : Option Expr) (e : Expr) (s : Machine) :
    R ((Expr.evalList k c.toList).run s).2 ((FlatClosure.comprehend k c e).run s).2 := by
  have law := h.law.block
  have test : R ((Expr.evalList k c.toList).run s).2 ((Expr.holds k c).run s).2 := by
    cases c with
    | none => exact h.refl s
    | some c => exact h.one h.truth s
  refine h.bind test fun b => ?_
  cases b with
  | true => exact law.bind (h.eval e) fun _ => law.pure _
  | false => exact law.pure _

end Lasting

section Steps

variable {k : Calls} {s : Machine}

/-- What is related to the state after the second part, where the first succeeds, is related to the
state after both. -/
theorem after_bind {t u : Machine} {x : EvalM α} {f : α → EvalM β} {a : α}
    (hx : x.run s = (.ok a, u)) (hf : R t ((f a).run u).2) : R t ((x >>= f).run s).2 := by
  rw [run_bind_of_ok hx]
  exact hf

theorem after_ite {c : Prop} [Decidable c] {x y : EvalM α} {t : Machine}
    (hx : c → R t (x.run s).2) (hy : ¬c → R t (y.run s).2) :
    R t ((if c then x else y).run s).2 := by
  split
  · exact hx ‹_›
  · exact hy ‹_›

theorem run_callNamed {name : String} {args : List Value} {f : FunDef}
    (hf : k.ctx.program.function? name = some f) :
    (callNamed k name args).run s = (k.enter f args).run (s.initGlobals k.ctx.program) := by
  unfold callNamed
  rw [run_modify_bind, hf]

theorem run_construct {name : String} {c : ClassDef} (span : Span)
    (hc : k.ctx.program.class? name = some c) :
    ((Expr.construct name span).eval k).run s = (instantiate k c []).run s := by
  unfold Expr.eval
  rw [hc]

theorem run_call_of_class {f : Expr} {args : List Expr} {c : ClassDef}
    (hc : calleeClass? k s f = some c) :
    ((Expr.call f args).eval k).run s =
      (Expr.evalList k args >>= fun vs => instantiate k c vs).run s := by
  unfold Expr.eval
  rw [run_get_bind, hc]

theorem run_call_of_value {f : Expr} {args : List Expr} (hc : calleeClass? k s f = none) :
    ((Expr.call f args).eval k).run s =
      (f.eval k >>= fun v => Expr.evalList k args >>= fun vs => callValue k v vs).run s := by
  conv => lhs; unfold Expr.eval
  rw [run_get_bind, hc]

theorem evalList_cons_eq_ok {e : Expr} {es : List Expr} {u : Machine} {v : Value}
    {vs : List Value} (h : (Expr.evalList k (e :: es)).run s = (.ok (v :: vs), u)) :
    ∃ t, (e.eval k).run s = (.ok v, t) ∧ (Expr.evalList k es).run t = (.ok vs, u) := by
  obtain ⟨v, t, he, h⟩ := run_bind_eq_ok.1 h
  obtain ⟨vs, u, hes, h⟩ := run_bind_eq_ok.1 h
  cases h
  exact ⟨t, he, hes⟩

/-- The state that a point leaves is related to the one that is left by the point that led to
it. -/
theorem Starts.after {a b : Point} (h : Lasting k R) (next : Starts k a b) :
    R (b.after k) (a.after k) := by
  have step := h.law.block
  cases next with
  | first => exact h.bind (h.refl _) fun _ => step.bind (h.evalList _) fun _ => step.pure _
  | rest he => exact after_bind he (h.bind (h.refl _) fun _ => step.pure _)
  | operands => exact h.exprOperands _ _
  | conjunct hl hv => exact after_bind hl (after_ite (fun _ => h.refl _) fun no => absurd hv no)
  | disjunct hl hv =>
    exact after_bind hl (after_ite (fun yes => absurd yes (Bool.eq_false_iff.1 hv))
      fun _ => h.refl _)
  | choice hc =>
    refine after_bind hc (after_ite (fun hv => ?_) fun hv => ?_)
    · rw [if_pos hv]
      exact h.refl _
    · rw [if_neg hv]
      exact h.refl _
  | @items _ _ _ kind _ _ _ _ _ _ hit hitems =>
    refine after_bind hit (after_bind hitems ?_)
    refine h.bind (h.gather_shadowing _ _ _ _) fun vs => ?_
    cases kind with
    | list => exact step.quiet (.newList _)
    | set => exact h.newSet vs
  | condition => exact h.item (h.comprehend _ _) (h.condition _ _ _)
  | element hc =>
    refine h.item (h.comprehend _ _) (after_bind hc ?_)
    exact h.bind (h.refl _) fun _ => step.pure _
  | nextItem hr =>
    exact after_bind rfl (after_bind hr (h.bind (h.refl _) fun _ => step.pure _))
  | fields hc =>
    change R _ (((Expr.call _ _).eval k).run _).2
    rw [run_call_of_class hc]
    obtain ⟨x, -, -, hc⟩ := calleeClass?_eq_some.1 hc
    exact h.bind (h.refl _) fun vs => h.law.eval.instantiate h.calls (h.law.eval.object hc) vs
  | make hc hargs =>
    change R _ (((Expr.call _ _).eval k).run _).2
    rw [run_call_of_class hc]
    exact after_bind hargs (h.refl _)
  | callee hc =>
    change R _ (((Expr.call _ _).eval k).run _).2
    rw [run_call_of_value hc]
    exact h.operand (fun v t => h.bind (h.refl _) fun vs => h.law.eval.callValue h.calls v vs) _
  | callValue hc hargs =>
    obtain ⟨t, hv, hvs⟩ := evalList_cons_eq_ok hargs
    change R _ (((Expr.call _ _).eval k).run _).2
    rw [run_call_of_value hc]
    exact after_bind hv (after_bind hvs (h.refl _))
  | callMethod hargs =>
    obtain ⟨t, hv, hvs⟩ := evalList_cons_eq_ok hargs
    exact after_bind hv (after_bind hvs (h.refl _))
  | @construct _ _ span _ hc => exact h.of_run_eq (run_construct span hc)
  | runConstructor hc made =>
    refine after_bind made (after_ite (fun _ => ?_) fun no => absurd hc no)
    exact h.bind (h.refl _) fun _ => step.pure _
  | callFunction | callObject | invoke => exact h.refl _
  | enterMethod hf => exact h.of_run_eq (run_invoke hf)
  | enterFunction hf => exact h.of_run_eq (run_callNamed hf)
  | place => exact h.targetOperands _ _ _
  | star hs hv =>
    refine after_ite (fun _ => ?_) fun no => absurd hs no
    exact after_bind hv (h.bind (h.refl _) fun _ => h.assignSlots _ _ _)
  | afterStar hs hv ht =>
    refine after_ite (fun _ => ?_) fun no => absurd hs no
    exact after_bind hv (after_bind ht (h.refl _))
  | slot hs =>
    refine after_ite (fun yes => absurd yes (Bool.eq_false_iff.1 hs)) fun _ => ?_
    exact h.bind (h.refl _) fun _ => h.assignSlots _ _ _
  | afterSlot hs ht =>
    refine after_ite (fun yes => absurd yes (Bool.eq_false_iff.1 hs)) fun _ => ?_
    exact after_bind ht (h.refl _)
  | parts => exact h.stmtOperands _ _
  | unpack he hitems enough fits =>
    refine after_bind he (h.bind (after_bind hitems (after_ite (fun no => ?_) fun _ => h.refl _))
      fun _ => step.pure _)
    rcases no with few | ⟨plain, other⟩
    · exact absurd enough (Nat.not_le_of_lt few)
    · exact absurd (fits (by simpa using plain)) other
  | branch hc =>
    refine after_bind hc (after_ite (fun hv => ?_) fun hv => ?_)
    · rw [if_pos hv]
      exact h.refl _
    · rw [if_neg hv]
      exact h.refl _
  | whileLoop => exact h.refl _
  | test =>
    refine h.bind (h.bind (h.refl _) h.truth) fun b => ?_
    cases b with
    | false => exact step.pure _
    | true => exact step.bind (h.block _) fun flow => h.flow flow (h.rounds _ _ _)
  | round hc =>
    exact after_bind hc (h.bind (h.refl _) fun flow => h.flow flow (h.rounds _ _ _))
  | nextRound hc hbody again =>
    refine after_bind hc (after_bind hbody ?_)
    rcases again with rfl | rfl <;> exact h.refl _
  | forEach hit hitems =>
    refine after_bind hit (after_bind hitems (h.bind (h.refl _) fun flow => ?_))
    exact h.flow flow (h.law.execOption h.calls _ fun _ _ => trivial)
  | forElse hit hitems hloop again =>
    refine after_bind hit (after_bind hitems (after_bind hloop ?_))
    rcases again with rfl | rfl <;> exact h.refl _
  | pass =>
    refine after_bind rfl (h.bind (h.refl _) fun flow => h.flow flow ?_)
    exact step.loopEach (h.law.store _ trivial) (h.block _) _
  | nextPass hbody again =>
    refine after_bind rfl (after_bind hbody ?_)
    rcases again with rfl | rfl <;> exact h.refl _
  | head =>
    refine h.bind (h.refl _) fun flow => ?_
    cases flow with
    | normal => exact h.block _
    | breakLoop | continueLoop | ret => exact step.pure _
  | tail hs => exact after_bind hs (h.refl _)

end Steps

/-! ### Requests -/

section Requests

variable {ctx : Context} {fuel n : Nat} {rs : List Request} {s : Machine} {a : Point}

/-- Only objects of classes of the program are made. -/
theorem Visited.exists_class (v : Visited ctx fuel rs s n a) {c : ClassDef} {args : List Value}
    (hj : a.job = .instantiate c args) : ∃ x, ctx.program.class? x = some c := by
  cases v with
  | @request _ r =>
    cases r <;> cases hj
  | body => cases hj
  | step _ next =>
    cases next with
    | make hc =>
      cases hj
      obtain ⟨x, -, -, hc⟩ := calleeClass?_eq_some.1 hc
      exact ⟨x, hc⟩
    | construct hc =>
      cases hj
      exact ⟨_, hc⟩
    | _ => cases hj

theorem Visited.callable (v : Visited ctx fuel rs s n a) {f : FunDef} {args : List Value}
    (hj : a.job = .call f args) : Callable ctx.program f := by
  cases v with
  | @request _ r =>
    cases r <;> cases hj
  | body => cases hj
  | step _ next => exact next.callable hj

variable (h : ∀ m, Lasting (ctx.calls m) R)

include h

theorem lasts_stateAfter (rs : List Request) (s : Machine) : R s (stateAfter ctx fuel rs s) := by
  induction rs generalizing s with
  | nil => exact (h 0).refl s
  | cons r rs ih =>
    have first : Along R (r.perform ctx fuel) :=
      (h fuel).law.perform (h fuel).calls r fun _ _ => trivial
    exact (h 0).trans (first s) (ih _)

/-- What a request leaves is related to what the point leaves at which it starts. -/
theorem Request.after_point (r : Request) (s : Machine) :
    R ((r.point ctx s).after (ctx.calls fuel)) ((r.perform ctx fuel).run s).2 := by
  have law := (h fuel).law.block
  cases r with
  | run =>
    have main : R ((Request.run.point ctx s).after (ctx.calls fuel)) ((ctx.runMain fuel).run s).2 :=
      after_bind rfl ((h fuel).bind ((h fuel).refl _) fun flow =>
        law.bind (law.quiet (.flowValue flow)) fun _ => law.pure _)
    exact (h fuel).bind main fun _ => law.pure _
  | eval | call | callValue => exact (h fuel).refl _

/-- What a call leaves is related to what its body leaves. -/
theorem Opens.after_body {f : FunDef} {args : List Value} {t : Machine}
    (opens : Opens ctx n f args t) :
    R (Point.after (ctx.calls n) ⟨f.opened args t, .block f.body⟩)
      (Point.after (ctx.calls (n + 1)) ⟨t, .call f args⟩) := by
  have run : (callFunction ctx (n + 1) f args).run t =
      (withFrame (f.frame args) (Stmt.execList (ctx.calls n) f.body) >>= flowValue).run t :=
    opens f.body
  change R _ ((callFunction ctx (n + 1) f args).run t).2
  rw [run]
  exact (h n).bind ((h n).frames _ _) fun flow => (h n).law.block.quiet (.flowValue flow)

theorem Visited.since (v : Visited ctx fuel rs s n a) : R s a.state := by
  induction v with
  | @request served r waiting _ =>
    have served : R s (stateAfter ctx fuel served s) := lasts_stateAfter h served s
    cases r with
    | run => exact (h fuel).trans served ((h fuel).law.eval.init _)
    | eval | call | callValue => exact served
  | @step n a b v next ih =>
    refine (h n).trans ih (next.along (h n).law (h n).trans (h n).calls (fun _ _ => trivial)
      (fun x _ _ _ _ s w => (h n).shadow x w s) fun c args hj => ?_)
    obtain ⟨x, hc⟩ := v.exists_class hj
    exact (h n).law.eval.object hc
  | body _ _ ih => exact (h 0).trans ih ((h 0).frames _ _)

theorem Visited.along (v : Visited ctx fuel rs s n a) : R a.state (a.after (ctx.calls n)) := by
  refine (h n).law.performJob (h n).calls (fun x _ hs vs => (h n).gather x hs vs) a.job
    (fun c args hj => ?_) (fun f args hj => (h n).calls f (v.callable hj) args) a.state
  obtain ⟨x, hc⟩ := v.exists_class hj
  exact (h n).law.eval.object hc

/-- **To the end.**  What a point leaves is related to what the requests leave. -/
theorem Visited.lasts (v : Visited ctx fuel rs s n a) :
    R (a.after (ctx.calls n)) (stateAfter ctx fuel rs s) := by
  induction v with
  | @request served r waiting hrs =>
    have split : stateAfter ctx fuel rs s = stateAfter ctx fuel waiting
        ((r.perform ctx fuel).run (stateAfter ctx fuel served s)).2 := by
      rw [hrs]
      exact List.foldl_append
    rw [split]
    exact (h 0).trans (r.after_point h _) (lasts_stateAfter h waiting _)
  | @step n a b _ next ih => exact (h n).trans (next.after (h n)) ih
  | body _ opens ih => exact (h 0).trans (opens.after_body h) ih

end Requests

end FlatClosure
